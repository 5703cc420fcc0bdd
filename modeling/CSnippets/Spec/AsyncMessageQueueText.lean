import CSnippets.Spec.AsyncMessageQueueOrder

/-!
# Received messages as strings

`messageQueuePut` sends the bytes of a string without its terminator, and
`sigHandler` receives every message into the same buffer without writing one. The
buffer starts out zeroed, so a message is followed by a NUL as long as it is not
shorter than one received before; behind a shorter message the rest of the longer
one is still there.
-/

namespace AsyncMQ

variable {s s' : State} {q : QueueId}

/-- The argument of a callback read as a C string. -/
def CallbackCall.text (c : CallbackCall) : Option (List UInt8) := CMemory.cString c.buffer

/-- A string that `messageQueuePut` can send: `strlen` bytes, and not empty. -/
def IsText (m : Message) : Prop := m ≠ [] ∧ 0 ∉ m

/-- No message is shorter than one before it. -/
def NonDecreasing (ms : List Message) : Prop := ms.Pairwise fun m m' => m.length ≤ m'.length

/-- Every message that is a text causes a call of the callback. -/
theorem length_deliveries (q : QueueId) (b : List UInt8) {ms : List Message}
    (htexts : ∀ m ∈ ms, IsText m) : (deliveries q b ms).length = ms.length := by
  induction ms generalizing b with
  | nil => rfl
  | cons m ms ih =>
    obtain ⟨hm, hms⟩ := List.forall_mem_cons.mp htexts
    simp only [deliveries, if_neg hm.1, List.length_cons, ih _ hms]

/-- The first `k` calls are those for the first `k` messages. -/
theorem deliveries_take (q : QueueId) (b : List UInt8) {ms : List Message}
    (htexts : ∀ m ∈ ms, IsText m) (k : Nat) :
    (deliveries q b ms).take k = deliveries q b (ms.take k) := by
  induction ms generalizing b k with
  | nil => simp [deliveries]
  | cons m ms ih =>
    obtain ⟨hm, hms⟩ := List.forall_mem_cons.mp htexts
    cases k with
    | zero => rfl
    | succ k => simp only [deliveries, if_neg hm.1, List.take_succ_cons, ih _ hms]

/-- A receiver whose buffer holds the text `front` and zeros behind it passes every
    text on as it was sent exactly when none is shorter than `front` or than one
    before it. -/
theorem deliveries_text_iff (q : QueueId) (front : List UInt8) (n : Nat) {ms : List Message}
    (hfront : 0 ∉ front) (htexts : ∀ m ∈ ms, IsText m)
    (hfit : ∀ m ∈ ms, m.length < front.length + n) :
    (deliveries q (front ++ List.replicate n 0) ms).map CallbackCall.text = ms.map some ↔
      (∀ m ∈ ms, front.length ≤ m.length) ∧ NonDecreasing ms := by
  induction ms generalizing front n with
  | nil => simp [deliveries, NonDecreasing]
  | cons m ms ih =>
    obtain ⟨hm, hms⟩ := List.forall_mem_cons.mp htexts
    obtain ⟨hmfit, hmsfit⟩ := List.forall_mem_cons.mp hfit
    have hfirst : CallbackCall.text ⟨q, m.length, CMemory.splice (front ++ List.replicate n 0) 0 m⟩ =
        some m ↔ front.length ≤ m.length := CMemory.cString_splice_text hfront hm.2 hmfit
    simp only [deliveries, if_neg hm.1, List.map_cons, List.cons.injEq, hfirst, NonDecreasing,
      List.pairwise_cons, List.forall_mem_cons]
    by_cases hlong : front.length ≤ m.length
    · -- `m` is now the text in the buffer
      have hrest := ih m (n - (m.length - front.length)) hm.2 hms (by
        intro m' hm'
        have := hmsfit m' hm'
        omega)
      rw [CMemory.splice_text hlong, hrest, NonDecreasing]
      constructor
      · rintro ⟨-, hle, hpairs⟩
        exact ⟨⟨hlong, fun m' hm' => Nat.le_trans hlong (hle m' hm')⟩, hle, hpairs⟩
      · rintro ⟨-, hle, hpairs⟩
        exact ⟨hlong, hle, hpairs⟩
    · constructor
      · exact fun h => absurd h.1 hlong
      · exact fun h => absurd h.1.1 hlong

/-- The calls made so far are those for as many of the messages sent. -/
theorem Serves.callsOf_eq {mq : Queue} {b : List UInt8} {sent ms : List Message}
    (h : Serves q b sent ms s mq) (htexts : ∀ m ∈ sent, IsText m) :
    callsOf q s = deliveries q b (sent.take (callsOf q s).length) := by
  have hms : ∀ m ∈ ms, IsText m := fun m hm =>
    htexts m (h.sent ▸ List.mem_append_left _ hm)
  have hlength : (callsOf q s).length ≤ ms.length := by
    have := congrArg List.length h.calls
    rw [List.length_append, length_deliveries q b hms] at this
    omega
  calc callsOf q s = (deliveries q b ms).take (callsOf q s).length := by
        rw [← h.calls, List.take_left]
    _ = deliveries q b (ms.take (callsOf q s).length) := deliveries_take q b hms _
    _ = deliveries q b (sent.take (callsOf q s).length) := by
        rw [h.sent, List.take_append_of_le_length hlength]

/-- In every run the callbacks of a queue so far read exactly the texts sent to it
    if and only if none of these texts is shorter than one before it. -/
theorem callbacks_text_iff (h : Fresh s) {es : List Event}
    (hrun : es.foldlM (step .thread) s = some s') (hq : s.queues q ≠ none)
    (htexts : ∀ m ∈ sentTo q es, IsText m) :
    (callsOf q s').map CallbackCall.text =
        ((sentTo q es).take (callsOf q s').length).map some ↔
      NonDecreasing ((sentTo q es).take (callsOf q s').length) := by
  obtain ⟨mq', ms', -, hs⟩ := h.serves hq hrun
  have hcalls := hs.callsOf_eq htexts
  generalize (callsOf q s').length = n at hcalls ⊢
  have hmem : ∀ m ∈ (sentTo q es).take n, m ∈ sentTo q es := fun m hm => List.mem_of_mem_take hm
  -- the buffer begins with the empty text
  have hiff := deliveries_text_iff q [] (maxSize + 1) List.not_mem_nil
    (fun m hm => htexts m (hmem m hm)) (fun m hm => by
      have := length_le_of_mem_sentTo (hmem m hm)
      show m.length < 0 + (maxSize + 1)
      omega)
  rw [List.nil_append, ← hcalls] at hiff
  rw [hiff]
  constructor
  · exact fun hle => hle.2
  · exact fun hle => ⟨fun _ _ => Nat.zero_le _, hle⟩

/-- The run in which two messages are sent and received one after the other. -/
def sentAndReceived (m m' : Message) : List Event :=
  [.send 0 m, .deliver 0, .handle 0, .handle 0, .handle 0, .handle 0,
   .send 0 m', .deliver 0, .handle 0, .handle 0]

/-- The messages of the run are the two that it is given. -/
theorem isText_sentAndReceived {m m' : Message} (hm : IsText m) (hm' : IsText m') :
    ∀ x ∈ sentTo 0 (sentAndReceived m m'), IsText x := by
  intro x hx
  rw [sentTo, List.mem_filterMap] at hx
  obtain ⟨e, he, hxe⟩ := hx
  simp only [sentAndReceived, List.mem_cons, List.not_mem_nil, or_false] at he
  rcases he with rfl | rfl | rfl | rfl | rfl | rfl | rfl | rfl | rfl | rfl <;>
    simp only [Option.ite_none_right_eq_some, Option.some.injEq, reduceCtorEq] at hxe
  · exact hxe.2 ▸ hm
  · exact hxe.2 ▸ hm'

/-- "hi" and then "you": the second text is the longer one. -/
theorem callbacks_text_iff_growing :
    ∃ s', (sentAndReceived [104, 105] [121, 111, 117]).foldlM (step .thread) oneQueue = some s' ∧
      (callsOf 0 s').map CallbackCall.text = [some [104, 105], some [121, 111, 117]] := by
  obtain ⟨s', hrun⟩ : ∃ s', (sentAndReceived [104, 105] [121, 111, 117]).foldlM (step .thread)
      oneQueue = some s' := ⟨_, rfl⟩
  have hiff := callbacks_text_iff (q := 0) fresh_oneQueue hrun (by simp [oneQueue])
    (isText_sentAndReceived ⟨by simp, by decide⟩ ⟨by simp, by decide⟩)
  obtain rfl := Option.some.inj hrun
  exact ⟨_, rfl, hiff.mpr (by
    show List.Pairwise _ [[104, 105], [121, 111, 117]]
    simp)⟩

/-- "you" and then "hi": the second callback reads "hiu". -/
theorem second_text_keeps_tail :
    Fresh oneQueue ∧
      (∀ m ∈ sentTo 0 (sentAndReceived [121, 111, 117] [104, 105]), IsText m) ∧
      ∃ s', (sentAndReceived [121, 111, 117] [104, 105]).foldlM (step .thread) oneQueue = some s' ∧
        (callsOf 0 s').map CallbackCall.text = [some [121, 111, 117], some [104, 105, 117]] :=
  ⟨fresh_oneQueue, isText_sentAndReceived ⟨by simp, by decide⟩ ⟨by simp, by decide⟩, _, rfl, rfl⟩

end AsyncMQ
