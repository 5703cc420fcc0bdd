import CSnippets.ForStd.Drain
import CSnippets.Native.SingleUdp
import CSnippets.Spec.AsyncUdpReceive

/-!
# Is every datagram received?

Both receive loops go on while `recv` returns more than 0. An empty datagram makes it
return 0 and ends them, whatever waits behind it. `socketCallback` prints what it has
received as a string, without a terminator of its own: there has to be a NUL in what was
received so far.
-/

namespace AsyncUdp

open SentinelList

variable {s : State} {fd : Int} {d : Addr} {c : Conn} {front rest new : List (Addr × Conn)}
  {bytes : List UInt8} {datagrams queue : List Datagram} {bufferSize : Int}

/-- A datagram was passed to the callback; the last of its bytes is left aside. -/
structure HandedOver (c : Conn) (datagram : Datagram) (call : Call) : Prop where
  callback : call.callback = c.callback
  args : call.args = c.args
  readSize : call.readSize = (datagram.length : Int)
  front : call.buffer.take (datagram.length - 1) = datagram.dropLast

/-- Every datagram in the queue that is not empty is passed on once, in order, and the queue is
    empty in the end. -/
def Drains (s : State) (fd : Int) (c : Conn) : Prop :=
  ∃ s' calls, aIOUDPSigHandler s fd = .ok s' ∧ s'.calls = s.calls ++ calls ∧
    List.Forall₂ (HandedOver c) ((s.sockets fd).queue.filter fun x => !x.isEmpty) calls ∧
    (s'.sockets fd).queue = []

/-- None of them is the empty datagram. -/
theorem nil_not_mem_of_nonempty (h : ∀ x ∈ datagrams, x.isEmpty = false) : [] ∉ datagrams := by
  intro hnil
  have := h [] hnil
  simp at this

/-- The receive loop empties the queue up to an empty datagram. -/
theorem recvLoop_drain (callback : Nat) (args : Option Nat) (hlen : bytes.length = bufferSize.toNat)
    (hfit : ∀ x ∈ queue, x.length ≤ bufferSize.toNat) :
    ∃ buffer, recvLoop bufferSize callback args (some bytes) queue =
      .ok (buffer, callsFor callback args bytes (Drain.handled List.isEmpty queue),
        Drain.left List.isEmpty queue) := by
  rcases Drain.cases_mark List.isEmpty queue with hall | ⟨front, a, back, rfl, ha, hfront⟩
  · have hend : recvLoop bufferSize callback args (some (storedAll bytes queue)) [] =
        .ok (some (storedAll bytes queue), [], []) := rfl
    have hloop := recvLoop_append hlen (nil_not_mem_of_nonempty hall) hfit hend
    rw [List.append_nil, List.append_nil] at hloop
    rw [Drain.handled_of_all hall, Drain.left_of_all hall]
    exact ⟨_, hloop⟩
  · rw [List.isEmpty_iff] at ha
    subst ha
    have hfit' : ∀ x ∈ front, x.length ≤ bufferSize.toNat := fun x hx =>
      hfit x (List.mem_append_left _ hx)
    have hloop := recvLoop_append hlen (nil_not_mem_of_nonempty hfront) hfit'
      (recvLoop_empty bufferSize callback args (some (storedAll bytes front)) back)
    rw [List.append_nil] at hloop
    rw [Drain.handled_append hfront rfl, Drain.left_append hfront rfl]
    exact ⟨_, hloop⟩

/-- Each datagram is handed over by its own call. -/
theorem handedOver_callsFor (c : Conn) (bytes : List UInt8)
    (h : ∀ x ∈ datagrams, x.isEmpty = false) :
    List.Forall₂ (HandedOver c) datagrams (callsFor c.callback c.args bytes datagrams) := by
  induction datagrams generalizing bytes with
  | nil => exact .nil
  | cons datagram datagrams ih =>
    rw [List.forall_mem_cons] at h
    have hfront : (stored bytes datagram).take (datagram.length - 1) = datagram.dropLast := by
      rw [stored, ← List.length_dropLast, List.take_left]
    exact .cons ⟨rfl, rfl, rfl, hfront⟩ (ih _ h.2)

/-- The handler drains its queue exactly if no datagram in front of the last is empty. -/
theorem Serves.drains_iff (h : Serves s fd front rest new d c)
    (hfit : ∀ x ∈ (s.sockets fd).queue, x.length ≤ c.bufferSize.toNat) :
    Drains s fd c ↔ [] ∉ (s.sockets fd).queue.dropLast := by
  obtain ⟨bytes, hbuffer, hlen⟩ := (h.registered.ready (d, c) (by simp)).buffer
  obtain ⟨buffer, hrecv⟩ := recvLoop_drain c.callback c.args hlen hfit
  rw [← hbuffer] at hrecv
  obtain ⟨s₁, hrun, hcalls, hqueue⟩ := h.handler hrecv
  -- only an empty datagram that is not the last one leaves something behind
  have hleft : Drain.left List.isEmpty (s.sockets fd).queue = [] ↔
      [] ∉ (s.sockets fd).queue.dropLast := by
    rw [Drain.left_eq_nil_iff]
    constructor
    · exact nil_not_mem_of_nonempty
    · intro hnil x hx
      cases x with
      | nil => exact absurd hx hnil
      | cons b x => rfl
  rw [← hleft]
  constructor
  · rintro ⟨s', calls, hrun', -, -, hempty⟩
    rw [hrun, Except.ok.injEq] at hrun'
    rw [← hqueue, hrun']
    exact hempty
  · intro hempty
    rw [Drain.handled_eq_filter hempty] at hcalls
    refine ⟨s₁, _, hrun, hcalls, handedOver_callsFor c bytes ?_, hqueue.trans hempty⟩
    intro x hx
    simpa using (List.mem_filter.mp hx).2

end AsyncUdp

namespace SingleUdp

open CMemory

/-- With `received` at the front of the buffer there is a NUL in it after each of the
    datagrams, which are laid over what is there. -/
def Terminated : List UInt8 → List (List UInt8) → Prop
  | _, [] => True
  | received, datagram :: datagrams =>
    0 ∈ splice received 0 datagram ∧ Terminated (splice received 0 datagram) datagrams

instance decidableTerminated : (received : List UInt8) → (datagrams : List (List UInt8)) →
    Decidable (Terminated received datagrams)
  | _, [] => .isTrue trivial
  | received, datagram :: datagrams =>
    have := decidableTerminated (splice received 0 datagram) datagrams
    inferInstanceAs (Decidable (0 ∈ splice received 0 datagram ∧ _))

/-- Every end of the one has a NUL where that of the other has. -/
def Alike (buf received : List UInt8) : Prop := ∀ m, 0 ∈ buf.drop m ↔ 0 ∈ received.drop m

variable {buf received datagram text : List UInt8} {queue front tail left : List Packet}
  {p : Packet} {last : Line}

/-- Laying one datagram over both buffers keeps them alike. -/
theorem Alike.splice (h : Alike buf received) (datagram : List UInt8) :
    Alike (splice buf 0 datagram) (splice received 0 datagram) := by
  intro m
  rw [splice_zero, splice_zero, List.drop_append, List.drop_append, List.mem_append,
    List.mem_append, List.drop_drop, List.drop_drop, h]

/-- The bytes cleared have a NUL behind them already. -/
theorem Alike.clear (h : Alike buf received) (htext : cString buf = some text) :
    Alike (clear buf text.length) received := by
  obtain ⟨-, rest, rfl⟩ := cString_eq_some.mp htext
  intro m
  rw [← h m, CMemory.clear, splice_zero, List.length_replicate, List.drop_left]
  rcases Nat.lt_or_ge text.length m with hlt | hge
  · have hzeros : (List.replicate text.length (0 : UInt8)).drop m = [] :=
      List.drop_of_length_le (by rw [List.length_replicate]; omega)
    have htext' : text.drop m = [] := List.drop_of_length_le (by omega)
    rw [List.drop_append, List.drop_append, List.length_replicate, hzeros, htext']
  · -- both ends have the terminator in them
    have hmem (zeros : List UInt8) (hlen : zeros.length = text.length) :
        0 ∈ (zeros ++ 0 :: rest).drop m := by
      rw [List.drop_append_of_le_length (by omega)]
      exact List.mem_append_right _ List.mem_cons_self
    exact iff_of_true (hmem _ List.length_replicate) (hmem text rfl)

/-- A packet was reported: with its sender, and its text at the front of what was printed. -/
def Reports (p : Packet) (line : Line) : Prop :=
  ∃ text, line = .message text p.sAddr p.sinPort ∧ p.bytes.takeWhile (· != 0) <+: text

/-- The text read begins with the text of the bytes at the front. -/
theorem takeWhile_of_cString {bytes rest : List UInt8}
    (h : cString (bytes ++ rest) = some text) : bytes.takeWhile (· != 0) <+: text := by
  induction bytes generalizing text with
  | nil => exact List.nil_prefix
  | cons b bytes ih =>
    by_cases hb : b = 0
    · rw [List.takeWhile_cons, if_neg (by simp [hb])]
      exact List.nil_prefix
    · rw [List.cons_append, cString, if_neg hb, Option.map_eq_some_iff] at h
      obtain ⟨text', htext', rfl⟩ := h
      rw [List.takeWhile_cons, if_pos (by simp [hb])]
      exact List.cons_prefix_cons.mpr ⟨rfl, ih htext'⟩

/-- An empty queue ends the loop. -/
theorem recvLoop_nil (buf : List UInt8) : recvLoop buf [] = some ([.finished], []) := by
  rw [recvLoop]

/-- One packet that is not empty: it is reported if there is a NUL in the buffer. -/
theorem recvLoop_cons (hne : p.bytes ≠ []) (hfit : p.bytes.length ≤ bufferSize) :
    recvLoop buf (p :: queue) = (do
      let text ← cString (splice buf 0 p.bytes)
      let (lines, queue) ← recvLoop (CMemory.clear (splice buf 0 p.bytes) text.length) queue
      return (.message text p.sAddr p.sinPort :: lines, queue)) := by
  have hpos := List.length_pos_iff.mpr hne
  have hsize : min p.bytes.length bufferSize = p.bytes.length := Nat.min_eq_left hfit
  rw [recvLoop]
  simp only [hsize, if_neg (Nat.ne_of_gt hpos), List.take_length]

/-- The packets in front of the end of the loop are all reported where the buffer has a NUL
    after each; else a string goes on behind what was written. -/
theorem recvLoop_front (halike : Alike buf received) (hne : ∀ p ∈ front, p.bytes ≠ [])
    (hfit : ∀ p ∈ front, p.bytes.length ≤ bufferSize)
    (htail : ∀ buf, recvLoop buf tail = some ([last], left)) :
    if Terminated received (front.map Packet.bytes) then
      ∃ lines, recvLoop buf (front ++ tail) = some (lines ++ [last], left) ∧
        List.Forall₂ Reports front lines
    else recvLoop buf (front ++ tail) = none := by
  induction front generalizing buf received with
  | nil => exact ⟨[], htail buf, .nil⟩
  | cons p front ih =>
    rw [List.forall_mem_cons] at hne hfit
    rw [List.cons_append, recvLoop_cons hne.1 hfit.1, List.map_cons]
    have hspliced := halike.splice p.bytes
    by_cases hnul : 0 ∈ splice received 0 p.bytes
    · -- what was received has a NUL in it, and so has the buffer
      cases htext : cString (splice buf 0 p.bytes) with
      | none => exact absurd ((hspliced 0).mpr hnul) (cString_eq_none.mp htext)
      | some text =>
        have hrest := ih (hspliced.clear htext) hne.2 hfit.2
        have hprefix : p.bytes.takeWhile (· != 0) <+: text := by
          rw [splice_zero] at htext
          exact takeWhile_of_cString htext
        simp only [Terminated, hnul, true_and]
        split at hrest
        · rename_i hterminated
          obtain ⟨lines, hloop, hlines⟩ := hrest
          rw [if_pos hterminated]
          refine ⟨.message text p.sAddr p.sinPort :: lines, ?_, .cons ⟨text, rfl, hprefix⟩ hlines⟩
          rw [Option.bind_eq_bind, Option.bind_some, hloop]
          rfl
        · rename_i hterminated
          rw [if_neg hterminated, Option.bind_eq_bind, Option.bind_some, hrest]
          rfl
    · have hnone : cString (splice buf 0 p.bytes) = none :=
        cString_eq_none.mpr fun h => hnul ((hspliced 0).mp h)
      rw [if_neg (fun h => hnul h.1), hnone]
      rfl

/-- Every packet in the queue that is not empty is reported once, in order, and the queue is
    empty in the end. -/
def Drains (queue : List Packet) : Prop :=
  ∃ lines last, socketCallback queue = some (lines ++ [last], []) ∧
    (last = .finished ∨ last = .disconnected) ∧
    List.Forall₂ Reports (queue.filter fun p => !p.bytes.isEmpty) lines

/-- What `socketCallback` does with the packets up to an empty one. -/
theorem socketCallback_drain (hfit : ∀ p ∈ queue, p.bytes.length ≤ bufferSize) :
    ∃ last, (last = .finished ∨ last = .disconnected) ∧
      if Terminated [] ((Drain.handled (fun p => p.bytes.isEmpty) queue).map Packet.bytes) then
        ∃ lines, socketCallback queue =
            some (lines ++ [last], Drain.left (fun p => p.bytes.isEmpty) queue) ∧
          List.Forall₂ Reports (Drain.handled (fun p => p.bytes.isEmpty) queue) lines
      else socketCallback queue = none := by
  have hnonempty {packets : List Packet} (h : ∀ p ∈ packets, p.bytes.isEmpty = false) :
      ∀ p ∈ packets, p.bytes ≠ [] := by
    intro p hp hnil
    have := h p hp
    simp [hnil] at this
  have hrefl : Alike [] [] := fun _ => Iff.rfl
  -- the loop ends at the first empty datagram, or when nothing is queued
  rcases Drain.cases_mark (fun p : Packet => p.bytes.isEmpty) queue with
    hall | ⟨front, p, back, rfl, hp, hfront⟩
  · have hloop := recvLoop_front hrefl (hnonempty hall) hfit recvLoop_nil
    rw [List.append_nil] at hloop
    rw [Drain.handled_of_all hall, Drain.left_of_all hall]
    exact ⟨.finished, .inl rfl, hloop⟩
  · have hempty : p.bytes = [] := List.isEmpty_iff.mp hp
    have hend (buf : List UInt8) : recvLoop buf (p :: back) = some ([.disconnected], back) := by
      simp [recvLoop, hempty]
    have hloop := recvLoop_front hrefl (hnonempty hfront)
      (fun q hq => hfit q (List.mem_append_left _ hq)) hend
    rw [Drain.handled_append hfront hp, Drain.left_append hfront hp]
    exact ⟨.disconnected, .inr rfl, hloop⟩

/-- The callback drains its queue exactly if no packet in front of the last is empty and each is
    terminated. -/
theorem drains_iff (hfit : ∀ p ∈ queue, p.bytes.length ≤ bufferSize) :
    Drains queue ↔ (∀ p ∈ queue.dropLast, p.bytes ≠ []) ∧
      Terminated [] ((queue.filter fun p => !p.bytes.isEmpty).map Packet.bytes) := by
  obtain ⟨last, hlast, hrun⟩ := socketCallback_drain hfit
  -- nothing is left exactly if only the last packet may be empty
  have hleft : Drain.left (fun p => p.bytes.isEmpty) queue = [] ↔
      ∀ p ∈ queue.dropLast, p.bytes ≠ [] := by
    rw [Drain.left_eq_nil_iff]
    simp
  rw [← hleft]
  constructor
  · rintro ⟨lines, last', hrun', -, -⟩
    split at hrun
    · rename_i hterminated
      obtain ⟨lines', hloop, -⟩ := hrun
      rw [hrun', Option.some.injEq, Prod.mk.injEq] at hloop
      rw [Drain.handled_eq_filter hloop.2.symm] at hterminated
      exact ⟨hloop.2.symm, hterminated⟩
    · rw [hrun] at hrun'
      cases hrun'
  · rintro ⟨hempty, hterminated⟩
    rw [Drain.handled_eq_filter hempty, if_pos hterminated, hempty] at hrun
    obtain ⟨lines, hloop, hlines⟩ := hrun
    exact ⟨lines, last, hloop, hlast, hlines⟩

end SingleUdp

/-- Datagrams that wait, none of them longer than the buffer. The handler of
    `async_UDP_multithread` hands each of them over that is not empty, and leaves the socket
    empty, if and only if none but the last is empty; `socketCallback` of `async_UDP` reports
    each of them if and only if, moreover, there is a NUL in its buffer after each. -/
theorem waiting_datagrams_processed_iff (s : AsyncUdp.State) (fd : Int)
    (front rest new : List (SentinelList.Addr × AsyncUdp.Conn)) (d : SentinelList.Addr)
    (c : AsyncUdp.Conn) (h : AsyncUdp.Serves s fd front rest new d c)
    (hfit : ∀ x ∈ (s.sockets fd).queue, x.length ≤ c.bufferSize.toNat)
    (queue : List SingleUdp.Packet) (hqueue : ∀ p ∈ queue, p.bytes.length ≤ SingleUdp.bufferSize) :
    (AsyncUdp.Drains s fd c ↔ [] ∉ (s.sockets fd).queue.dropLast) ∧
      (SingleUdp.Drains queue ↔ (∀ p ∈ queue.dropLast, p.bytes ≠ []) ∧
        SingleUdp.Terminated []
          ((queue.filter fun p => !p.bytes.isEmpty).map SingleUdp.Packet.bytes)) :=
  ⟨h.drains_iff hfit, SingleUdp.drains_iff hqueue⟩

/-- Two datagrams for the handler; and one with its terminator, a shorter one without, and an
    empty one for `socketCallback`. -/
theorem waiting_datagrams_processed_two :
    AsyncUdp.Drains (AsyncUdp.oneSocket [[104, 105, 10], [104]]) 3 AsyncUdp.fourBytes ∧
      SingleUdp.Drains [⟨[104, 105, 0], 1, 2⟩, ⟨[111], 1, 2⟩, ⟨[], 3, 4⟩] :=
  have h := waiting_datagrams_processed_iff _ 3 [] [] [] 8 _
    (AsyncUdp.serves_oneSocket [[104, 105, 10], [104]]) (by decide)
    [⟨[104, 105, 0], 1, 2⟩, ⟨[111], 1, 2⟩, ⟨[], 3, 4⟩] (by decide)
  ⟨h.1.mpr (by decide), h.2.mpr (by decide)⟩

/-- Behind an empty datagram one is left in either socket. -/
theorem empty_datagram_stops :
    ¬ AsyncUdp.Drains (AsyncUdp.oneSocket [[], [104, 105]]) 3 AsyncUdp.fourBytes ∧
      ¬ SingleUdp.Drains [⟨[], 1, 2⟩, ⟨[104, 105, 0], 1, 2⟩] := by
  constructor
  · rw [(AsyncUdp.serves_oneSocket _).drains_iff (by decide)]
    decide
  · rw [SingleUdp.drains_iff (by decide)]
    decide
