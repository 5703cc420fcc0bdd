import CSnippets.Spec.RingBufferCorrect

/-!
# What the ring buffer has kept

The buffer always holds the items stored last, in order, and what has been fetched from it
comes in the order in which it was stored, each item once. Items are lost only to
`rbuf_fput` on a full buffer and to `rbuf_reset`.
-/

namespace RingBuffer

open CMemory

/-- The items in the live slots, the oldest first. -/
def contents (rb : RingBuf) : List (List UInt8) :=
  (List.range (rbufSize rb).toNat).map fun i =>
    slot rb.buffer rb.itemSize.toNat ((rb.tail.toNat + i) % rb.size.toNat)

/-- What a call stores, given its reply. -/
def stored {w : Nat} : Call w → Result × Queries → List (List UInt8)
  | .put data, (.put ret, _) => if ret = 0 then [data.toList] else []
  | .fput data, _ => [data.toList]
  | _, _ => []

/-- What a call fetches. -/
def fetched : Result × Queries → List (List UInt8)
  | (.get ret data, _) => if ret = 0 then [data] else []
  | _ => []

/-- The items that the calls have stored. -/
def storedBy {w : Nat} (calls : List (Call w)) (replies : List (Result × Queries)) :
    List (List UInt8) :=
  (List.zipWith stored calls replies).flatten

/-- The items that the calls have fetched. -/
def fetchedBy (replies : List (Result × Queries)) : List (List UInt8) := replies.flatMap fetched

/-- The call loses no items. -/
def Call.Keeps {w : Nat} : Call w → Prop
  | .put _ => True
  | .fput _ => False
  | .get _ => True
  | .reset => False

variable {n w : Nat} {rb : RingBuf} {q : BoundedQueue (List UInt8) n}
  {before after : List (List UInt8)}

/-- The slots from the tail on hold the items of the queue. -/
theorem Holds.contents_eq (h : Holds w rb q) : contents rb = q.items := by
  have hlength : (contents rb).length = q.items.length := by
    rw [contents, List.length_map, List.length_range, h.rbufSize_eq]
    rfl
  apply List.ext_getElem hlength
  intro i hi hi'
  have hslot := h.layout i hi'
  simp only [contents, List.getElem_map, List.getElem_range, h.size_eq, h.itemSize_eq]
  exact hslot

/-! ## Calls of the queue -/

/-- Every call, refused or not, stores and fetches as its reply says. -/
theorem specStep_window (h : Window before after q.items) (c : Call w) :
    Window (before ++ stored c (specStep q c).1) (after ++ fetched (specStep q c).1)
      (specStep q c).2.items := by
  cases c with
  | put data =>
    by_cases hlt : q.length < n
    · obtain ⟨q', hput, hitems⟩ := BoundedQueue.put_of_lt hlt data.toList
      have hstore := h.store data.toList
      simpa [specStep, specCall, hput, stored, fetched, hitems] using hstore
    · -- a refused item is not stored
      have hfull : q.length = n := Nat.le_antisymm q.length_le (Nat.not_lt.mp hlt)
      simpa [specStep, specCall, BoundedQueue.put_of_full hfull, stored, fetched] using h
  | fput data =>
    -- a full queue forgets its oldest item
    have hstore := (h.store data.toList).drop (q.length + 1 - n)
    simpa [specStep, specCall, stored, fetched, BoundedQueue.fput] using hstore
  | get data =>
    obtain ⟨items, hle⟩ := q
    cases items with
    | nil => simpa [specStep, specCall, BoundedQueue.get, stored, fetched] using h
    | cons x xs =>
      have hfetch := h.fetch
      simpa [specStep, specCall, BoundedQueue.get, stored, fetched] using hfetch
  | reset =>
    have hclear := h.clear
    simpa [specStep, specCall, BoundedQueue.empty, stored, fetched] using hclear

/-- What a call that loses nothing leaves are the items stored and not fetched. -/
theorem specStep_keeps (h : after ++ q.items = before) {c : Call w} (hkeeps : c.Keeps) :
    (after ++ fetched (specStep q c).1) ++ (specStep q c).2.items =
      before ++ stored c (specStep q c).1 := by
  cases c with
  | put data =>
    by_cases hlt : q.length < n
    · obtain ⟨q', hput, hitems⟩ := BoundedQueue.put_of_lt hlt data.toList
      simp [specStep, specCall, hput, stored, fetched, hitems, ← h]
    · have hfull : q.length = n := Nat.le_antisymm q.length_le (Nat.not_lt.mp hlt)
      simp [specStep, specCall, BoundedQueue.put_of_full hfull, stored, fetched, h]
  | fput data => exact absurd hkeeps id
  | get data =>
    obtain ⟨items, hle⟩ := q
    cases items with
    | nil => simpa [specStep, specCall, BoundedQueue.get, stored, fetched] using h
    | cons x xs => simpa [specStep, specCall, BoundedQueue.get, stored, fetched] using h
  | reset => exact absurd hkeeps id

/-! ## Runs of the queue -/

/-- The queue stays a window of what was stored, behind what was fetched. -/
theorem specReplies_window (h : Window before after q.items) (calls : List (Call w)) :
    Window (before ++ storedBy calls (Runs.specReplies specStep q calls).1)
      (after ++ fetchedBy (Runs.specReplies specStep q calls).1)
      (Runs.specReplies specStep q calls).2.items := by
  induction calls generalizing q before after with
  | nil => simpa [storedBy, fetchedBy, Runs.specReplies] using h
  | cons c calls ih =>
    have hrest := ih (specStep_window h c)
    simpa [storedBy, fetchedBy, Runs.specReplies] using hrest

/-- When no call drops an item, what was fetched and the queue are all that was stored. -/
theorem specReplies_keeps (h : after ++ q.items = before) {calls : List (Call w)}
    (hkeeps : ∀ c ∈ calls, c.Keeps) :
    (after ++ fetchedBy (Runs.specReplies specStep q calls).1) ++
        (Runs.specReplies specStep q calls).2.items =
      before ++ storedBy calls (Runs.specReplies specStep q calls).1 := by
  induction calls generalizing q before after with
  | nil => simpa [storedBy, fetchedBy, Runs.specReplies] using h
  | cons c calls ih =>
    have hfirst := specStep_keeps h (hkeeps c (List.mem_cons_self))
    have hrest := ih hfirst fun d hd => hkeeps d (List.mem_cons_of_mem c hd)
    simpa [storedBy, fetchedBy, Runs.specReplies] using hrest

/-! ## The buffer -/

/-- After any calls the buffer holds the items stored last, and what was fetched and
    what is held, in this order, are items stored, in order and each once. Where no call is
    `rbuf_fput` or `rbuf_reset` these are all the items stored. -/
theorem rbuf_keeps_latest (structMem bufferMem : Bool) (itemSize itemCount : UInt64)
    (rb : RingBuf) (hcount : 1 ≤ itemCount.toNat)
    (hinit : rbufInit structMem bufferMem itemSize itemCount = some rb)
    (calls : List (Call itemSize.toNat)) :
    ∃ replies rb', Runs.runReplies step rb calls = some (replies, rb') ∧
      contents rb' <:+ storedBy calls replies ∧
      (fetchedBy replies ++ contents rb').Sublist (storedBy calls replies) ∧
      ((∀ c ∈ calls, c.Keeps) →
        fetchedBy replies ++ contents rb' = storedBy calls replies) := by
  -- the code replies what the bounded queue replies, of which the window speaks
  obtain ⟨rb', hrun, hholds⟩ := Runs.runReplies_refines (R := Holds itemSize.toNat)
    (fun _ _ c h => step_refines h c) (holds_rbufInit hinit hcount) calls
  have hcontents := hholds.contents_eq
  have hwindow := specReplies_window
    (q := (BoundedQueue.empty : BoundedQueue (List UInt8) itemCount.toNat)) Window.nil calls
  simp only [List.nil_append] at hwindow
  refine ⟨_, rb', hrun, ?_, ?_, fun hkeeps => ?_⟩
  · rw [hcontents]
    exact hwindow.latest
  · rw [hcontents]
    exact hwindow.inOrder
  · have hall := specReplies_keeps
      (q := (BoundedQueue.empty : BoundedQueue (List UInt8) itemCount.toNat))
      (show [] ++ [] = [] from rfl) hkeeps
    rw [hcontents]
    simpa using hall

/-- Capacity one, two-byte items: `[1, 2]` is lost to `rbuf_fput`, `[5, 6]` is refused. -/
theorem rbuf_keeps_latest_capacity_one :
    ∃ replies rb',
      Runs.runReplies (step (w := 2)) ⟨[0, 0], 0, 0, 1, 2, false⟩
        [.put #v[1, 2], .fput #v[3, 4], .put #v[5, 6], .get #v[0, 0]] = some (replies, rb') ∧
      contents rb' <:+ storedBy (w := 2)
        [.put #v[1, 2], .fput #v[3, 4], .put #v[5, 6], .get #v[0, 0]] replies := by
  obtain ⟨replies, rb', hrun, hlatest, -⟩ := rbuf_keeps_latest true true 2 1
    ⟨[0, 0], 0, 0, 1, 2, false⟩ (by decide) (by decide)
    [.put #v[1, 2], .fput #v[3, 4], .put #v[5, 6], .get #v[0, 0]]
  exact ⟨replies, rb', hrun, hlatest⟩

end RingBuffer
