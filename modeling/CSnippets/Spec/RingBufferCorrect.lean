import CSnippets.ForStd.Runs
import CSnippets.ForStd.BoundedQueue
import CSnippets.Native.RingBuffer

/-!
# The ring buffer is a bounded FIFO queue

`Holds w rb q` relates a ring buffer to the queue of the items it holds: the live
slots, from `tail` on, hold the items in order, and `full` says whether the
queue is at its capacity. Every operation keeps the relation and answers as the
queue does, so whole runs do.
-/

namespace RingBuffer

open CMemory

/-! ## The abstract queue -/

/-- The queue's answer to a call. -/
def specCall {w n : Nat} (q : BoundedQueue (List UInt8) n) :
    Call w → Result × BoundedQueue (List UInt8) n
  | .put data =>
    match q.put data.toList with
    | none => (.put (-1), q)
    | some q' => (.put 0, q')
  | .fput data => (.fput, q.fput data.toList)
  | .get data =>
    match q.get with
    | none => (.get (-1) data.toList, q)
    | some (x, q') => (.get 0 x, q')
  | .reset => (.reset, .empty)

/-- What the queries must say of a queue. -/
def specQueries {n : Nat} (q : BoundedQueue (List UInt8) n) : Queries :=
  { empty := q.length == 0, full := q.length == n, size := q.length }

/-- A call on the queue and the queries after it. -/
def specStep {w n : Nat} (q : BoundedQueue (List UInt8) n) (c : Call w) :
    (Result × Queries) × BoundedQueue (List UInt8) n :=
  (((specCall q c).1, specQueries (specCall q c).2), (specCall q c).2)

/-! ## The representation relation -/

/-- `rb` is a buffer of `n` slots of `w` bytes that holds the items of `q`. -/
structure Holds {n : Nat} (w : Nat) (rb : RingBuf) (q : BoundedQueue (List UInt8) n) : Prop where
  pos : 0 < n
  fits : n * w < 2 ^ 64
  size_eq : rb.size.toNat = n
  itemSize_eq : rb.itemSize.toNat = w
  buffer_length : rb.buffer.length = n * w
  tail_lt : rb.tail.toNat < n
  head_eq : rb.head.toNat = (rb.tail.toNat + q.length) % n
  full_eq : rb.full = (q.length == n)
  layout : CircularLayout (slot rb.buffer w) n rb.tail.toNat q.items

variable {n w : Nat} {rb : RingBuf} {q : BoundedQueue (List UInt8) n}

/-- The number of items is one of `size_t`. -/
private theorem size_lt (h : Holds w rb q) : n < 2 ^ 64 := by
  rw [← h.size_eq]; exact rb.size.toNat_lt

/-- The head is an index of the buffer. -/
theorem Holds.head_lt (h : Holds w rb q) : rb.head.toNat < n := by
  rw [h.head_eq]; exact Nat.mod_lt _ h.pos

/-- The slot offset `i * itemSize` does not wrap. -/
private theorem offset_toNat (h : Holds w rb q) {i : UInt64} (hi : i.toNat < n) :
    (i * rb.itemSize).toNat = i.toNat * w := by
  have hb := slot_bound (w := w) hi
  have hfits := h.fits
  rw [UInt64.toNat_mul, h.itemSize_eq, Nat.mod_eq_of_lt (by omega)]

/-- Stepping an index to the next slot: the increment does not wrap. -/
private theorem next_slot (h : Holds w rb q) {i : UInt64} (hi : i.toNat < n) :
    ∃ j, umod (i + 1) rb.size = some j ∧ j.toNat = (i.toNat + 1) % n := by
  have hsize := h.size_eq
  have hlt := size_lt h
  refine ⟨_, umod_of_pos (by rw [hsize]; exact h.pos), ?_⟩
  rw [UInt64.toNat_mod, UInt64.toNat_add, hsize, UInt64.toNat_one,
    Nat.mod_eq_of_lt (show i.toNat + 1 < 2 ^ 64 by omega)]

/-- `head` meets `tail` exactly when the queue is empty or at its capacity. -/
private theorem wrap_eq_iff {t l : Nat} (ht : t < n) (hl : l ≤ n) :
    (t + l) % n = t ↔ l = 0 ∨ l = n := by
  constructor
  · intro h
    rcases Nat.lt_or_ge (t + l) n with hlt | hge
    · -- no wrap: only an empty queue ends where it starts
      rw [Nat.mod_eq_of_lt hlt] at h; omega
    · -- one wrap: only a full one does
      rw [Nat.mod_eq_sub_mod hge] at h
      rcases Nat.lt_or_ge (t + l - n) n with hlt' | hge'
      · rw [Nat.mod_eq_of_lt hlt'] at h; omega
      · omega
  · rintro (rfl | rfl)
    · simp [Nat.mod_eq_of_lt ht]
    · simp [Nat.mod_eq_of_lt ht]

/-- Head and tail meet in an empty and in a full buffer only. -/
theorem Holds.head_eq_tail (h : Holds w rb q) :
    rb.head = rb.tail ↔ q.length = 0 ∨ q.length = n := by
  rw [← UInt64.toNat_inj, h.head_eq]
  exact wrap_eq_iff h.tail_lt q.length_le

/-! ## The queries -/

/-- `rbuf_empty` is true exactly if the queue is empty. -/
theorem Holds.rbufEmpty_eq (h : Holds w rb q) : rbufEmpty rb = (q.length == 0) := by
  have hpos := h.pos
  have hht := h.head_eq_tail
  -- `full` rules out the second way for `head` to meet `tail`
  rw [rbufEmpty, h.full_eq, Bool.eq_iff_iff]
  simp only [Bool.and_eq_true, Bool.not_eq_eq_eq_not, Bool.not_true, beq_eq_false_iff_ne,
    beq_iff_eq, hht]
  omega

/-- The mixed-sign computation of `rbuf_size` is exact. -/
theorem Holds.rbufSize_eq (h : Holds w rb q) : (rbufSize rb).toNat = q.length := by
  have hle : q.length ≤ n := q.length_le
  have htail := h.tail_lt
  have hhead := h.head_eq
  have hsize := h.size_eq
  have hn := size_lt h
  have htl := rb.tail.toNat_lt
  unfold rbufSize
  rw [h.full_eq]
  by_cases hfull : q.length = n
  · simp [hfull, hsize]
  · simp only [beq_eq_false_iff_ne.mpr hfull, Bool.not_false, if_true, gt_iff_lt,
      UInt64.lt_iff_toNat_lt]
    rcases Nat.lt_or_ge (rb.tail.toNat + q.length) n with hlt | hge
    · -- the live slots lie in one piece, `head` behind `tail`
      rw [Nat.mod_eq_of_lt hlt] at hhead
      rw [if_neg (by omega), UInt64.toNat_sub]
      omega
    · -- the live slots wrap: `head - tail` underflows and `size` corrects it
      rw [Nat.mod_eq_sub_mod hge, Nat.mod_eq_of_lt (by omega)] at hhead
      rw [if_pos (by omega), UInt64.toNat_add, UInt64.toNat_sub]
      omega

/-- No operation changes the capacity. -/
theorem Holds.rbufCapacity_eq (h : Holds w rb q) : (rbufCapacity rb).toNat = n := h.size_eq

/-- The queries answer what those of the queue do. -/
theorem Holds.queries_eq (h : Holds w rb q) : queries rb = specQueries q := by
  simp only [queries, specQueries, rbugFull, h.rbufEmpty_eq, h.rbufSize_eq, h.full_eq]

/-! ## The operations -/

/-- A buffer fresh from `rbuf_init` holds nothing. -/
theorem holds_rbufInit {structMem bufferMem : Bool} {itemSize itemCount : UInt64}
    (h : rbufInit structMem bufferMem itemSize itemCount = some rb) (hn : 1 ≤ itemCount.toNat) :
    Holds itemSize.toNat rb (BoundedQueue.empty : BoundedQueue (List UInt8) itemCount.toNat) := by
  simp only [rbufInit, Option.bind_eq_bind, Option.bind_eq_some_iff, Option.pure_def,
    Option.some.injEq] at h
  obtain ⟨_, _, buffer, hcalloc, _, _, rfl⟩ := h
  obtain ⟨hfits, rfl⟩ := calloc_eq_some hcalloc
  exact
    { pos := hn
      fits := hfits
      size_eq := rfl
      itemSize_eq := rfl
      buffer_length := List.length_replicate
      tail_lt := hn
      head_eq := by simp [BoundedQueue.length, BoundedQueue.empty]
      full_eq := by simp [BoundedQueue.length, BoundedQueue.empty]; omega
      layout := CircularLayout.nil }

/-- After `rbuf_reset` the buffer holds the empty queue. -/
theorem holds_rbufReset (h : Holds w rb q) :
    Holds w (rbufReset rb) (BoundedQueue.empty : BoundedQueue (List UInt8) n) := by
  have hpos := h.pos
  exact
    { h with
      tail_lt := hpos
      head_eq := by simp [rbufReset, BoundedQueue.length, BoundedQueue.empty]
      full_eq := by simp [rbufReset, BoundedQueue.length, BoundedQueue.empty]; omega
      layout := CircularLayout.nil }

/-- `copyIn` writes the slot at `head` and no other. -/
private theorem copyIn_eq (h : Holds w rb q) {data : List UInt8} (hd : data.length = w) :
    copyIn rb data = some { rb with buffer := splice rb.buffer (rb.head.toNat * w) data } := by
  simp only [copyIn, offset_toNat h h.head_lt, h.itemSize_eq,
    memcpyTo_slot h.buffer_length h.head_lt hd]
  rfl

/-- A copy into a buffer with a free slot, followed by `inc_buf`, appends. -/
private theorem incBuf_of_not_full (h : Holds w rb q) {data : List UInt8} (hd : data.length = w)
    (hlt : q.length < n) {q' : BoundedQueue (List UInt8) n} (hq' : q'.items = q.items ++ [data]) :
    ∃ rb', incBuf { rb with buffer := splice rb.buffer (rb.head.toNat * w) data } = some rb' ∧
      Holds w rb' q' := by
  have hlen' : q'.length = q.length + 1 := by simp [BoundedQueue.length, hq']
  have hfull : rb.full = false := by rw [h.full_eq]; simpa using Nat.ne_of_lt hlt
  obtain ⟨head, hmod, hhead⟩ := next_slot h h.head_lt
  have hnext : head.toNat = (rb.tail.toNat + q'.length) % n := by
    rw [hhead, h.head_eq, hlen', Nat.mod_add_mod, Nat.add_assoc]
  refine ⟨{ rb with
    buffer := splice rb.buffer (rb.head.toNat * w) data, head := head,
    full := head == rb.tail }, by simp [incBuf, hfull, hmod], ?_⟩
  have hhd := h.head_eq
  -- a queue that has just grown meets `tail` only at its capacity
  have hwrap : (head == rb.tail) = (q'.length == n) := by
    rw [Bool.eq_iff_iff, beq_iff_eq, beq_iff_eq, ← UInt64.toNat_inj, hnext,
      wrap_eq_iff h.tail_lt (show q'.length ≤ n from q'.length_le)]
    omega
  have hlayout : CircularLayout (slot (splice rb.buffer (rb.head.toNat * w) data) w) n
      rb.tail.toNat (q.items ++ [data]) := by
    apply h.layout.append hlt
    · rw [← BoundedQueue.length, ← hhd]
      exact slot_splice_self h.buffer_length h.head_lt hd
    · intro j hj
      exact slot_splice_of_ne h.buffer_length h.head_lt (by rw [hhd]; exact hj) hd
  exact
    { h with
      buffer_length := length_splice_slot h.buffer_length h.head_lt hd
      head_eq := hnext
      full_eq := hwrap
      layout := hq' ▸ hlayout }

/-- A copy into a full buffer, followed by `inc_buf`, replaces the oldest item. -/
private theorem incBuf_of_full (h : Holds w rb q) {data : List UInt8} (hd : data.length = w)
    (hlen : q.length = n) {q' : BoundedQueue (List UInt8) n} {y : List UInt8}
    {ys : List (List UInt8)} (hq : q.items = y :: ys) (hq' : q'.items = ys ++ [data]) :
    ∃ rb', incBuf { rb with buffer := splice rb.buffer (rb.head.toNat * w) data } = some rb' ∧
      Holds w rb' q' := by
  have hlen' : q'.length = n := by
    have : q'.length = q.length := by simp [BoundedQueue.length, hq, hq']
    exact this.trans hlen
  have hfull : rb.full = true := by rw [h.full_eq]; simpa using hlen
  -- in a full buffer the next slot to write is that of the oldest item
  have hht : rb.head = rb.tail := h.head_eq_tail.mpr (Or.inr hlen)
  obtain ⟨tail, hmod, htail⟩ := next_slot h h.tail_lt
  refine ⟨{ rb with
    buffer := splice rb.buffer (rb.head.toNat * w) data, head := tail, tail := tail,
    full := true }, by simp [incBuf, hfull, hmod], ?_⟩
  have htlt : tail.toNat < n := by rw [htail]; exact Nat.mod_lt _ h.pos
  -- the item is written where the head was, which is the tail that moves on
  have hmod' : rb.tail.toNat % n = rb.head.toNat := by rw [hht, Nat.mod_eq_of_lt h.tail_lt]
  have hlayout : CircularLayout (slot (splice rb.buffer (rb.head.toNat * w) data) w) n
      ((rb.tail.toNat + 1) % n) (ys ++ [data]) := by
    apply CircularLayout.overwrite (hq ▸ h.layout) (by rw [← hq]; exact hlen)
    · rw [hmod']; exact slot_splice_self h.buffer_length h.head_lt hd
    · intro j hj
      exact slot_splice_of_ne h.buffer_length h.head_lt (hmod' ▸ hj) hd
  exact
    { h with
      buffer_length := length_splice_slot h.buffer_length h.head_lt hd
      tail_lt := htlt
      head_eq := ((wrap_eq_iff htlt q'.length_le).mpr (Or.inr hlen')).symm
      full_eq := by simp [hlen']
      layout := by rw [hq', htail]; exact hlayout }

/-- `rbuf_put` answers as the queue does; a refused item changes nothing. -/
theorem rbufPut_spec (h : Holds w rb q) {data : List UInt8} (hd : data.length = w) :
    match q.put data with
    | none => rbufPut rb data = some (-1, rb)
    | some q' => ∃ rb', rbufPut rb data = some (0, rb') ∧ Holds w rb' q' := by
  by_cases hlt : q.length < n
  · have hfull : rb.full = false := by rw [h.full_eq]; simpa using Nat.ne_of_lt hlt
    obtain ⟨q', hput, hq'⟩ := BoundedQueue.put_of_lt hlt data
    obtain ⟨rb', hinc, hholds⟩ := incBuf_of_not_full h hd hlt hq'
    simp only [hput]
    refine ⟨rb', ?_, hholds⟩
    rw [rbufPut, if_neg (by simp [hfull]), copyIn_eq h hd]
    simp [hinc]
  · -- at the capacity `full` is set, and the call returns before it writes
    have hlen : q.length = n := Nat.le_antisymm q.length_le (Nat.not_lt.mp hlt)
    have hfull : rb.full = true := by rw [h.full_eq]; simpa using hlen
    simp [BoundedQueue.put_of_full hlen, rbufPut, hfull]

/-- `rbuf_fput` does what the forced put of the queue does. -/
theorem rbufFput_spec (h : Holds w rb q) {data : List UInt8} (hd : data.length = w) :
    ∃ rb', rbufFput rb data = some rb' ∧ Holds w rb' (q.fput data) := by
  by_cases hlt : q.length < n
  · obtain ⟨rb', hinc, hholds⟩ := incBuf_of_not_full h hd hlt (q.fput_items_of_lt hlt data)
    exact ⟨rb', by simp [rbufFput, copyIn_eq h hd, hinc], hholds⟩
  · have hlen : q.length = n := Nat.le_antisymm q.length_le (Nat.not_lt.mp hlt)
    have hpos := h.pos
    -- a full queue has an oldest item, since its capacity is positive
    cases hq : q.items with
    | nil => simp only [BoundedQueue.length, hq, List.length_nil] at hlen; omega
    | cons y ys =>
      obtain ⟨rb', hinc, hholds⟩ :=
        incBuf_of_full h hd hlen hq (q.fput_items_of_full hlen hq data)
      exact ⟨rb', by simp [rbufFput, copyIn_eq h hd, hinc], hholds⟩

/-- `rbuf_get` answers as the queue does; on an empty buffer it changes neither
    the buffer nor the caller's memory. -/
theorem rbufGet_spec (h : Holds w rb q) {data : List UInt8} (hd : data.length = w) :
    match q.get with
    | none => rbufGet rb data = some (-1, data, rb)
    | some (x, q') => ∃ rb', rbufGet rb data = some (0, x, rb') ∧ Holds w rb' q' := by
  have hempty := h.rbufEmpty_eq
  obtain ⟨items, hle⟩ := q
  cases items with
  | nil => simp [BoundedQueue.get, rbufGet, hempty, BoundedQueue.length]
  | cons x xs =>
    have hempty' : rbufEmpty rb = false := by simpa [BoundedQueue.length] using hempty
    obtain ⟨hx, hxs⟩ := h.layout.uncons
    rw [Nat.mod_eq_of_lt h.tail_lt] at hx
    obtain ⟨tail, hmod, htail⟩ := next_slot h h.tail_lt
    have hcopy := memcpyFrom_slot h.buffer_length h.tail_lt hd
    have htlt : tail.toNat < n := by rw [htail]; exact Nat.mod_lt _ h.pos
    have hne : xs.length ≠ n := by simp only [List.length_cons] at hle; omega
    simp only [BoundedQueue.get]
    refine ⟨{ rb with full := false, tail := tail }, ?_, ?_⟩
    · simp [rbufGet, hempty', offset_toNat h h.tail_lt, h.itemSize_eq, hcopy, decBuf, hmod, hx]
    -- `head` stays where it is, one slot closer to `tail`
    have hhead : rb.head.toNat = (tail.toNat + xs.length) % n := by
      have hhead := h.head_eq
      simp only [BoundedQueue.length, List.length_cons] at hhead
      rw [hhead, htail, Nat.mod_add_mod, Nat.add_assoc, Nat.add_comm xs.length 1]
    exact
      { h with
        tail_lt := htlt
        head_eq := hhead
        full_eq := by simp [BoundedQueue.length, hne]
        layout := by rw [htail]; exact hxs }

/-! ## Whole runs -/

/-- One call keeps the relation and gives the queue's reply. -/
theorem step_refines (h : Holds w rb q) (c : Call w) :
    ∃ rb', step rb c = some ((specStep q c).1, rb') ∧ Holds w rb' (specStep q c).2 := by
  suffices hcall : ∃ rb', call rb c = some ((specCall q c).1, rb') ∧
      Holds w rb' (specCall q c).2 by
    -- the queries after the call follow from the relation
    obtain ⟨rb', hc, hr⟩ := hcall
    exact ⟨rb', by simp [step, specStep, hc, hr.queries_eq], hr⟩
  cases c with
  | put data =>
    have hspec := rbufPut_spec h data.length_toList
    simp only [specCall, call]
    cases hput : q.put data.toList with
    | none =>
      simp only [hput] at hspec
      exact ⟨rb, by simp [hspec], h⟩
    | some q' =>
      simp only [hput] at hspec
      obtain ⟨rb', hc, hr⟩ := hspec
      exact ⟨rb', by simp [hc], hr⟩
  | fput data =>
    obtain ⟨rb', hc, hr⟩ := rbufFput_spec h data.length_toList
    exact ⟨rb', by simp [call, specCall, hc], hr⟩
  | get data =>
    have hspec := rbufGet_spec h data.length_toList
    simp only [specCall, call]
    cases hget : q.get with
    | none =>
      simp only [hget] at hspec
      exact ⟨rb, by simp [hspec], h⟩
    | some p =>
      obtain ⟨x, q'⟩ := p
      simp only [hget] at hspec
      obtain ⟨rb', hc, hr⟩ := hspec
      exact ⟨rb', by simp [hc], hr⟩
  | reset => exact ⟨rbufReset rb, rfl, holds_rbufReset h⟩

/-- A buffer that `rbuf_init` returns answers every sequence of calls as a
    bounded FIFO queue of capacity `item_count`, and the calls it refuses leave
    it (and the caller's memory) as they were. -/
theorem rbuf_refines_fifo (structMem bufferMem : Bool) (itemSize itemCount : UInt64) (rb : RingBuf)
    (hcount : 1 ≤ itemCount.toNat)
    (hinit : rbufInit structMem bufferMem itemSize itemCount = some rb)
    (calls : List (Call itemSize.toNat)) :
    ∃ replies q rb',
      Runs.specReplies specStep
        (BoundedQueue.empty : BoundedQueue (List UInt8) itemCount.toNat) calls = (replies, q) ∧
      Runs.runReplies step rb calls = some (replies, rb') ∧
      queries rb' = specQueries q ∧
      (q.length = itemCount.toNat →
        ∀ data : Vector UInt8 itemSize.toNat, rbufPut rb' data.toList = some (-1, rb')) ∧
      (q.length = 0 →
        ∀ data : Vector UInt8 itemSize.toNat,
          rbufGet rb' data.toList = some (-1, data.toList, rb')) := by
  obtain ⟨rb', hrun, hholds⟩ := Runs.runReplies_refines (R := Holds itemSize.toNat)
    (fun _ _ c h => step_refines h c) (holds_rbufInit hinit hcount) calls
  refine ⟨_, _, rb', rfl, hrun, hholds.queries_eq, fun hfull data => ?_, fun hempty data => ?_⟩
  -- the two refusals, from the queue at the end of the run
  · have hspec := rbufPut_spec hholds data.length_toList
    rwa [BoundedQueue.put_of_full hfull] at hspec
  · have hspec := rbufGet_spec hholds data.length_toList
    rwa [BoundedQueue.get_of_empty hempty] at hspec

/-- Capacity one, two-byte items: the second item overwrites the first. -/
theorem rbuf_refines_fifo_capacity_one :
    ∃ replies q rb',
      Runs.specReplies specStep (BoundedQueue.empty : BoundedQueue (List UInt8) 1)
        [.put #v[1, 2], .fput #v[3, 4], .put #v[5, 6], .get #v[0, 0]] = (replies, q) ∧
      Runs.runReplies (step (w := 2)) ⟨[0, 0], 0, 0, 1, 2, false⟩
        [.put #v[1, 2], .fput #v[3, 4], .put #v[5, 6], .get #v[0, 0]] = some (replies, rb') ∧
      replies.map Prod.fst = [.put 0, .fput, .put (-1), .get 0 [3, 4]] := by
  obtain ⟨replies, q, rb', hspec, hrun, -⟩ := rbuf_refines_fifo true true 2 1
    ⟨[0, 0], 0, 0, 1, 2, false⟩ (by decide) (by decide)
    [.put #v[1, 2], .fput #v[3, 4], .put #v[5, 6], .get #v[0, 0]]
  refine ⟨replies, q, rb', hspec, hrun, ?_⟩
  obtain ⟨rfl, -⟩ := Prod.mk.inj hspec
  rfl

end RingBuffer
