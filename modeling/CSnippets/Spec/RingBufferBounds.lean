import CSnippets.Spec.RingBufferCorrect

/-!
# Bounds of the ring buffer

No call on a buffer of at least one item divides by zero, leaves the block or
wraps in a sum or a product: all three follow from `Holds`. `rbuf_init` also
returns a buffer of no items at all, on which the first item written divides by
zero.
-/

namespace RingBuffer

open CMemory

/-! ## What a call computes -/

/-- The increment of `inc_buf` or `dec_buf` does not wrap before its remainder is
    taken. -/
def IncrementFits {w : Nat} (rb : RingBuf) : Call w → Prop
  | .put _ => rb.full = false → rb.head.toNat + 1 < 2 ^ 64
  | .fput _ => (if rb.full then rb.tail else rb.head).toNat + 1 < 2 ^ 64
  | .get _ => rbufEmpty rb = false → rb.tail.toNat + 1 < 2 ^ 64
  | .reset => True

/-- Neither the offset of the bytes copied nor their end wraps. -/
def OffsetFits {w : Nat} (rb : RingBuf) : Call w → Prop
  | .put _ => rb.full = false → rb.head.toNat * rb.itemSize.toNat + rb.itemSize.toNat < 2 ^ 64
  | .fput _ => rb.head.toNat * rb.itemSize.toNat + rb.itemSize.toNat < 2 ^ 64
  | .get _ => rbufEmpty rb = false →
      rb.tail.toNat * rb.itemSize.toNat + rb.itemSize.toNat < 2 ^ 64
  | .reset => True

/-- The call takes no remainder by zero, copies only inside the `n` items of `w` bytes
    that were allocated, and wraps nowhere. -/
structure Bounded (n : Nat) {w : Nat} (rb : RingBuf) (c : Call w) : Prop where
  defined : ∃ result, call rb c = some result
  block : rb.buffer.length = n * w
  increment : IncrementFits rb c
  offset : OffsetFits rb c

/-- The buffer after a call. -/
def next {w : Nat} (rb : RingBuf) (c : Call w) : Option RingBuf := (call rb c).map Prod.snd

/-- The call stores an item. -/
def Call.Writes {w : Nat} : Call w → Prop
  | .put _ => True
  | .fput _ => True
  | .get _ => False
  | .reset => False

variable {n w : Nat} {rb : RingBuf} {q : BoundedQueue (List UInt8) n}

/-- The signed variable of `rbuf_size` changes nothing. -/
theorem rbufSizeSigned_eq (rb : RingBuf) : rbufSizeSigned rb = rbufSize rb := by
  unfold rbufSizeSigned rbufSize
  cases rb.full with
  | true => simp
  | false =>
    by_cases hwrap : rb.tail > rb.head
    · simp [hwrap]
    · simp [hwrap]

/-! ## Buffers of at least one item -/

/-- An index below the size can be incremented. -/
private theorem index_fits (h : Holds w rb q) {i : UInt64} (hi : i.toNat < n) :
    i.toNat + 1 < 2 ^ 64 := by
  have hsize := h.size_eq
  have hlt := rb.size.toNat_lt
  omega

/-- The offset of a slot and its end do not wrap. -/
private theorem slot_fits (h : Holds w rb q) {i : UInt64} (hi : i.toNat < n) :
    i.toNat * rb.itemSize.toNat + rb.itemSize.toNat < 2 ^ 64 := by
  have hbound := slot_bound (w := w) hi
  have hfits := h.fits
  rw [h.itemSize_eq]
  omega

/-- No increment wraps in a buffer that holds a queue. -/
theorem Holds.incrementFits (h : Holds w rb q) (c : Call w) : IncrementFits rb c := by
  cases c with
  | put data => exact fun _ => index_fits h h.head_lt
  | fput data =>
    show (if rb.full then rb.tail else rb.head).toNat + 1 < 2 ^ 64
    split
    · exact index_fits h h.tail_lt
    · exact index_fits h h.head_lt
  | get data => exact fun _ => index_fits h h.tail_lt
  | reset => trivial

/-- No offset wraps in a buffer that holds a queue. -/
theorem Holds.offsetFits (h : Holds w rb q) (c : Call w) : OffsetFits rb c := by
  cases c with
  | put data => exact fun _ => slot_fits h h.head_lt
  | fput data => exact slot_fits h h.head_lt
  | get data => exact fun _ => slot_fits h h.tail_lt
  | reset => trivial

/-- A call is defined and keeps the relation. -/
theorem Holds.call (h : Holds w rb q) (c : Call w) :
    ∃ result rb', RingBuffer.call rb c = some (result, rb') ∧ Holds w rb' (specCall q c).2 := by
  obtain ⟨rb', hstep, hholds⟩ := step_refines h c
  cases hcall : RingBuffer.call rb c with
  | none => simp [step, hcall] at hstep
  | some p =>
    obtain ⟨result, rb''⟩ := p
    obtain rfl : rb'' = rb' := by
      simp only [step, hcall, Option.bind_eq_bind, Option.bind_some, Option.pure_def,
        Option.some.injEq, Prod.mk.injEq] at hstep
      exact hstep.2
    exact ⟨result, rb'', rfl, hholds⟩

/-- Every call on a buffer that holds a queue stays inside it. -/
theorem Holds.bounded (h : Holds w rb q) (c : Call w) : Bounded n rb c := by
  obtain ⟨result, rb', hcall, -⟩ := h.call c
  exact ⟨⟨_, hcall⟩, h.buffer_length, h.incrementFits c, h.offsetFits c⟩

/-- A condition that holds of every call on a buffer that holds a queue is met by all
    calls of a run. -/
theorem Holds.stepsMeet {C : RingBuf → Call w → Prop}
    (hC : ∀ rb (q : BoundedQueue (List UInt8) n) c, Holds w rb q → C rb c)
    (h : Holds w rb q) (calls : List (Call w)) : Runs.StepsMeet next C rb calls := by
  induction calls generalizing rb q with
  | nil => trivial
  | cons c calls ih =>
    obtain ⟨result, rb', hcall, hholds⟩ := h.call c
    have hnext : next rb c = some rb' := by rw [next, hcall, Option.map_some]
    rw [Runs.stepsMeet_cons hnext]
    exact ⟨hC rb q c h, ih hholds⟩

/-! ## Buffers of no item -/

/-- A buffer for no items, as `rbuf_init` returns it. -/
structure Degenerate (rb : RingBuf) : Prop where
  size : rb.size = 0
  buffer : rb.buffer = []
  head : rb.head = 0
  tail : rb.tail = 0
  full : rb.full = false

/-- `rbuf_init` with 0 items returns such a buffer. -/
theorem degenerate_rbufInit {structMem bufferMem : Bool} {itemSize : UInt64}
    (h : rbufInit structMem bufferMem itemSize 0 = some rb) : Degenerate rb := by
  simp only [rbufInit, Option.bind_eq_bind, Option.bind_eq_some_iff, Option.pure_def,
    Option.some.injEq] at h
  obtain ⟨_, _, buffer, hcalloc, _, _, rfl⟩ := h
  obtain ⟨-, rfl⟩ := calloc_eq_some hcalloc
  exact ⟨rfl, by simp, rfl, rfl, rfl⟩

/-- Storing an item takes a remainder by zero, unless the `memcpy` has left the block
    before. -/
theorem Degenerate.call_eq_none (h : Degenerate rb) {c : Call w} (hc : c.Writes) :
    RingBuffer.call rb c = none := by
  have hcopy : ∀ data, (copyIn rb data).bind RingBuffer.incBuf = none := by
    intro data
    cases hcopy : copyIn rb data with
    | none => rfl
    | some rb' =>
      -- the copy changes only the bytes of the block
      obtain ⟨buffer, -, hrb'⟩ := Option.bind_eq_some_iff.mp hcopy
      obtain rfl := Option.some.inj hrb'
      simp [RingBuffer.incBuf, h.full, umod, h.size]
  cases c with
  | put data =>
    have hput : rbufPut rb data.toList = none := by
      rw [rbufPut, if_neg (by simp [h.full])]
      show (copyIn rb data.toList).bind (fun rb => (RingBuffer.incBuf rb).bind _) = none
      rw [← Option.bind_assoc, hcopy, Option.bind_none]
    simp [RingBuffer.call, hput]
  | fput data =>
    have hfput : rbufFput rb data.toList = none := hcopy data.toList
    simp [RingBuffer.call, hfput]
  | get data => exact hc.elim
  | reset => exact hc.elim

/-- Every other call leaves the buffer as it is. -/
theorem Degenerate.next (h : Degenerate rb) {c : Call w} (hc : ¬ c.Writes) :
    RingBuffer.next rb c = some rb := by
  cases c with
  | put data => exact absurd trivial hc
  | fput data => exact absurd trivial hc
  | get data =>
    have hempty : rbufEmpty rb = true := by simp [rbufEmpty, h.full, h.head, h.tail]
    simp [RingBuffer.next, RingBuffer.call, rbufGet, hempty]
  | reset =>
    have hreset : rbufReset rb = rb := by
      cases rb with
      | mk buffer head tail size itemSize full =>
        obtain rfl : head = 0 := h.head
        obtain rfl : tail = 0 := h.tail
        obtain rfl : full = false := h.full
        rfl
    simp [RingBuffer.next, RingBuffer.call, hreset]

/-- A call on a buffer for no items stays inside it unless it stores. -/
theorem Degenerate.bounded_iff (h : Degenerate rb) (c : Call w) : Bounded 0 rb c ↔ ¬ c.Writes := by
  constructor
  · intro hbounded hwrites
    obtain ⟨result, hresult⟩ := hbounded.defined
    rw [h.call_eq_none hwrites] at hresult
    cases hresult
  · intro hc
    obtain ⟨result, hresult, -⟩ := Option.map_eq_some_iff.mp (h.next hc)
    have hempty : rbufEmpty rb = true := by simp [rbufEmpty, h.full, h.head, h.tail]
    -- nothing is copied and no index moves
    have hfits : IncrementFits rb c ∧ OffsetFits rb c := by
      cases c with
      | put data => exact absurd trivial hc
      | fput data => exact absurd trivial hc
      | get data => simp [IncrementFits, OffsetFits, hempty]
      | reset => exact ⟨trivial, trivial⟩
    exact ⟨⟨result, hresult⟩, by simp [h.buffer], hfits.1, hfits.2⟩

/-- A run on a buffer for no items stays inside it unless some call stores. -/
theorem Degenerate.run_bounded_iff (h : Degenerate rb) (calls : List (Call w)) :
    Runs.StepsMeet RingBuffer.next (Bounded 0) rb calls ↔ ∀ c ∈ calls, ¬ c.Writes := by
  induction calls with
  | nil => simp [Runs.StepsMeet]
  | cons c calls ih =>
    rw [List.forall_mem_cons]
    constructor
    · intro hrun
      have hc := (h.bounded_iff c).mp hrun.1
      exact ⟨hc, ih.mp ((Runs.stepsMeet_cons (h.next hc)).mp hrun).2⟩
    · intro hcalls
      have hc := hcalls.1
      exact (Runs.stepsMeet_cons (h.next hc)).mpr ⟨(h.bounded_iff c).mpr hc, ih.mpr hcalls.2⟩

/-! ## Whole runs -/

/-- On a buffer that `rbuf_init` returns every call stays in bounds exactly if the
    buffer has room for an item or none is ever stored. -/
theorem rbuf_bounded_iff (structMem bufferMem : Bool) (itemSize itemCount : UInt64) (rb : RingBuf)
    (hinit : rbufInit structMem bufferMem itemSize itemCount = some rb)
    (calls : List (Call itemSize.toNat)) :
    Runs.StepsMeet next (Bounded itemCount.toNat) rb calls ↔
      1 ≤ itemCount.toNat ∨ ∀ c ∈ calls, ¬ c.Writes := by
  by_cases hcount : 1 ≤ itemCount.toNat
  · have hrun := (holds_rbufInit hinit hcount).stepsMeet (C := Bounded itemCount.toNat)
      (fun _ _ c h => h.bounded c) calls
    exact ⟨fun _ => Or.inl hcount, fun _ => hrun⟩
  · obtain rfl : itemCount = 0 := by
      apply UInt64.toNat_inj.mp
      show itemCount.toNat = 0
      omega
    rw [UInt64.toNat_zero, (degenerate_rbufInit hinit).run_bounded_iff calls]
    simp

/-- Two items of two bytes: the third is refused, the fourth overwrites. -/
theorem rbuf_bounded_iff_two_items :
    Runs.StepsMeet next (Bounded 2) ⟨[0, 0, 0, 0], 0, 0, 2, 2, false⟩
      [.put (w := 2) #v[1, 2], .put #v[3, 4], .put #v[5, 6], .fput #v[7, 8], .get #v[0, 0]] :=
  (rbuf_bounded_iff true true 2 2 _ (by decide) _).mpr (Or.inl (by decide))

/-- `rbuf_init` returns a buffer for no items; `rbuf_put` copies behind its block and
    would then divide by its size. -/
theorem put_leaves_block :
    ∃ rb, rbufInit true true 4 0 = some rb ∧ copyIn rb [1, 2, 3, 4] = none ∧ incBuf rb = none ∧
      ¬ Runs.StepsMeet next (Bounded 0) rb [.put (w := 4) #v[1, 2, 3, 4]] := by
  refine ⟨⟨[], 0, 0, 0, 4, false⟩, by decide, by decide, by decide, fun hrun => ?_⟩
  obtain ⟨result, hresult⟩ := hrun.1.defined
  cases hresult

/-- After every run from `rbuf_init` the signed computation of `rbuf_size` gives the
    number of items held, and no increment has wrapped. -/
theorem rbuf_size_exact (structMem bufferMem : Bool) (itemSize itemCount : UInt64) (rb : RingBuf)
    (hcount : 1 ≤ itemCount.toNat)
    (hinit : rbufInit structMem bufferMem itemSize itemCount = some rb)
    (calls : List (Call itemSize.toNat)) :
    ∃ replies q rb',
      Runs.specReplies specStep
        (BoundedQueue.empty : BoundedQueue (List UInt8) itemCount.toNat) calls = (replies, q) ∧
      Runs.runReplies step rb calls = some (replies, rb') ∧
      (rbufSizeSigned rb').toNat = q.length ∧ q.length ≤ itemCount.toNat ∧
      Runs.StepsMeet next IncrementFits rb calls := by
  have hholds := holds_rbufInit hinit hcount
  obtain ⟨rb', hrun, hholds'⟩ :=
    Runs.runReplies_refines (R := Holds itemSize.toNat) (fun _ _ c h => step_refines h c) hholds calls
  refine ⟨_, _, rb', rfl, hrun, ?_, BoundedQueue.length_le _, ?_⟩
  · rw [rbufSizeSigned_eq]
    exact hholds'.rbufSize_eq
  · exact hholds.stepsMeet (fun _ _ c h => h.incrementFits c) calls

/-- One item is left in the last slot of three, and `head - tail` is -2. -/
theorem rbuf_size_exact_wrapped :
    (rbufSizeSigned ⟨[1, 2, 3], 0, 2, 3, 1, false⟩).toNat = 1 := by
  obtain ⟨replies, q, rb', hspec, hrun, hsize, -⟩ := rbuf_size_exact true true 1 3
    ⟨[0, 0, 0], 0, 0, 3, 1, false⟩ (by decide) (by decide)
    [.put #v[1], .put #v[2], .put #v[3], .get #v[0], .get #v[0]]
  obtain ⟨-, rfl⟩ := Prod.mk.inj hspec
  have hreached : ⟨[1, 2, 3], 0, 2, 3, 1, false⟩ = rb' := (Prod.mk.inj (Option.some.inj hrun)).2
  rw [hreached]
  exact hsize

end RingBuffer
