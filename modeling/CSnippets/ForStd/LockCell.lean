import Mathlib.Logic.Function.Basic

/-!
# A lock named by a mutable cell

Tasks protect themselves by a mutex that they find in a shared cell. The cell is
read once for the take and again for the give, and it may be assigned in between:
a task can then give another mutex than it took, and two tasks can hold two
mutexes at once.

`Agree` is the invariant under which this does not happen: every task on its way
through the lock uses the mutex that is in the cell. All steps keep it, as long as
the cell is assigned only while no task is on its way. Then also nobody holds a
mutex but the task that took it (`Held`).
-/

namespace LockCell

variable {τ μ : Type*}

/-- Where a task is on its way through the lock. -/
inductive Phase (μ : Type*) where
  | out
  /-- It has read `m` and has not taken it. -/
  | waiting (m : μ)
  /-- It has taken `m`. -/
  | inside (m : μ)
  /-- It has taken `m` and has read `m'`, which it will give. -/
  | giving (m m' : μ)

/-- Between the take and the give. -/
def Phase.Holds : Phase μ → Prop
  | .out => False
  | .waiting _ => False
  | .inside _ => True
  | .giving _ _ => True

/-- The mutex taken. -/
def Phase.taken : Phase μ → Option μ
  | .out => none
  | .waiting _ => none
  | .inside m => some m
  | .giving m _ => some m

/-- The mutex named in the cell, who holds each mutex, and where each task is. -/
structure State (τ μ : Type*) where
  cell : Option μ
  holder : μ → Option τ
  phase : τ → Phase μ

/-- What the phase of the task `t` says about the lock. -/
def Agrees (s : State τ μ) (t : τ) : Phase μ → Prop
  | .out => True
  | .waiting m => s.cell = some m
  | .inside m => s.cell = some m ∧ s.holder m = some t
  | .giving m m' => m' = m ∧ s.cell = some m ∧ s.holder m = some t

/-- Every task on its way through the lock uses the mutex in the cell. -/
def Agree (s : State τ μ) : Prop := ∀ t, Agrees s t (s.phase t)

/-- A mutex is held only by a task that has taken it and is still on its way. -/
def Held (s : State τ μ) : Prop := ∀ m t, s.holder m = some t → (s.phase t).taken = some m

variable {s s' : State τ μ} {t u : τ} {m : μ}

/-- A task that holds a mutex holds the one in the cell. -/
theorem Agree.holder_eq (h : Agree s) (hcell : s.cell = some m) (ht : (s.phase t).Holds) :
    s.holder m = some t := by
  have hagrees := h t
  cases hphase : s.phase t with
  | out => rw [hphase] at ht; exact ht.elim
  | waiting m' => rw [hphase] at ht; exact ht.elim
  | inside m' =>
    rw [hphase] at hagrees
    obtain rfl : m = m' := Option.some.inj (hcell.symm.trans hagrees.1)
    exact hagrees.2
  | giving m' m'' =>
    rw [hphase] at hagrees
    obtain rfl : m = m' := Option.some.inj (hcell.symm.trans hagrees.2.1)
    exact hagrees.2.2

/-- No two tasks hold a mutex at the same time. -/
theorem Agree.exclusive (h : Agree s) (hcell : s.cell ≠ none) (ht : (s.phase t).Holds)
    (hu : (s.phase u).Holds) : t = u := by
  obtain ⟨m, hm⟩ := Option.ne_none_iff_exists'.mp hcell
  exact Option.some.inj ((h.holder_eq hm ht).symm.trans (h.holder_eq hm hu))

/-- A change of the holders that leaves the task's own mutex alone. -/
theorem Agrees.congr {p : Phase μ} (h : Agrees s t p) (hcell : s'.cell = s.cell)
    (hholder : ∀ m, s.cell = some m → p.Holds → s'.holder m = s.holder m) : Agrees s' t p := by
  cases p with
  | out => trivial
  | waiting m =>
    show s'.cell = some m
    rw [hcell]
    exact h
  | inside m =>
    refine ⟨hcell.trans h.1, ?_⟩
    rw [hholder m h.1 trivial]
    exact h.2
  | giving m m' =>
    refine ⟨h.1, hcell.trans h.2.1, ?_⟩
    rw [hholder m h.2.1 trivial]
    exact h.2.2

/-- With no task on its way, the cell may be assigned. -/
theorem Agree.of_out (h : ∀ t, s.phase t = .out) : Agree s := by
  intro t
  rw [h t]
  trivial

/-- A state in which no mutex is held satisfies `Held`. -/
theorem Held.of_free (h : ∀ m, s.holder m = none) : Held s := by
  intro m t hm
  rw [h m] at hm
  cases hm

/-! ## Steps -/

variable [DecidableEq τ] [DecidableEq μ]

/-- The task `t` moves to the phase `p`. -/
def State.move (s : State τ μ) (t : τ) (p : Phase μ) : State τ μ :=
  { s with phase := Function.update s.phase t p }

/-- A step of a task on its way through the lock, the creation of a mutex, or an
    assignment of the cell while no task is on its way. -/
inductive Step (s : State τ μ) : State τ μ → Prop where
  | read (t : τ) (m : μ) (hphase : s.phase t = .out) (hcell : s.cell = some m) :
    Step s (s.move t (.waiting m))
  | take (t : τ) (m : μ) (hphase : s.phase t = .waiting m) (hfree : s.holder m = none) :
    Step s { s.move t (.inside m) with holder := Function.update s.holder m (some t) }
  | reread (t : τ) (m m' : μ) (hphase : s.phase t = .inside m) (hcell : s.cell = some m') :
    Step s (s.move t (.giving m m'))
  | give (t : τ) (m m' : μ) (hphase : s.phase t = .giving m m') (hheld : s.holder m' = some t) :
    Step s { s.move t .out with holder := Function.update s.holder m' none }
  | leave (t : τ) (m m' : μ) (hphase : s.phase t = .giving m m') (hfree : s.holder m' = none) :
    Step s (s.move t .out)
  | create (m : μ) (hcell : s.cell ≠ some m) :
    Step s { s with holder := Function.update s.holder m none }
  | assign (m : μ) (hout : ∀ t, s.phase t = .out) : Step s { s with cell := some m }
  | stay : Step s s

omit [DecidableEq μ] in
/-- Only the moving task has to be looked at when the holders stay. -/
theorem Agree.move (h : Agree s) {p : Phase μ} (hp : Agrees s t p) : Agree (s.move t p) := by
  apply (Function.forall_update_iff s.phase fun u q => Agrees (s.move t p) u q).mpr
  exact ⟨hp.congr rfl fun _ _ _ => rfl, fun u _ => (h u).congr rfl fun _ _ _ => rfl⟩

/-- Every step of a task keeps the agreement. -/
theorem Agree.step (h : Agree s) (hstep : Step s s') : Agree s' := by
  cases hstep with
  | read t m _ hcell => exact h.move hcell
  | take t m hphase hfree =>
    have hagrees := h t
    rw [hphase] at hagrees
    -- the taker waited for the mutex in the cell
    have hcell : s.cell = some m := hagrees
    apply (Function.forall_update_iff s.phase fun u q => Agrees _ u q).mpr
    refine ⟨⟨hcell, Function.update_self ..⟩, fun u _ => ?_⟩
    apply (h u).congr
    · rfl
    · -- nobody else holds the mutex, since it was free
      intro m' hcell' hholds
      have hheld := h.holder_eq hcell' hholds
      have hne : m' ≠ m := by
        intro hm
        rw [hm, hfree] at hheld
        cases hheld
      exact Function.update_of_ne hne ..
  | reread t m m' hphase hcell =>
    -- the cell still names the mutex it took
    have hagrees := h t
    rw [hphase] at hagrees
    apply h.move
    exact ⟨Option.some.inj (hcell.symm.trans hagrees.1), hagrees⟩
  | give t m m' _ hheld =>
    apply (Function.forall_update_iff s.phase fun u q => Agrees _ u q).mpr
    refine ⟨trivial, fun u hu => ?_⟩
    apply (h u).congr
    · rfl
    · -- the mutex given was held by the giver, not by `u`
      intro m₁ hcell hholds
      have hheld' := h.holder_eq hcell hholds
      have hne : m₁ ≠ m' := by
        intro hm
        rw [hm, hheld] at hheld'
        exact hu (Option.some.inj hheld').symm
      exact Function.update_of_ne hne ..
  | leave t m m' _ _ => exact h.move trivial
  | create m hcell =>
    -- whoever holds the mutex in the cell does not hold the new one
    intro t
    apply (h t).congr
    · rfl
    · intro m' hcell' _
      have hne : m' ≠ m := fun hm => hcell (hm ▸ hcell')
      exact Function.update_of_ne hne ..
  | assign m hout => exact Agree.of_out hout
  | stay => exact h

omit [DecidableEq μ] in
/-- A move that keeps the mutex taken. -/
theorem Held.move (h : Held s) {p : Phase μ} (hp : p.taken = (s.phase t).taken) :
    Held (s.move t p) := by
  intro m u hm
  have hold := h m u hm
  show (Function.update s.phase t p u).taken = some m
  by_cases hu : u = t
  · subst hu
    rw [Function.update_self, hp]
    exact hold
  · rw [Function.update_of_ne hu]
    exact hold

omit [DecidableEq τ] in
/-- When a mutex is made free, those still held are others. -/
private theorem held_of_freed {m' : μ} (h : Function.update s.holder m none m' = some u) :
    m' ≠ m ∧ s.holder m' = some u := by
  by_cases hm : m' = m
  · rw [hm, Function.update_self] at h
    cases h
  · rw [Function.update_of_ne hm] at h
    exact ⟨hm, h⟩

/-- While the tasks agree, every step keeps the mutexes with those that took them. -/
theorem Held.step (h : Held s) (hagree : Agree s) (hstep : Step s s') : Held s' := by
  cases hstep with
  | read t m hphase hcell =>
    apply h.move
    rw [hphase]
    rfl
  | take t m hphase hfree =>
    intro m' u hm'
    replace hm' : Function.update s.holder m (some t) m' = some u := hm'
    show (Function.update s.phase t (.inside m) u).taken = some m'
    by_cases hm : m' = m
    · subst hm
      rw [Function.update_self] at hm'
      obtain rfl : t = u := Option.some.inj hm'
      rw [Function.update_self]
      rfl
    · -- the taker held no other mutex while it waited
      rw [Function.update_of_ne hm] at hm'
      have hold := h m' u hm'
      have hne : u ≠ t := by
        intro hu
        rw [hu, hphase] at hold
        cases hold
      rw [Function.update_of_ne hne]
      exact hold
  | reread t m m' hphase _ =>
    apply h.move
    rw [hphase]
    rfl
  | give t m m' _ hheld =>
    intro m₁ u hm₁
    obtain ⟨hne, hm₁⟩ := held_of_freed hm₁
    have hold := h m₁ u hm₁
    show (Function.update s.phase t .out u).taken = some m₁
    have hut : u ≠ t := by
      intro hu
      -- the giver took one mutex only, and gives that one
      have hgiven := h m' t hheld
      rw [hu] at hold
      exact hne (Option.some.inj (hold.symm.trans hgiven))
    rw [Function.update_of_ne hut]
    exact hold
  | leave t m m' hphase hfree =>
    -- it holds the mutex it is about to give
    have hagrees := hagree t
    rw [hphase] at hagrees
    obtain ⟨rfl, -, hheld⟩ := hagrees
    rw [hfree] at hheld
    cases hheld
  | create m _ =>
    intro m' u hm'
    exact h m' u (held_of_freed hm').2
  | assign m _ => exact h
  | stay => exact h

end LockCell
