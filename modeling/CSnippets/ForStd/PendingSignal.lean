import CSnippets.ForStd.Runs

/-!
# A queue behind a signal that merges

Each arrival at the queue raises a signal, of which one instance at most is pending:
an arrival that finds one pending raises none of its own. Each run of the handler
takes one item. `Surplus k s` says that the queue holds `k` items more than there are
signals and handlers to take them. A surplus is never made up for, so the queue is
empty in the end exactly when no arrival found a signal pending.
-/

namespace PendingSignal

/-- The queue as its signals see it. -/
@[ext] structure State where
  queued : Nat
  pending : Bool
  /-- runs of the handler that have still to take an item -/
  taking : Nat

/-- A step; `timely` says that an arrival finds no signal pending, and holds of all
    other steps. -/
inductive Step (timely : Prop) (s : State) : State → Prop where
  | arrive (ht : timely ↔ s.pending = false) :
    Step timely s { s with queued := s.queued + 1, pending := true }
  | deliver (ht : timely) (hp : s.pending = true) :
    Step timely s { s with pending := false, taking := s.taking + 1 }
  | take (ht : timely) (n : Nat) (hn : s.taking = n + 1) :
    Step timely s { s with queued := s.queued - 1, taking := n }
  | stay (ht : timely) : Step timely s s

/-- `k` items have neither a signal nor a handler to take them. -/
def Surplus (k : Nat) (s : State) : Prop :=
  s.queued = (if s.pending then 1 else 0) + s.taking + k

/-- The surplus stays zero exactly as long as the arrivals are timely. -/
theorem Surplus.step {k : Nat} {timely : Prop} {s s' : State} (h : Surplus k s)
    (hstep : Step timely s s') : ∃ k', Surplus k' s' ∧ (k' = 0 ↔ k = 0 ∧ timely) := by
  unfold Surplus at h
  cases hstep with
  | arrive ht =>
    cases hp : s.pending with
    | false =>
      -- the new item has its signal
      rw [hp] at h ht
      refine ⟨k, ?_, by simp [ht]⟩
      simp only [Surplus, if_true]
      simp only [Bool.false_eq_true, if_false] at h
      omega
    | true =>
      rw [hp] at h ht
      refine ⟨k + 1, ?_, by simp [ht]⟩
      simp only [Surplus, if_true]
      simp only [if_true] at h
      omega
  | deliver ht hp =>
    refine ⟨k, ?_, by simp [ht]⟩
    rw [hp] at h
    simp only [if_true] at h
    simp only [Surplus, Bool.false_eq_true, if_false]
    omega
  | take ht n hn =>
    refine ⟨k, ?_, by simp [ht]⟩
    simp only [Surplus]
    omega
  | stay ht => exact ⟨k, h, by simp [ht]⟩

/-! ## Systems with such a queue -/

variable {σ ε : Type*} {step : σ → ε → Option σ} {view : σ → State} {timely : σ → ε → Prop}
  {s s' : σ} {es : List ε}

/-- Over a run the surplus stays zero exactly when all arrivals are timely. -/
theorem surplus_run
    (hview : ∀ s e s', step s e = some s' → Step (timely s e) (view s) (view s'))
    {k : Nat} (hs : Surplus k (view s)) (hrun : es.foldlM step s = some s') :
    ∃ k', Surplus k' (view s') ∧ (k' = 0 ↔ k = 0 ∧ Runs.StepsMeet step timely s es) := by
  apply Runs.count_run (R := fun k s => Surplus k (view s)) _ hs hrun
  intro k s e s' hs hstep
  exact hs.step (hview s e s' hstep)

/-- With no signal pending and no handler to take an item, the queue is empty exactly
    when all arrivals were timely. -/
theorem empty_iff
    (hview : ∀ s e s', step s e = some s' → Step (timely s e) (view s) (view s'))
    (hs : Surplus 0 (view s)) (hrun : es.foldlM step s = some s')
    (hpending : (view s').pending = false) (htaking : (view s').taking = 0) :
    (view s').queued = 0 ↔ Runs.StepsMeet step timely s es := by
  obtain ⟨k, hk, hiff⟩ := surplus_run hview hs hrun
  unfold Surplus at hk
  rw [hpending, htaking] at hk
  simp only [Bool.false_eq_true, if_false, Nat.zero_add] at hk
  rw [hk, hiff]
  simp

/-- As long as the arrivals are timely there is no surplus. -/
theorem always_of_timely
    (hview : ∀ s e s', step s e = some s' → Step (timely s e) (view s) (view s'))
    {P : σ → Prop} (hP : ∀ s, Surplus 0 (view s) → P s) (hs : Surplus 0 (view s))
    (htimely : Runs.StepsMeet step timely s es) : Runs.Always step P s es := by
  apply Runs.Always.of_invariant (J := fun s => Surplus 0 (view s)) hP _ hs htimely
  intro s e s' hJ hC hstep
  obtain ⟨k, hk, hiff⟩ := hJ.step (hview s e s' hstep)
  obtain rfl : k = 0 := hiff.mpr ⟨rfl, hC⟩
  exact hk

end PendingSignal
