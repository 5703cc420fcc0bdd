import Mathlib.Data.Nat.Init

/-!
# Fair schedules

A system is given by `step : σ → ε → Option σ` as for `Runs`. A schedule gives the turns
to the events (the processes), for ever; an event that is blocked leaves the state as it
is. In a fair schedule every event has its turn again and again.

If every step lowers a measure, and some event is not blocked until the system is done,
then it is done at some time under every fair schedule.
-/

namespace FairSchedule

variable {σ ε : Type*} (step : σ → ε → Option σ) (sched : Nat → ε)

/-- The state after `n` turns. -/
def exec (s : σ) : Nat → σ
  | 0 => s
  | n + 1 => (step (exec s n) (sched n)).getD (exec s n)

/-- Every event has its turn again and again. -/
def Fair : Prop := ∀ e n, ∃ m, n ≤ m ∧ sched m = e

variable {step sched} {s : σ} {n : Nat}

/-- A scheduled party that can step does. -/
theorem exec_succ_of_some {s' : σ} (h : step (exec step sched s n) (sched n) = some s') :
    exec step sched s (n + 1) = s' := by
  rw [exec, h, Option.getD_some]

/-- A scheduled party that cannot step leaves the state as it is. -/
theorem exec_succ_of_none (h : step (exec step sched s n) (sched n) = none) :
    exec step sched s (n + 1) = exec step sched s n := by
  rw [exec, h, Option.getD_none]

/-- What every step keeps holds from then on. -/
theorem exec_keeps {J : σ → Prop} (hJ : ∀ s e s', J s → step s e = some s' → J s') {m : Nat}
    (h : J (exec step sched s n)) (hle : n ≤ m) : J (exec step sched s m) := by
  induction hle with
  | refl => exact h
  | step _ ih =>
    rename_i m _
    cases hstep : step (exec step sched s m) (sched m) with
    | none =>
      rw [exec_succ_of_none hstep]
      exact ih
    | some s' =>
      rw [exec_succ_of_some hstep]
      exact hJ _ _ _ ih hstep

section

variable {J : σ → Prop} {measure : σ → Nat}
  (hJ : ∀ s e s', J s → step s e = some s' → J s' ∧ measure s' < measure s)

include hJ

/-- Until the turn of an event that is not blocked some step is made. -/
theorem exists_lower (d : Nat) (h : J (exec step sched s n))
    (hturn : (step (exec step sched s n) (sched (n + d))).isSome) :
    ∃ m, J (exec step sched s m) ∧
      measure (exec step sched s m) < measure (exec step sched s n) := by
  induction d generalizing n with
  | zero =>
    obtain ⟨s', hs'⟩ := Option.isSome_iff_exists.mp hturn
    refine ⟨n + 1, ?_⟩
    rw [exec_succ_of_some hs']
    exact hJ _ _ _ h hs'
  | succ d ih =>
    cases hstep : step (exec step sched s n) (sched n) with
    | some s' =>
      refine ⟨n + 1, ?_⟩
      rw [exec_succ_of_some hstep]
      exact hJ _ _ _ h hstep
    | none =>
      -- nothing has happened, and the turn is one nearer
      have hsame := exec_succ_of_none hstep
      have hnext := ih (n := n + 1)
      rw [hsame, Nat.add_right_comm] at hnext
      exact hnext h hturn

/-- The rule for completion. -/
theorem Fair.eventually {done : σ → Prop} (hfair : Fair sched)
    (hlive : ∀ s, J s → ¬ done s → ∃ e, (step s e).isSome) (h : J s) :
    ∃ n, done (exec step sched s n) := by
  suffices ∀ k n, measure (exec step sched s n) = k → J (exec step sched s n) →
      ∃ m, done (exec step sched s m) from this _ 0 rfl h
  intro k
  induction k using Nat.strongRecOn with
  | ind k ih =>
    intro n hk hn
    by_cases hdone : done (exec step sched s n)
    · exact ⟨n, hdone⟩
    · obtain ⟨e, he⟩ := hlive _ hn hdone
      obtain ⟨m, hle, hm⟩ := hfair e n
      obtain ⟨d, rfl⟩ := Nat.exists_eq_add_of_le hle
      rw [← hm] at he
      obtain ⟨m', hm', hlower⟩ := exists_lower hJ d hn he
      exact ih _ (hk ▸ hlower) m' rfl hm'

end

end FairSchedule
