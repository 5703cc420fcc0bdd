import Mathlib.Logic.Function.Basic

/-!
# A mutex with a condition variable

Threads share a mutex and wait on a condition variable with it. A wait releases the
mutex and blocks; a thread that is woken takes the mutex again before the wait returns.
A broadcast wakes all threads that are blocked, and any of them may also be woken for no
reason.

`Owned` is the invariant of the mutex: exactly its holder is inside. It is kept by every
step, and with it a thread on its way through the mutex never leaves all others stuck
(`Owned.exists_ready`).
-/

namespace Monitor

variable {τ : Type*}

/-- Where a thread is with respect to the mutex. -/
inductive Phase where
  | outside
  /-- It waits for the mutex. -/
  | entering
  | inside
  /-- It waits on the condition variable. -/
  | blocked
  /-- It has been woken and waits for the mutex. -/
  | woken
deriving Repr, DecidableEq

/-- What a broadcast does to a thread. -/
def Phase.wake : Phase → Phase
  | .blocked => .woken
  | p => p

/-- Who has the mutex, and where each thread is. -/
structure State (τ : Type*) where
  mutex : Option τ
  phase : τ → Phase

/-- Exactly the holder of the mutex is inside. -/
def Owned (s : State τ) : Prop := ∀ t, s.mutex = some t ↔ s.phase t = .inside

/-- The thread is inside, or it waits for the mutex, which is free. -/
def Ready (s : State τ) (t : τ) : Prop :=
  s.phase t = .inside ∨ s.mutex = none ∧ (s.phase t = .entering ∨ s.phase t = .woken)

variable {s s' : State τ} {t u : τ}

/-- No two threads are inside the monitor at once. -/
theorem Owned.unique (h : Owned s) (ht : s.phase t = .inside) (hu : s.phase u = .inside) :
    t = u :=
  Option.some.inj (((h t).mpr ht).symm.trans ((h u).mpr hu))

/-- If a thread waits for the mutex, that thread or the holder can go on. -/
theorem Owned.exists_ready (h : Owned s)
    (ht : s.phase t = .inside ∨ s.phase t = .entering ∨ s.phase t = .woken) :
    ∃ u, Ready s u := by
  cases hmutex : s.mutex with
  | none => exact ⟨t, ht.imp_right fun ht => ⟨hmutex, ht⟩⟩
  | some u => exact ⟨u, Or.inl ((h u).mp hmutex)⟩

/-! ## Steps -/

variable [DecidableEq τ]

/-- The thread `t` moves to the phase `p`. -/
def State.move (s : State τ) (t : τ) (p : Phase) : State τ :=
  { s with phase := Function.update s.phase t p }

/-- What a thread can do with the mutex and the condition variable. -/
inductive Step (s : State τ) : State τ → Prop where
  /-- A step inside, or one that does not concern the mutex. -/
  | stay : Step s s
  /-- A thread comes, or is woken from its wait. -/
  | arrive (t : τ) (p : Phase) (ht : s.phase t ≠ .inside) (hp : p ≠ .inside) :
    Step s (s.move t p)
  | acquire (t : τ) (hfree : s.mutex = none) :
    Step s { s.move t .inside with mutex := some t }
  /-- An unlock or the beginning of a wait. -/
  | release (t : τ) (p : Phase) (hheld : s.mutex = some t) (hp : p ≠ .inside) :
    Step s { s.move t p with mutex := none }
  | broadcast : Step s { s with phase := fun t => (s.phase t).wake }

/-- Entering, leaving, waiting and waking all keep the owner the only thread inside. -/
theorem Owned.step (h : Owned s) (hstep : Step s s') : Owned s' := by
  cases hstep with
  | stay => exact h
  | arrive t p ht hp =>
    intro u
    show s.mutex = some u ↔ Function.update s.phase t p u = .inside
    by_cases hu : u = t
    · subst hu
      rw [Function.update_self, h u]
      exact iff_of_false ht hp
    · rw [Function.update_of_ne hu]
      exact h u
  | acquire t hfree =>
    intro u
    show some t = some u ↔ Function.update s.phase t .inside u = .inside
    by_cases hu : u = t
    · subst hu
      rw [Function.update_self]
      exact iff_of_true rfl rfl
    · -- nobody was inside while the mutex was free
      rw [Function.update_of_ne hu, ← h u, hfree]
      exact iff_of_false (fun heq => hu (Option.some.inj heq).symm) nofun
  | release t p hheld hp =>
    intro u
    show none = some u ↔ Function.update s.phase t p u = .inside
    by_cases hu : u = t
    · subst hu
      rw [Function.update_self]
      exact iff_of_false nofun hp
    · rw [Function.update_of_ne hu, ← h u, hheld]
      exact iff_of_false nofun fun heq => hu (Option.some.inj heq).symm
  | broadcast =>
    intro u
    show s.mutex = some u ↔ (s.phase u).wake = .inside
    rw [h u]
    cases s.phase u <;> decide

end Monitor
