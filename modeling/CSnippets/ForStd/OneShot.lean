import Mathlib.Tactic.Common

/-!
# A queue with a one-shot notification

An arrival at an empty queue uses up the registration and produces one
notification, whose handler takes one message and registers again. All other
arrivals produce none. `Surplus k s` says that the queue holds `k` messages more
than there are notifications still to be handled: a surplus is never made up for,
so the queue is found empty in the end exactly when every arrival found the
registration in place.
-/

namespace OneShot

/-- The queue as its notifications see it. -/
@[ext] structure State where
  length : Nat
  armed : Bool
  /-- notifications whose handler has not taken its message yet -/
  waiting : Nat
  /-- notifications whose handler has not registered again yet -/
  unarmed : Nat

/-- A step; `timely` says whether an arrival found the registration in place and
    its notification was not lost, and holds of all other steps. -/
inductive Step (timely : Prop) (s : State) : State → Prop where
  | notified (ht : timely) (harmed : s.armed = true) (hempty : s.length = 0) :
    Step timely s { length := s.length + 1, armed := false, waiting := s.waiting + 1,
                    unarmed := s.unarmed + 1 }
  | lost (ht : ¬ timely) : Step timely s { s with length := s.length + 1, armed := false }
  | silent (ht : timely → s.armed = true ∧ 0 < s.length) :
    Step timely s { s with length := s.length + 1 }
  | receive (ht : timely) (w : Nat) (hw : s.waiting = w + 1) :
    Step timely s { s with waiting := w, length := s.length - 1 }
  | rearm (ht : timely) (u : Nat) (hu : s.unarmed = u + 1) (hw : s.waiting ≤ u) :
    Step timely s { s with unarmed := u, armed := true }
  | stay (ht : timely) : Step timely s s

/-- The registration is in place, or at most one handler is to put it back; `k`
    messages have no notification. -/
structure Surplus (k : Nat) (s : State) : Prop where
  armed : s.armed = true → s.unarmed = 0
  unarmed : s.unarmed ≤ 1
  waiting : s.waiting ≤ s.unarmed
  length : s.length = s.waiting + k

/-- The surplus stays zero exactly as long as the arrivals are timely. -/
theorem Surplus.step {k : Nat} {timely : Prop} {s s' : State} (h : Surplus k s)
    (hstep : Step timely s s') : ∃ k', Surplus k' s' ∧ (k' = 0 ↔ k = 0 ∧ timely) := by
  obtain ⟨harmed, hunarmed, hwaiting, hlength⟩ := h
  cases hstep with
  | notified ht ha he =>
    -- the new message has the notification to take it
    have hu := harmed ha
    exact ⟨k, ⟨by simp, by simp only; omega, by simp only; omega, by simp only; omega⟩,
      by simp [ht]⟩
  | lost ht =>
    -- one more message, and nobody to take it
    exact ⟨k + 1, ⟨by simp, hunarmed, hwaiting, by simp only; omega⟩, by simp [ht]⟩
  | silent ht =>
    refine ⟨k + 1, ⟨harmed, hunarmed, hwaiting, by simp only; omega⟩, ?_⟩
    constructor
    · intro hk
      omega
    · intro hk
      -- armed with a message in the queue, it had a surplus before
      obtain ⟨ha, hpos⟩ := ht hk.2
      have hu := harmed ha
      omega
  | receive ht w hw =>
    exact ⟨k, ⟨harmed, hunarmed, by simp only; omega, by simp only; omega⟩, by simp [ht]⟩
  | rearm ht u hu hw =>
    exact ⟨k, ⟨fun _ => by simp only; omega, by simp only; omega, hw, hlength⟩, by simp [ht]⟩
  | stay ht => exact ⟨k, ⟨harmed, hunarmed, hwaiting, hlength⟩, by simp [ht]⟩

end OneShot
