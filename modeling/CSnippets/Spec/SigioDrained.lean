import CSnippets.ForStd.PendingSignal
import CSnippets.Native.Sigio

/-!
# Is anything left in the queue?

`action_handler` of `async_TCP` accepts one connection and `serial_handler` reads one
byte. What arrives while a `SIGIO` is pending raises no `SIGIO` of its own, and then
nobody takes it: the handlers do not go on until the queue is empty, as that of
`async_TCP_multithread` does.
-/

namespace Sigio

variable {α κ ι : Type}

/-- The process as a queue with a signal; `takes` says at which places the handler has
    still to take from the queue. -/
def view (takes : κ → Bool) (s : Process α κ) : PendingSignal.State :=
  { queued := s.queue.length, pending := s.pending,
    taking := if s.handler.any takes then 1 else 0 }

/-- An arrival finds no `SIGIO` pending. -/
def Timely (s : Process α κ) : Event α ι → Prop
  | .arrive _ => s.pending = false
  | .deliver => True
  | .handle _ => True

/-- When no `SIGIO` is pending and no handler runs, the queue is empty. -/
def NoneStranded (s : Process α κ) : Prop :=
  s.pending = false → s.handler = none → s.queue = []

/-- Nothing has arrived. -/
structure Idle (s : Process α κ) : Prop where
  queue : s.queue = []
  pending : s.pending = false
  handler : s.handler = none

/-- A step of a handler: it takes at most one item, once, and does not touch the
    signal. -/
structure TakesOne (takes : κ → Bool) (s s' : Process α κ) : Prop where
  pending : s'.pending = s.pending
  step : (s.handler.any takes = true ∧ s'.handler.any takes = false ∧
      s'.queue = s.queue.tail) ∨
    (s.handler.any takes = s'.handler.any takes ∧ s'.queue = s.queue)

/-- Every step of the process is one of a queue with a pending signal. -/
theorem step_view {takes : κ → Bool} {start : κ} {handler : Process α κ → ι → Option (Process α κ)}
    (hstart : takes start = true)
    (htakes : ∀ s i s', handler s i = some s' → TakesOne takes s s')
    (s : Process α κ) (e : Event α ι) (s' : Process α κ) (hstep : step start handler s e = some s') :
    PendingSignal.Step (Timely s e) (view takes s) (view takes s') := by
  -- seen from the signal an arrival, a delivery and the taking of the item are the only steps
  cases e with
  | arrive x =>
    cases hstep
    have hview : view takes (s.arrive x) =
        { view takes s with queued := s.queue.length + 1, pending := true } :=
      PendingSignal.State.ext (by simp [view, Process.arrive]) rfl rfl
    rw [hview]
    exact .arrive Iff.rfl
  | deliver =>
    have hdeliver : s.deliver start = some s' := hstep
    unfold Process.deliver at hdeliver
    split at hdeliver
    · rename_i hnone
      split at hdeliver
      · rename_i hpending
        cases hdeliver
        have hview : view takes { s with pending := false, handler := some start } =
            { view takes s with pending := false, taking := (view takes s).taking + 1 } := by
          simp [view, hnone, hstart]
        rw [hview]
        exact .deliver trivial hpending
      · cases hdeliver
    · cases hdeliver
  | handle i =>
    -- the handler takes its one item, or does something else
    obtain ⟨hpending, ⟨hbefore, hafter, hqueue⟩ | ⟨hsame, hqueue⟩⟩ := htakes s i s' hstep
    · have hview : view takes s' =
          { view takes s with queued := (view takes s).queued - 1, taking := 0 } := by
        simp [view, hpending, hafter, hqueue]
      rw [hview]
      exact .take trivial 0 (by simp [view, hbefore])
    · have hview : view takes s' = view takes s := by
        simp [view, hpending, hsame, hqueue]
      rw [hview]
      exact .stay trivial

/-- A program whose handler takes one item leaves nothing behind as long as no arrival
    finds a `SIGIO` pending. At rest, its queue is empty only then. -/
theorem noneStranded_of_takesOne {takes : κ → Bool} {start : κ}
    {handler : Process α κ → ι → Option (Process α κ)} (hstart : takes start = true)
    (htakes : ∀ s i s', handler s i = some s' → TakesOne takes s s') {s : Process α κ}
    (hidle : Idle s) (es : List (Event α ι)) :
    (Runs.StepsMeet (step start handler) Timely s es →
      Runs.Always (step start handler) NoneStranded s es) ∧
    ∀ s', es.foldlM (step start handler) s = some s' → s'.pending = false → s'.handler = none →
      (s'.queue = [] ↔ Runs.StepsMeet (step start handler) Timely s es) := by
  -- the queue seen as a count: the pending-signal library does the rest
  have hview := step_view hstart htakes
  have hsurplus : PendingSignal.Surplus 0 (view takes s) := by
    simp [PendingSignal.Surplus, view, hidle.queue, hidle.pending, hidle.handler]
  constructor
  · apply PendingSignal.always_of_timely hview _ hsurplus
    intro s hs hpending hhandler
    simpa [PendingSignal.Surplus, view, hpending, hhandler] using hs
  · intro s' hrun hpending hhandler
    have hempty := PendingSignal.empty_iff hview hsurplus hrun hpending (by simp [view, hhandler])
    rw [← hempty]
    exact List.length_eq_zero_iff.symm

end Sigio

/-! ## The two programs -/

/-- `action_handler` has not accepted its connection yet. -/
def AsyncTcp.Pc.takes : Pc → Bool
  | .accept => true
  | .recv _ => false
  | .close _ => false

/-- `action_handler` accepts at most one connection. -/
theorem AsyncTcp.actionHandler_takesOne (s : Sigio.Process Nat Pc) (readSize : Int)
    (s' : Sigio.Process Nat Pc) (h : actionHandler s readSize = some s') :
    Sigio.TakesOne Pc.takes s s' := by
  unfold actionHandler at h
  split at h
  · cases h
  · rename_i hpc
    split at h
    · rename_i hqueue
      cases h
      exact ⟨rfl, Or.inl ⟨by rw [hpc]; rfl, rfl, by simp [hqueue]⟩⟩
    · rename_i client queue hqueue
      cases h
      exact ⟨rfl, Or.inl ⟨by rw [hpc]; rfl, rfl, by simp [hqueue]⟩⟩
  · rename_i client hpc
    split at h
    · cases h
      exact ⟨rfl, Or.inr ⟨rfl, rfl⟩⟩
    · cases h
      exact ⟨rfl, Or.inr ⟨by rw [hpc]; rfl, rfl⟩⟩
  · rename_i client hpc
    cases h
    exact ⟨rfl, Or.inr ⟨by rw [hpc]; rfl, rfl⟩⟩

/-- `serial_handler` has not read its byte yet. -/
def TtySerial.Pc.takes : Pc → Bool
  | .read => true
  | .print _ => false

/-- `serial_handler` reads at most one byte. -/
theorem TtySerial.serialHandler_takesOne (s : Sigio.Process UInt8 Pc) (i : Unit)
    (s' : Sigio.Process UInt8 Pc) (h : serialHandler s i = some s') :
    Sigio.TakesOne Pc.takes s s' := by
  unfold serialHandler at h
  split at h
  · cases h
  · rename_i hpc
    split at h
    · rename_i hqueue
      cases h
      exact ⟨rfl, Or.inl ⟨by rw [hpc]; rfl, rfl, by simp [hqueue]⟩⟩
    · rename_i recv queue hqueue
      cases h
      exact ⟨rfl, Or.inl ⟨by rw [hpc]; rfl, rfl, by simp [hqueue]⟩⟩
  · rename_i recv hpc
    cases h
    exact ⟨rfl, Or.inr ⟨by rw [hpc]; rfl, rfl⟩⟩

namespace Sigio

/-- A process before its first arrival. -/
def idle (α κ : Type) : Process α κ :=
  { queue := [], pending := false, handler := none, taken := [] }

/-- The process before its first arrival is idle. -/
theorem idle_idle (α κ : Type) : Idle (idle α κ) := ⟨rfl, rfl, rfl⟩

instance (s : Process α κ) : ∀ e : Event α ι, Decidable (Timely s e)
  | .arrive _ => inferInstanceAs (Decidable (s.pending = false))
  | .deliver => inferInstanceAs (Decidable True)
  | .handle _ => inferInstanceAs (Decidable True)

end Sigio
