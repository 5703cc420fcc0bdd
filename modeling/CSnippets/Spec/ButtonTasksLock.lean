import CSnippets.ForStd.LockCell
import CSnippets.ForStd.Runs
import CSnippets.Native.ButtonTasks

/-!
# Mutual exclusion of the button tasks

The tasks are seen as tasks on their way through the lock in the cell `bt.lock`;
every step of theirs is a step there, except that `buttonInit` assigns the cell.
`main` calls `buttonInit` once, but the task it creates calls it again, and so
does the task created then: `bt.lock` is replaced under tasks that hold the old
mutex. Mutual exclusion holds as long as each of these assignments finds no task
on its way through the lock. A call that found no lock takes none; it is not on
its way, wherever it is.
-/

namespace Buttons.Tasks

open LockCell (Phase)

variable {debounceDelay : UInt32} {s s' : State} {t u : TaskId} {ch : Choice}

/-! ## The tasks on their way through the lock -/

/-- Where the task is on its way through the lock. -/
def Pc.phase : Pc → Phase MutexId
  | .take _ m => .waiting m
  | .body (some m) _ => .inside m
  | .exitTest (some m) => .inside m
  | .readGive (some m) _ => .inside m
  | .give (some m) m' _ => .giving m m'
  | _ => .out

/-- Between `xSemaphoreTake(bt.lock)` and `xSemaphoreGive(bt.lock)`. -/
def Inside (s : State) (t : TaskId) : Prop := (s.tasks t).phase.Holds

/-- The tasks and the lock, without the list. -/
def State.toLock (s : State) : LockCell.State TaskId MutexId :=
  { cell := s.lock, holder := s.holder, phase := fun t => (s.tasks t).phase }

/-- A move of one task, with new holders. -/
theorem toLock_goto (s : State) (t : TaskId) (pc : Pc) (holder : MutexId → Option TaskId) :
    ({ s.goto t pc with holder := holder } : State).toLock =
      { s.toLock.move t pc.phase with holder := holder } := by
  have hphase : (fun u => (Function.update s.tasks t pc u).phase) =
      Function.update (fun u => (s.tasks u).phase) t pc.phase :=
    Function.comp_update Pc.phase s.tasks t pc
  exact congrArg (LockCell.State.mk s.lock holder) hphase

/-- A move that keeps the phase of the task is no step of the lock. -/
theorem toLock_goto_of_phase_eq (s : State) (t : TaskId) (pc : Pc)
    (h : pc.phase = (s.tasks t).phase) :
    (s.goto t pc).toLock = s.toLock := by
  have hphase := toLock_goto s t pc s.holder
  rw [h] at hphase
  exact hphase.trans (congrArg (LockCell.State.mk s.lock s.holder) (Function.update_eq_self t _))

/-! ## There is always a mutex to take -/

/-- What is about to be assigned to `bt.lock` has been created. -/
def Pc.Fine (mutexCount : MutexId) : Pc → Prop
  | .initAssign m => m < mutexCount
  | _ => True

/-- `bt.lock` names a mutex that has been created, and it will always do so. -/
structure Locked (s : State) : Prop where
  lock : ∃ m, s.lock = some m ∧ m < s.mutexCount
  fine : ∀ t, (s.tasks t).Fine s.mutexCount

/-- A task that moves keeps the mutex there. -/
theorem Locked.goto (h : Locked s) (t : TaskId) (pc : Pc) (hpc : pc.Fine s.mutexCount) :
    Locked (s.goto t pc) := by
  refine ⟨h.lock, ?_⟩
  apply (Function.forall_update_iff s.tasks fun _ p => p.Fine s.mutexCount).mpr
  exact ⟨hpc, fun u _ => h.fine u⟩

/-- `Locked` does not look at the list and the holders. -/
theorem Locked.congr (h : Locked s) (hlock : s'.lock = s.lock) (htasks : s'.tasks = s.tasks)
    (hcount : s'.mutexCount = s.mutexCount) : Locked s' := by
  refine ⟨?_, fun t => ?_⟩
  · rw [hlock, hcount]
    exact h.lock
  · rw [htasks, hcount]
    exact h.fine t

/-- More mutexes do no harm. -/
theorem Pc.Fine.mono {pc : Pc} {n n' : MutexId} (h : pc.Fine n) (hle : n ≤ n') : pc.Fine n' := by
  cases pc with
  | initAssign m => exact Nat.lt_of_lt_of_le h hle
  | _ => trivial

/-! ## Every step is a step of the lock -/

/-- `bt.lock` is assigned only while no task is on its way through the lock. -/
def Quiet (s : State) : Event → Prop
  | .call _ _ => True
  | .run t _ => ∀ m, s.tasks t = .initAssign m → ∀ u, (s.tasks u).phase = .out

/-- A task that has taken no mutex does not hold the one it gives. -/
def Owns (s : State) : Prop := ∀ t m k, s.tasks t = .give none m k → s.holder m ≠ some t

/-- The lock takes a step, and there is still a mutex to take. -/
def LockStep (s s' : State) : Prop := LockCell.Step s.toLock s'.toLock ∧ Locked s'

/-- A move inside one phase is no step of the lock. -/
theorem Locked.stay (h : Locked s) (t : TaskId) (pc : Pc) (hphase : pc.phase = (s.tasks t).phase)
    (hpc : pc.Fine s.mutexCount) (bt : Bt) : LockStep s { s.goto t pc with bt := bt } := by
  refine ⟨?_, (h.goto t pc hpc).congr rfl rfl rfl⟩
  show LockCell.Step s.toLock (s.goto t pc).toLock
  rw [toLock_goto_of_phase_eq s t pc hphase]
  exact .stay

/-- A stop is no step of the lock. -/
theorem Locked.stop (h : Locked s) (why : Stop) : LockStep s (s.stop why) :=
  ⟨.stay, h.lock, h.fine⟩

/-- A call starts outside the lock. -/
theorem entry_phase (c : Call) : c.entry.phase = .out := by
  cases c with
  | search c => cases c <;> rfl
  | getPresses => rfl

/-- A call starts with nothing to assign to `bt.lock`. -/
theorem entry_fine (c : Call) (n : MutexId) : c.entry.Fine n := by
  cases c with
  | search c => cases c <;> trivial
  | getPresses => trivial

/-- A step between take and give. -/
private theorem body_lockStep (h : Locked s) {taken : Option MutexId} {b : Body}
    (hpc : s.tasks t = .body taken b) (hstep : runTask debounceDelay s t ch = some s') :
    LockStep s s' := by
  -- the mutex taken, if any, stays the same until the give
  have hnext : ∀ b', (Pc.body taken b').phase = (s.tasks t).phase := by
    intro b'
    rw [hpc]
    cases taken <;> rfl
  have htest : (Pc.exitTest taken).phase = (s.tasks t).phase := by
    rw [hpc]
    cases taken <;> rfl
  have hread : ∀ k, (Pc.readGive taken k).phase = (s.tasks t).phase := by
    intro k
    rw [hpc]
    cases taken <;> rfl
  simp only [runTask, hpc] at hstep
  cases hrun : runBody debounceDelay s.bt ch b with
  | none => rw [hrun] at hstep; cases hstep
  | some o =>
    rw [hrun] at hstep
    cases o with
    | next bt b' =>
      cases hstep
      exact h.stay t (.body taken b') (hnext b') trivial bt
    | leave bt k =>
      -- `buttonAdd` and `buttonDelete` test `bt.lock` once more before the give
      by_cases hk : k = .done
      · subst hk
        cases hstep
        exact h.stay t (.exitTest taken) htest trivial bt
      · have hleave : s' = { s.goto t (.readGive taken k) with bt := bt } := by
          cases k <;> first | exact absurd rfl hk | exact (Option.some.inj hstep).symm
        rw [hleave]
        exact h.stay t (.readGive taken k) (hread k) trivial bt
    | stop why =>
      cases hstep
      exact h.stop why

/-- The steps of `buttonInit`. -/
private theorem init_lockStep (h : Locked s) (hq : Quiet s (.run t ch))
    (hpc : s.tasks t = .initCreate ∨ (∃ m, s.tasks t = .initAssign m) ∨ s.tasks t = .initSpawn)
    (hstep : runTask debounceDelay s t ch = some s') : LockStep s s' := by
  obtain ⟨m₀, hlock, hm₀⟩ := h.lock
  rcases hpc with hpc | ⟨m, hpc⟩ | hpc
  · -- a new mutex, which is not the one in `bt.lock`
    simp only [runTask, hpc, Option.some.injEq] at hstep
    subst hstep
    have hne : s.toLock.cell ≠ some s.mutexCount := by
      show s.lock ≠ some s.mutexCount
      rw [hlock]
      intro hm
      obtain rfl := Option.some.inj hm
      exact Nat.lt_irrefl _ hm₀
    refine ⟨?_, ⟨m₀, hlock, Nat.lt_succ_of_lt hm₀⟩, ?_⟩
    · have hcreate := LockCell.Step.create s.mutexCount hne
      have hstay := toLock_goto_of_phase_eq s t (.initAssign s.mutexCount)
        (by rw [hpc]; rfl)
      rw [← hstay] at hcreate ⊢
      exact hcreate
    · apply (Function.forall_update_iff s.tasks fun _ p => p.Fine (s.mutexCount + 1)).mpr
      exact ⟨Nat.lt_succ_self _, fun u _ => (h.fine u).mono (Nat.le_succ _)⟩
  · -- the assignment, with nobody on the way
    simp only [runTask, hpc, Option.some.injEq] at hstep
    subst hstep
    have hm : m < s.mutexCount := by
      have hfine := h.fine t
      rw [hpc] at hfine
      exact hfine
    refine ⟨?_, ⟨m, rfl, hm⟩, (h.goto t .initSpawn trivial).fine⟩
    have hassign := LockCell.Step.assign (s := s.toLock) m (hq m hpc)
    have hstay := toLock_goto_of_phase_eq s t .initSpawn (by rw [hpc]; rfl)
    have hcell : ({ s.goto t .initSpawn with lock := some m } : State).toLock =
        { s.toLock with cell := some m } := by
      rw [← hstay]
      rfl
    rw [hcell]
    exact hassign
  · simp only [runTask, hpc] at hstep
    split at hstep
    · cases hstep
      exact h.stop _
    · next u _ =>
      split at hstep
      · next habsent =>
        cases hstep
        -- neither task is on its way
        have hu : (s.goto t .spinning).tasks u = .absent := by
          have hne : u ≠ t := by
            intro hut
            rw [hut, hpc] at habsent
            cases habsent
          show Function.update s.tasks t .spinning u = _
          rw [Function.update_of_ne hne]
          exact habsent
        have hfirst := toLock_goto_of_phase_eq s t .spinning (by rw [hpc]; rfl)
        have hsecond := toLock_goto_of_phase_eq (s.goto t .spinning) u .initCreate
          (by rw [hu]; rfl)
        refine ⟨?_, (h.goto t .spinning trivial).goto u .initCreate trivial⟩
        rw [hsecond, hfirst]
        exact .stay
      · cases hstep

/-- Taking a free mutex, and giving one. -/
private theorem take_give_lockStep (h : Locked s) (howns : Owns s)
    (hpc : (∃ c m, s.tasks t = .take c m) ∨ ∃ taken m k, s.tasks t = .give taken m k)
    (hstep : runTask debounceDelay s t ch = some s') : LockStep s s' := by
  rcases hpc with ⟨c, m, hpc⟩ | ⟨taken, m, k, hpc⟩
  · have hphase : s.toLock.phase t = .waiting m := by
      show (s.tasks t).phase = _
      rw [hpc]
      rfl
    simp only [runTask, hpc] at hstep
    split at hstep
    · next hfree =>
      cases hstep
      refine ⟨?_, (h.goto t (.body (some m) c.start) trivial).congr rfl rfl rfl⟩
      rw [toLock_goto]
      exact .take t m hphase hfree
    · cases hstep
  · have hafter := h.goto t (.after k) trivial
    simp only [runTask, hpc] at hstep
    cases taken with
    | none =>
      have hphase : (s.tasks t).phase = .out := by
        rw [hpc]
        rfl
      split at hstep
      · next hheld => exact absurd hheld (howns t m k hpc)
      · split at hstep
        · cases hstep
          exact h.stay t (.after k) hphase.symm trivial s.bt
        · cases hstep
          exact h.stop _
    | some m₁ =>
      have hphase : s.toLock.phase t = .giving m₁ m := by
        show (s.tasks t).phase = _
        rw [hpc]
        rfl
      split at hstep
      · next hheld =>
        cases hstep
        refine ⟨?_, hafter.congr rfl rfl rfl⟩
        rw [toLock_goto]
        exact .give t m₁ m hphase hheld
      · split at hstep
        · -- giving a free mutex has no effect
          next hfree =>
          cases hstep
          refine ⟨?_, hafter⟩
          have hmove := toLock_goto s t (.after k) s.holder
          exact hmove ▸ LockCell.Step.leave t m₁ m hphase hfree
        · cases hstep
          exact h.stop _

/-- Under the condition every step of a task is a step of the lock. -/
theorem runTask_lockStep (h : Locked s) (howns : Owns s)
    (hq : Quiet s (.run t ch)) (hstep : runTask debounceDelay s t ch = some s') :
    LockStep s s' := by
  obtain ⟨m₀, hlock, hm₀⟩ := h.lock
  have hsome : s.lock.isSome = true := by rw [hlock]; rfl
  -- with `bt.lock` assigned, every test of it succeeds
  cases hpc : s.tasks t with
  | body taken b => exact body_lockStep h hpc hstep
  | take c m => exact take_give_lockStep h howns (Or.inl ⟨c, m, hpc⟩) hstep
  | give taken m k => exact take_give_lockStep h howns (Or.inr ⟨taken, m, k, hpc⟩) hstep
  | initCreate => exact init_lockStep h hq (Or.inl hpc) hstep
  | initAssign m => exact init_lockStep h hq (Or.inr (Or.inl ⟨m, hpc⟩)) hstep
  | initSpawn => exact init_lockStep h hq (Or.inr (Or.inr hpc)) hstep
  | test c =>
    simp only [runTask, hpc, hsome, if_true, Option.some.injEq] at hstep
    subst hstep
    exact h.stay t (.readTake c) (by rw [hpc]; rfl) trivial s.bt
  | readTake c =>
    simp only [runTask, hpc, hlock, Option.some.injEq] at hstep
    subst hstep
    refine ⟨?_, h.goto t (.take c m₀) trivial⟩
    have hphase : s.toLock.phase t = .out := by
      show (s.tasks t).phase = _
      rw [hpc]
      rfl
    have hmove := toLock_goto s t (.take c m₀) s.holder
    exact hmove ▸ LockCell.Step.read t m₀ hphase hlock
  | exitTest taken =>
    simp only [runTask, hpc, hsome, if_true, Option.some.injEq] at hstep
    subst hstep
    exact h.stay t (.readGive taken .done) (by rw [hpc]; cases taken <;> rfl) trivial s.bt
  | readGive taken k =>
    simp only [runTask, hpc, hlock, Option.some.injEq] at hstep
    subst hstep
    cases taken with
    | none => exact h.stay t (.give none m₀ k) (by rw [hpc]; rfl) trivial s.bt
    | some m =>
      refine ⟨?_, h.goto t (.give (some m) m₀ k) trivial⟩
      have hphase : s.toLock.phase t = .inside m := by
        show (s.tasks t).phase = _
        rw [hpc]
        rfl
      have hmove := toLock_goto s t (.give (some m) m₀ k) s.holder
      exact hmove ▸ LockCell.Step.reread t m m₀ hphase hlock
  | after k =>
    simp only [runTask, hpc] at hstep
    split at hstep
    · next v _ =>
      cases hstep
      exact h.stay t (.returned v) (by rw [hpc]; rfl) trivial s.bt
    · cases hstep
      exact h.stop _
  | _ => simp [runTask, hpc] at hstep

/-- Under the condition every event is a step of the lock. -/
theorem step_lockStep (h : Locked s) (howns : Owns s) {e : Event} (hq : Quiet s e)
    (hstep : step debounceDelay s e = some s') : LockStep s s' := by
  unfold step at hstep
  split at hstep
  · cases hstep
  · cases e with
    | run t ch => exact runTask_lockStep h howns hq hstep
    | call t c =>
      -- a task between two calls is out, and so it is at the entry of the next
      have hentry : ∀ pc, s.tasks t = pc → pc.phase = .out →
          LockStep s (s.goto t c.entry) := fun pc hpc hout =>
        h.stay t c.entry (by rw [hpc, hout, entry_phase]) (entry_fine c _) s.bt
      simp only at hstep
      split at hstep
      · next hpc =>
        cases hstep
        exact hentry _ hpc rfl
      · next v hpc =>
        cases hstep
        exact hentry _ hpc rfl
      · cases hstep

/-! ## Mutual exclusion -/

/-- No two tasks are between their take and their give. -/
def Exclusive (s : State) : Prop := ∀ t u, Inside s t → Inside s u → t = u

/-- `buttonInit` has been called: `bt.lock` is a mutex that no task has taken or
    waits for. The tasks may be anywhere else, the one that has been created about to
    call `buttonInit`, others in a `buttonAdd` that found no lock. -/
structure AfterInit (s : State) : Prop where
  lock : ∃ m, s.lock = some m ∧ m < s.mutexCount
  free : ∀ m, s.holder m = none
  out : ∀ t, (s.tasks t).phase = .out
  fine : ∀ t, (s.tasks t).Fine s.mutexCount

/-- The tasks have their way through the lock agreed. -/
structure Ordered (s : State) : Prop where
  locked : Locked s
  agree : LockCell.Agree s.toLock

/-- A step that assigns `bt.lock` in quiet only keeps the tasks in order. -/
theorem Ordered.step (h : Ordered s) (howns : Owns s) {e : Event} (hq : Quiet s e)
    (hstep : step debounceDelay s e = some s') : Ordered s' := by
  obtain ⟨hlock, hlocked⟩ := step_lockStep h.locked howns hq hstep
  exact ⟨hlocked, h.agree.step hlock⟩

/-- Tasks in order are never two inside the lock. -/
theorem Ordered.exclusive (h : Ordered s) : Exclusive s := by
  intro t u ht hu
  obtain ⟨m, hm, -⟩ := h.locked.lock
  have hcell : s.toLock.cell ≠ none := by
    show s.lock ≠ none
    rw [hm]
    exact Option.some_ne_none m
  exact h.agree.exclusive hcell ht hu

/-- The tasks are ordered, and every mutex is with the task that took it. -/
structure Accounted (s : State) : Prop where
  ordered : Ordered s
  held : LockCell.Held s.toLock

/-- After `buttonInit` no mutex is held and no task is on its way through the lock. -/
theorem AfterInit.accounted (h : AfterInit s) : Accounted s :=
  ⟨⟨⟨h.lock, h.fine⟩, LockCell.Agree.of_out h.out⟩, LockCell.Held.of_free h.free⟩

/-- A task that is accounted for gives only what it has taken. -/
theorem Accounted.owns (h : Accounted s) : Owns s := by
  intro t m k hpc hheld
  have htaken : (s.tasks t).phase.taken = some m := h.held m t hheld
  rw [hpc] at htaken
  cases htaken

/-- Every quiet step keeps all tasks accounted for. -/
theorem Accounted.step (h : Accounted s) {e : Event} (hq : Quiet s e)
    (hstep : step debounceDelay s e = some s') : Accounted s' := by
  obtain ⟨hlock, -⟩ := step_lockStep h.ordered.locked h.owns hq hstep
  exact ⟨h.ordered.step h.owns hq hstep, h.held.step h.ordered.agree hlock⟩

/-- After the first `buttonInit`, in every run of the tasks in which `bt.lock` is
    assigned only while no task is on its way through the lock, no two tasks are
    ever between their take and their give. -/
theorem tasks_exclusive (debounceDelay : UInt32) (h : AfterInit s) (es : List Event)
    (hes : Runs.StepsMeet (step debounceDelay) Quiet s es) :
    Runs.Always (step debounceDelay) Exclusive s es := by
  apply Runs.Always.of_invariant _ _ h.accounted hes
  · intro s hs
    exact hs.ordered.exclusive
  · intro s e s' hs hq hstep
    exact hs.step hq hstep

/-- Two tasks at work, 1 and 2, and the task 0 that the first `buttonInit` created. -/
def firstInit : State :=
  { bt := Bt.zero, lock := some 0, holder := fun _ => none, mutexCount := 1,
    tasks := fun t => if t = 0 then .initCreate else if t ≤ 2 then .idle else .absent,
    stopped := none }

/-- One task is about to call `buttonInit`, the others are idle or not there. -/
theorem firstInit_tasks (t : TaskId) :
    firstInit.tasks t = .initCreate ∨ firstInit.tasks t = .idle ∨ firstInit.tasks t = .absent := by
  simp only [firstInit]
  split
  · exact Or.inl rfl
  · split
    · exact Or.inr (Or.inl rfl)
    · exact Or.inr (Or.inr rfl)

/-- The first call of `buttonInit` leaves a lock that no task has taken or waits for. -/
theorem afterInit_firstInit : AfterInit firstInit := by
  refine ⟨⟨0, rfl, Nat.one_pos⟩, fun _ => rfl, fun t => ?_, fun t => ?_⟩
  · rcases firstInit_tasks t with h | h | h <;> rw [h] <;> rfl
  · rcases firstInit_tasks t with h | h | h <;> rw [h] <;> trivial

/-- The choice where nothing is chosen. -/
def noChoice : Choice := { newAddr := none, newTask := none, ticks := 0, polled := 0 }

/-- The created task assigns `bt.lock` before anybody is on the way. -/
theorem tasks_exclusive_assigned_first :
    Runs.Always (step 1) Exclusive firstInit
      [.run 0 noChoice, .run 0 noChoice, .call 1 .getPresses, .run 1 noChoice] := by
  apply tasks_exclusive 1 afterInit_firstInit
  apply (Runs.stepsMeet_cons rfl).mpr
  refine ⟨(fun m hm => by cases hm), ?_⟩
  apply (Runs.stepsMeet_cons rfl).mpr
  -- task 0 assigns the new lock while every other task is out
  refine ⟨fun m _ u => ?_, ?_⟩
  · show Pc.phase (Function.update firstInit.tasks 0 (Pc.initAssign 1) u) = .out
    by_cases hu : u = 0
    · subst hu
      rfl
    · rw [Function.update_of_ne hu]
      exact afterInit_firstInit.out u
  · apply (Runs.stepsMeet_cons rfl).mpr
    apply And.intro trivial
    apply (Runs.stepsMeet_cons rfl).mpr
    exact ⟨(fun m hm => by cases hm), trivial⟩

/-- Task 1 takes the first mutex, task 0 replaces `bt.lock`, task 2 takes the
    second mutex: both are inside. -/
theorem buttonInit_breaks_exclusion :
    AfterInit firstInit ∧ ¬ Runs.Always (step 1) Exclusive firstInit
      [.call 1 .getPresses, .run 1 noChoice, .run 1 noChoice, .run 0 noChoice, .run 0 noChoice,
        .call 2 .getPresses, .run 2 noChoice, .run 2 noChoice] := by
  refine ⟨afterInit_firstInit, fun h => ?_⟩
  have hlast := h.final rfl
  exact absurd (hlast 1 2 trivial trivial) (by decide)

end Buttons.Tasks
