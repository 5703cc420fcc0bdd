import Mathlib.Algebra.BigOperators.Fin
import CSnippets.ForStd.Monitor
import CSnippets.ForStd.Runs
import CSnippets.Native.PosixMutex

/-!
# Both threads are counted

In every schedule the mutex is used only between its initialisation and its destruction,
no two threads are at `counter` at once, and when `main` returns 0 both have added one and
have printed what they made of it.
-/

namespace PosixMutex

/-! ## The mutex -/

/-- Where the mutex is concerned. -/
def Pc.phase : Pc → Monitor.Phase
  | .absent => .outside
  | .lock => .entering
  | .load => .inside
  | .store _ => .inside
  | .print => .inside
  | .unlock => .inside
  | .returned => .outside

/-- Who holds the mutex. -/
def Mutex.holder : Mutex → Option (Fin 2)
  | .uninitialised => none
  | .free => none
  | .held i => some i
  | .destroyed => none

/-- It has been initialised and not destroyed. -/
def Mutex.Usable : Mutex → Prop
  | .uninitialised => False
  | .free => True
  | .held _ => True
  | .destroyed => False

/-- The mutex and the threads as a monitor. -/
def State.view (s : State) : Monitor.State (Fin 2) :=
  { mutex := s.mutex.holder, phase := fun i => (s.threads i).phase }

/-- The thread is about to read or write `counter`. -/
def Pc.AtCounter : Pc → Prop
  | .absent => False
  | .lock => False
  | .load => True
  | .store _ => True
  | .print => True
  | .unlock => False
  | .returned => False

variable {s s' : State} {i j : Fin 2} {pc pc' : Pc} {e : Event}

/-- A thread is where it went. -/
theorem goto_self : (s.goto i pc).threads i = pc := by
  show Function.update s.threads i pc i = pc
  rw [Function.update_self]

/-- The other thread stays where it is. -/
theorem goto_of_ne (h : j ≠ i) : (s.goto i pc).threads j = s.threads j := by
  show Function.update s.threads i pc j = s.threads j
  rw [Function.update_of_ne h]

/-- A thread that moves changes its phase and no other. -/
theorem view_goto : (s.goto i pc).view = s.view.move i pc.phase := by
  have hphase : (fun j => (Function.update s.threads i pc j).phase) =
      Function.update (fun j => (s.threads j).phase) i pc.phase :=
    funext fun j => Function.apply_update (fun _ => Pc.phase) s.threads i pc j
  simp only [State.view, State.goto, Monitor.State.move, hphase]

/-- A thread that stays in its phase. -/
theorem view_goto_same (h : pc.phase = (s.threads i).phase) : (s.goto i pc).view = s.view := by
  rw [view_goto, Monitor.State.move, h]
  show { s.view with phase := Function.update s.view.phase i (s.view.phase i) } = s.view
  rw [Function.update_eq_self]

/-! ## What a step does -/

/-- All that a step of a thread can do. -/
inductive Turn (s : State) (i : Fin 2) : State → Prop where
  | lock (hpc : s.threads i = .lock) (hfree : s.mutex = .free) :
    Turn s i { s.goto i .load with mutex := .held i }
  | load (hpc : s.threads i = .load) : Turn s i (s.goto i (.store s.counter))
  | store (read : Int) (hpc : s.threads i = .store read) :
    Turn s i { s.goto i .print with counter := read + 1 }
  | print (hpc : s.threads i = .print) :
    Turn s i { s.goto i .unlock with printed := s.printed ++ [text s.counter] }
  | unlock (hpc : s.threads i = .unlock) (hheld : s.mutex = .held i) :
    Turn s i { s.goto i .returned with mutex := .free }

/-- A step of `increase_counter` that is defined is one of the five. -/
theorem increaseCounter_turn (h : increaseCounter s i = .next s') : Turn s i s' := by
  rw [increaseCounter] at h
  cases hpc : s.threads i with
  | absent => rw [hpc] at h; cases h
  | lock =>
    -- only a free mutex lets the thread on
    cases hmutex : s.mutex with
    | uninitialised => rw [hpc, hmutex] at h; cases h
    | free => rw [hpc, hmutex] at h; cases h; exact .lock hpc hmutex
    | held j => rw [hpc, hmutex] at h; cases h
    | destroyed => rw [hpc, hmutex] at h; cases h
  | load => rw [hpc] at h; cases h; exact .load hpc
  | store read =>
    rw [hpc] at h
    dsimp only at h
    -- the increment is defined as long as it does not overflow
    split at h
    · cases h
      exact .store read hpc
    · cases h
  | print => rw [hpc] at h; cases h; exact .print hpc
  | unlock =>
    rw [hpc] at h
    dsimp only at h
    -- only the thread that holds the mutex may unlock it
    split at h
    · cases h
      exact .unlock hpc ‹_›
    · cases h
  | returned => rw [hpc] at h; cases h

/-- All that a step of `main` can do. -/
inductive MainTurn (s : State) : Bool → State → Prop where
  | init (hmain : s.main = .init) :
    MainTurn s true { s with mutex := .free, main := .create 0 }
  | initFails (hmain : s.main = .init) : MainTurn s false { s with main := .exited (-1) }
  | create (i : Fin 2) (hmain : s.main = .create i) :
    MainTurn s true { s.goto i .lock with main := if i = 0 then .create 1 else .join 0 }
  | createFails (i : Fin 2) (hmain : s.main = .create i) :
    MainTurn s false { s with main := .aborted }
  | join (ok : Bool) (i : Fin 2) (hmain : s.main = .join i) (hreturned : s.threads i = .returned) :
    MainTurn s ok { s with main := if i = 0 then .join 1 else .destroy }
  | destroy (ok : Bool) (hmain : s.main = .destroy) (hfree : s.mutex = .free) :
    MainTurn s ok { s with mutex := .destroyed, main := .exited 0 }

/-- A step of `main` that is defined is one of the six. -/
theorem mainStep_turn {ok : Bool} (h : mainStep s ok = .next s') : MainTurn s ok s' := by
  rw [mainStep] at h
  cases hmain : s.main with
  | init =>
    -- `pthread_mutex_init` may fail, and so may `pthread_create`
    cases ok with
    | true => rw [hmain] at h; cases h; exact .init hmain
    | false => rw [hmain] at h; cases h; exact .initFails hmain
  | create i =>
    cases ok with
    | true => rw [hmain] at h; cases h; exact .create i hmain
    | false => rw [hmain] at h; cases h; exact .createFails i hmain
  | join i =>
    rw [hmain] at h
    dsimp only at h
    -- joining a thread that was not created is undefined
    split at h
    · cases h
    · -- `main` waits until the thread has returned
      split at h
      · cases h
        exact .join ok i hmain ‹_›
      · cases h
  | destroy =>
    rw [hmain] at h
    dsimp only at h
    -- a mutex that is held may not be destroyed
    split at h
    · cases h
      exact .destroy ok hmain ‹_›
    · cases h
  | exited code => rw [hmain] at h; cases h
  | aborted => rw [hmain] at h; cases h

/-- A step is one of `main`, or one of a thread before the process ends. -/
theorem step_turn (h : step s e = some s') :
    (∃ ok, e = .main ok ∧ MainTurn s ok s') ∨ s.main.ended = false ∧ ∃ i, Turn s i s' := by
  have hnext : outcome s e = .next s' := by
    rw [step] at h
    cases houtcome : outcome s e with
    | blocked => rw [houtcome] at h; cases h
    | undefined => rw [houtcome] at h; cases h
    | next s₁ => rw [houtcome] at h; cases h; rfl
  cases e with
  | main ok => exact Or.inl ⟨ok, rfl, mainStep_turn hnext⟩
  | thread i =>
    rw [outcome] at hnext
    -- when `main` has ended no thread runs any more
    split at hnext
    · cases hnext
    · rename_i hended
      exact Or.inr ⟨by simpa using hended, i, increaseCounter_turn hnext⟩

/-- The mutex is used as a mutex. -/
theorem Turn.view (h : Turn s i s') : Monitor.Step s.view s'.view := by
  cases h with
  | lock hpc hfree =>
    -- the thread gets in and is noted as the holder
    have hgoto : State.view { s.goto i .load with mutex := .held i } =
        { s.view.move i .inside with mutex := some i } := by
      show { (s.goto i .load).view with mutex := some i } = _
      rw [view_goto]
      rfl
    rw [hgoto]
    exact .acquire i (by rw [State.view, hfree]; rfl)
  | load hpc =>
    -- at `counter` the thread stays inside
    rw [view_goto_same (by rw [hpc]; rfl)]
    exact .stay
  | store read hpc =>
    show Monitor.Step s.view (s.goto i .print).view
    rw [view_goto_same (by rw [hpc]; rfl)]
    exact .stay
  | print hpc =>
    show Monitor.Step s.view (s.goto i .unlock).view
    rw [view_goto_same (by rw [hpc]; rfl)]
    exact .stay
  | unlock hpc hheld =>
    -- the thread leaves and nobody is noted any more
    have hgoto : State.view { s.goto i .returned with mutex := .free } =
        { s.view.move i .outside with mutex := none } := by
      show { (s.goto i .returned).view with mutex := none } = _
      rw [view_goto]
      rfl
    rw [hgoto]
    exact .release i .outside (by rw [State.view, hheld]; rfl) (by decide)

/-! ## What has been counted -/

/-- The thread has written `counter`. -/
def Pc.stored : Pc → Nat
  | .absent => 0
  | .lock => 0
  | .load => 0
  | .store _ => 0
  | .print => 1
  | .unlock => 1
  | .returned => 1

/-- The thread has printed its line. -/
def Pc.shown : Pc → Nat
  | .absent => 0
  | .lock => 0
  | .load => 0
  | .store _ => 0
  | .print => 0
  | .unlock => 1
  | .returned => 1

/-- The sum over both threads. -/
def total (f : Pc → Nat) (s : State) : Nat := ∑ i, f (s.threads i)

/-- There are two threads. -/
theorem total_eq (f : Pc → Nat) (s : State) : total f s = f (s.threads 0) + f (s.threads 1) := by
  rw [total, Fin.sum_univ_two]

/-- The first `n` lines. -/
def lines (n : Nat) : List String := (List.range n).map fun k : Nat => text (k + 1)

/-- What a thread that moves counts for is exchanged in the sum. -/
theorem total_goto (f : Pc → Nat) (s : State) (i : Fin 2) (pc : Pc) :
    total f (s.goto i pc) + f (s.threads i) = total f s + f pc := by
  match i with
  | 0 =>
    rw [total_eq, total_eq, goto_self, goto_of_ne (by decide)]
    omega
  | 1 =>
    rw [total_eq, total_eq, goto_self, goto_of_ne (by decide)]
    omega

/-- `counter` is written at most twice. -/
theorem total_stored_le (s : State) : total Pc.stored s ≤ 2 := by
  have hle (pc : Pc) : pc.stored ≤ 1 := by cases pc <;> simp [Pc.stored]
  have h₀ := hle (s.threads 0)
  have h₁ := hle (s.threads 1)
  rw [total_eq]
  omega

/-- At most two lines are printed. -/
theorem total_shown_le (s : State) : total Pc.shown s ≤ 2 := by
  have hle (pc : Pc) : pc.shown ≤ 1 := by cases pc <;> simp [Pc.shown]
  have h₀ := hle (s.threads 0)
  have h₁ := hle (s.threads 1)
  rw [total_eq]
  omega

/-- One more thread prints the next number. -/
theorem lines_succ (n : Nat) : lines (n + 1) = lines n ++ [text (n + 1)] := by
  rw [lines, List.range_succ, List.map_append]
  rfl

/-- The lines printed so far are the first ones. -/
theorem lines_prefix {n : Nat} (h : n ≤ 2) : lines n <+: lines 2 := by
  obtain ⟨k, hk⟩ := Nat.exists_eq_add_of_le h
  rw [hk, lines, lines, List.range_add, List.map_append]
  exact List.prefix_append _ _

/-- What a thread outside has written it has also printed. -/
theorem stored_eq_shown (h : pc.phase ≠ .inside) : pc.stored = pc.shown := by
  cases pc with
  | print => exact absurd rfl h
  | _ => rfl

/-- While a thread is about to print, its line is all that has been counted and not
    printed. -/
theorem total_of_print (howned : Monitor.Owned s.view) (hpc : s.threads i = .print) :
    total Pc.stored s = total Pc.shown s + 1 := by
  have hinside : (s.threads i).phase = .inside := by rw [hpc]; rfl
  have hother (j : Fin 2) (hj : j ≠ i) : (s.threads j).stored = (s.threads j).shown := by
    apply stored_eq_shown
    intro hphase
    exact hj (howned.unique hphase hinside)
  match i with
  | 0 =>
    rw [total_eq, total_eq, hother 1 (by decide), hpc]
    show 1 + _ = 0 + _ + 1
    omega
  | 1 =>
    rw [total_eq, total_eq, hother 0 (by decide), hpc]
    rfl

/-! ## The invariant -/

/-- What `main` knows of the mutex and of the threads. -/
def Knows (s : State) : MainPc → Prop
  | .init => s.mutex = .uninitialised ∧ ∀ j, s.threads j = .absent
  | .create i => s.mutex.Usable ∧ ∀ j, s.threads j = .absent ↔ i ≤ j
  | .join i => s.mutex.Usable ∧ ∀ j, s.threads j ≠ .absent ∧ (j < i → s.threads j = .returned)
  | .destroy => s.mutex.Usable ∧ ∀ j, s.threads j = .returned
  | .exited code =>
    code = 0 ∧ s.mutex = .destroyed ∧ (∀ j, s.threads j = .returned) ∨
      code = -1 ∧ ∀ j, s.threads j = .absent
  | .aborted => True

/-- `counter` and the output are those of the threads that have got so far. -/
structure Counted (s : State) : Prop where
  owned : Monitor.Owned s.view
  counter : s.counter = total Pc.stored s
  loaded : ∀ i read, s.threads i = .store read → read = s.counter
  printed : s.printed = lines (total Pc.shown s)
  main : Knows s s.main

/-! ### Steps of a thread -/

/-- A thread leaves `main` where it is. -/
theorem Turn.main_eq (h : Turn s i s') : s'.main = s.main := by
  cases h <;> rfl

/-- Only a thread that is on its way takes a step, and it is then still there. -/
theorem Turn.running (h : Turn s i s') :
    s.threads i ≠ .absent ∧ s.threads i ≠ .returned ∧ s'.threads i ≠ .absent := by
  cases h with
  | lock hpc hfree => exact ⟨by simp [hpc], by simp [hpc], by simp [State.goto]⟩
  | load hpc => exact ⟨by simp [hpc], by simp [hpc], by simp [State.goto]⟩
  | store read hpc => exact ⟨by simp [hpc], by simp [hpc], by simp [State.goto]⟩
  | print hpc => exact ⟨by simp [hpc], by simp [hpc], by simp [State.goto]⟩
  | unlock hpc hheld => exact ⟨by simp [hpc], by simp [hpc], by simp [State.goto]⟩

/-- A thread leaves the other one where it is. -/
theorem Turn.threads_of_ne (h : Turn s i s') (hj : j ≠ i) : s'.threads j = s.threads j := by
  cases h <;> exact goto_of_ne hj

/-- No thread creates another one. -/
theorem Turn.absent_iff (h : Turn s i s') (j : Fin 2) :
    s'.threads j = .absent ↔ s.threads j = .absent := by
  by_cases hj : j = i
  · subst hj
    obtain ⟨hbefore, -, hafter⟩ := h.running
    exact iff_of_false hafter hbefore
  · rw [h.threads_of_ne hj]

/-- A thread that has returned stays so. -/
theorem Turn.returned (h : Turn s i s') (hj : s.threads j = .returned) :
    s'.threads j = .returned := by
  rw [h.threads_of_ne, hj]
  rintro rfl
  exact h.running.2.1 hj

/-- No thread initialises or destroys the mutex. -/
theorem Turn.usable (h : Turn s i s') (husable : s.mutex.Usable) : s'.mutex.Usable := by
  cases h with
  | lock hpc hfree => trivial
  | load hpc => exact husable
  | store read hpc => exact husable
  | print hpc => exact husable
  | unlock hpc hheld => trivial

/-- `counter` stays the number of threads that have written it. -/
theorem Turn.counter (h : Turn s i s') (hcounter : s.counter = total Pc.stored s)
    (hloaded : ∀ i read, s.threads i = .store read → read = s.counter) :
    s'.counter = total Pc.stored s' := by
  have hsame (pc : Pc) (hstored : pc.stored = (s.threads i).stored) :
      s.counter = total Pc.stored (s.goto i pc) := by
    have htotal := total_goto Pc.stored s i pc
    omega
  cases h with
  | lock hpc hfree => exact hsame .load (by rw [hpc]; rfl)
  | load hpc => exact hsame (.store s.counter) (by rw [hpc]; rfl)
  | store read hpc =>
    -- the value read is still the one in `counter`
    have hread := hloaded i read hpc
    have htotal := total_goto Pc.stored s i .print
    rw [hpc] at htotal
    show read + 1 = total Pc.stored (s.goto i .print)
    simp only [Pc.stored] at htotal
    omega
  | print hpc => exact hsame .unlock (by rw [hpc]; rfl)
  | unlock hpc hheld => exact hsame .returned (by rw [hpc]; rfl)

/-- While a thread is inside no other has read `counter`. -/
theorem not_store_of_inside (howned : Monitor.Owned s.view)
    (hinside : (s.threads i).phase = .inside) (hj : j ≠ i) (read : Int) :
    s.threads j ≠ .store read := by
  intro hstore
  exact hj (howned.unique (show (s.threads j).phase = .inside by rw [hstore]; rfl) hinside)

/-- What a thread has read of `counter` stays the value that is there. -/
theorem Turn.loaded (h : Turn s i s') (howned : Monitor.Owned s.view)
    (hloaded : ∀ i read, s.threads i = .store read → read = s.counter) (j : Fin 2) (read : Int)
    (hj : s'.threads j = .store read) : read = s'.counter := by
  -- the thread that moves reads `counter` itself; of the other one the mutex takes care
  by_cases hji : j = i
  · subst hji
    cases h with
    | load hpc =>
      rw [goto_self] at hj
      exact (Pc.store.inj hj).symm
    -- behind the other steps the thread is not about to store
    | _ => simp [State.goto] at hj
  · have hbefore := hj
    rw [h.threads_of_ne hji] at hbefore
    cases h with
    | store old hpc =>
      -- `counter` changes, but then the other thread has not read it
      exact absurd hbefore (not_store_of_inside howned (by rw [hpc]; rfl) hji read)
    | _ => exact hloaded j read hbefore

/-- The lines stay those of the threads that have printed. -/
theorem Turn.printed (h : Turn s i s') (howned : Monitor.Owned s.view)
    (hcounter : s.counter = total Pc.stored s) (hprinted : s.printed = lines (total Pc.shown s)) :
    s'.printed = lines (total Pc.shown s') := by
  have hsame (pc : Pc) (hshown : pc.shown = (s.threads i).shown) :
      s.printed = lines (total Pc.shown (s.goto i pc)) := by
    have htotal := total_goto Pc.shown s i pc
    rw [show total Pc.shown (s.goto i pc) = total Pc.shown s by omega]
    exact hprinted
  cases h with
  | lock hpc hfree => exact hsame .load (by rw [hpc]; rfl)
  | load hpc => exact hsame (.store s.counter) (by rw [hpc]; rfl)
  | store read hpc => exact hsame .print (by rw [hpc]; rfl)
  | print hpc =>
    have htotal := total_goto Pc.shown s i .unlock
    rw [hpc] at htotal
    simp only [Pc.shown] at htotal
    -- all that was counted before has been printed, as the others are outside
    have hstored := total_of_print howned hpc
    show s.printed ++ [text s.counter] = lines (total Pc.shown (s.goto i .unlock))
    rw [show total Pc.shown (s.goto i .unlock) = total Pc.shown s + 1 by omega, lines_succ,
      hprinted, hcounter, hstored]
    rfl
  | unlock hpc hheld => exact hsame .returned (by rw [hpc]; rfl)

/-- What `main` knows stays true when a thread takes a step. -/
theorem Turn.knows (h : Turn s i s') (hended : s.main.ended = false) (hmain : Knows s s.main) :
    Knows s' s.main := by
  cases hpc : s.main with
  | init =>
    rw [hpc] at hmain
    -- before the first `pthread_create` there is no thread that could move
    exact absurd (hmain.2 i) h.running.1
  | create k =>
    rw [hpc] at hmain
    exact ⟨h.usable hmain.1, fun j => (h.absent_iff j).trans (hmain.2 j)⟩
  | join k =>
    rw [hpc] at hmain
    exact ⟨h.usable hmain.1, fun j =>
      ⟨fun habsent => (hmain.2 j).1 ((h.absent_iff j).mp habsent),
        fun hlt => h.returned ((hmain.2 j).2 hlt)⟩⟩
  | destroy =>
    rw [hpc] at hmain
    exact ⟨h.usable hmain.1, fun j => h.returned (hmain.2 j)⟩
  | exited code => rw [hpc] at hended; cases hended
  | aborted => trivial

/-- Every step of a thread keeps the invariant. -/
theorem Counted.turn (h : Counted s) (hended : s.main.ended = false) (hturn : Turn s i s') :
    Counted s' :=
  { owned := h.owned.step hturn.view
    counter := hturn.counter h.counter h.loaded
    loaded := hturn.loaded h.owned h.loaded
    printed := hturn.printed h.owned h.counter h.printed
    main := by
      rw [hturn.main_eq]
      exact hturn.knows hended h.main }

/-! ### Steps of `main` -/

/-- A step that moves no thread. -/
theorem Counted.of_threads_eq (h : Counted s) (hthreads : s'.threads = s.threads)
    (hholder : s'.mutex.holder = s.mutex.holder) (hcounter : s'.counter = s.counter)
    (hprinted : s'.printed = s.printed) (hmain : Knows s' s'.main) : Counted s' := by
  have htotal (f : Pc → Nat) : total f s' = total f s := by rw [total, total, hthreads]
  have hview : s'.view = s.view := by rw [State.view, State.view, hthreads, hholder]
  exact
    { owned := hview ▸ h.owned
      counter := by rw [hcounter, htotal, h.counter]
      loaded := by
        rw [hthreads, hcounter]
        exact h.loaded
      printed := by rw [hprinted, htotal, h.printed]
      main := hmain }

/-- `main` creates a thread. -/
theorem Counted.create (h : Counted s) (habsent : s.threads i = .absent) {m : MainPc}
    (hmain : Knows (s.goto i .lock) m) : Counted { s.goto i .lock with main := m } := by
  have htotal (f : Pc → Nat) (hf : f .lock = f .absent) :
      total f (s.goto i .lock) = total f s := by
    have hgoto := total_goto f s i .lock
    rw [habsent] at hgoto
    omega
  exact
    { owned := by
        show Monitor.Owned (s.goto i .lock).view
        rw [view_goto]
        -- a new thread is outside, and arrives at the mutex
        apply h.owned.step (.arrive i .entering _ (by decide))
        show (s.threads i).phase ≠ .inside
        rw [habsent]
        decide
      counter := by
        show s.counter = total Pc.stored (s.goto i .lock)
        rw [htotal Pc.stored rfl, h.counter]
      loaded := by
        intro j read hj
        -- the new thread has read nothing
        by_cases hji : j = i
        · subst hji
          simp [State.goto] at hj
        · exact h.loaded j read ((goto_of_ne hji).symm.trans hj)
      printed := by
        show s.printed = lines (total Pc.shown (s.goto i .lock))
        rw [htotal Pc.shown rfl, h.printed]
      main := hmain }

/-- What `main` knows when it has created a thread. -/
theorem knows_create (hmain : Knows s (.create i)) :
    Knows (s.goto i .lock) (if i = 0 then .create 1 else .join 0) := by
  obtain ⟨husable, habsent⟩ := hmain
  have hself : (s.goto i .lock).threads i = .lock := goto_self
  match i with
  | 0 =>
    -- the first thread is there, the second one is not
    refine ⟨husable, fun j => ?_⟩
    match j with
    | 0 => simp [hself]
    | 1 => simpa [goto_of_ne] using (habsent 1).mpr (by decide)
  | 1 =>
    -- now both are there, and none needs to have returned
    refine ⟨husable, fun j => ⟨?_, fun hlt => absurd hlt (by omega)⟩⟩
    match j with
    | 0 =>
      rw [goto_of_ne (by decide)]
      exact fun h => absurd ((habsent 0).mp h) (by decide)
    | 1 => simp [hself]

/-- What `main` knows when a thread has been joined. -/
theorem knows_join (hmain : Knows s (.join i)) (hreturned : s.threads i = .returned) :
    Knows s (if i = 0 then .join 1 else .destroy) := by
  obtain ⟨husable, hthreads⟩ := hmain
  match i with
  | 0 =>
    refine ⟨husable, fun j => ⟨(hthreads j).1, fun hlt => ?_⟩⟩
    obtain rfl : j = 0 := by omega
    exact hreturned
  | 1 =>
    refine ⟨husable, fun j => ?_⟩
    match j with
    | 0 => exact (hthreads 0).2 (by decide)
    | 1 => exact hreturned

/-- Every step of `main` keeps the invariant. -/
theorem Counted.mainTurn {ok : Bool} (h : Counted s) (hturn : MainTurn s ok s') : Counted s' := by
  have hknows := h.main
  cases hturn with
  | init hmain =>
    rw [hmain] at hknows
    obtain ⟨hmutex, habsent⟩ := hknows
    -- neither before nor after the initialisation the mutex has a holder
    have hholder : Mutex.free.holder = s.mutex.holder := by rw [hmutex]; rfl
    exact h.of_threads_eq rfl hholder rfl rfl
      ⟨trivial, fun j => iff_of_true (habsent j) (Fin.zero_le j)⟩
  | initFails hmain =>
    rw [hmain] at hknows
    exact h.of_threads_eq rfl rfl rfl rfl (Or.inr ⟨rfl, hknows.2⟩)
  | create i hmain =>
    rw [hmain] at hknows
    exact h.create ((hknows.2 i).mpr (Nat.le_refl i)) (knows_create hknows)
  | createFails i hmain => exact h.of_threads_eq rfl rfl rfl rfl trivial
  | join _ i hmain hreturned =>
    rw [hmain] at hknows
    have hjoin := knows_join hknows hreturned
    -- the two places of `pthread_join` differ in where `main` goes on
    match i with
    | 0 => exact h.of_threads_eq rfl rfl rfl rfl hjoin
    | 1 => exact h.of_threads_eq rfl rfl rfl rfl hjoin
  | destroy _ hmain hfree =>
    rw [hmain] at hknows
    -- it was free, so nobody holds what is destroyed
    have hholder : Mutex.destroyed.holder = s.mutex.holder := by rw [hfree]; rfl
    exact h.of_threads_eq rfl hholder rfl rfl (Or.inl ⟨rfl, rfl, hknows.2⟩)

/-- Every step keeps the invariant. -/
theorem Counted.next (h : Counted s) (hstep : step s e = some s') : Counted s' := by
  obtain ⟨ok, -, hmain⟩ | ⟨hended, i, hturn⟩ := step_turn hstep
  · exact h.mainTurn hmain
  · exact h.turn hended hturn

/-- The process starts with nothing counted and no thread. -/
theorem start_counted : Counted .start :=
  { owned := fun _ => iff_of_false nofun nofun
    counter := rfl
    loaded := nofun
    printed := rfl
    main := ⟨rfl, fun _ => rfl⟩ }

/-! ## What is never done -/

/-- The mutex that has a holder is held by it. -/
theorem held_of_holder {m : Mutex} (h : m.holder = some i) : m = .held i := by
  cases m with
  | held j => exact congrArg Mutex.held (Option.some.inj h)
  | _ => cases h

/-- A usable mutex without a holder is free. -/
theorem Mutex.Usable.free {m : Mutex} (h : m.Usable) (hholder : m.holder = none) : m = .free := by
  cases m with
  | uninitialised => exact absurd h id
  | free => rfl
  | held j => cases hholder
  | destroyed => exact absurd h id

/-- While the process runs, a thread that has been created finds the mutex initialised. -/
theorem Counted.usable (h : Counted s) (hended : s.main.ended = false)
    (hi : s.threads i ≠ .absent) : s.mutex.Usable := by
  have hknows := h.main
  cases hmain : s.main with
  | init =>
    rw [hmain] at hknows
    exact absurd (hknows.2 i) hi
  | create k => rw [hmain] at hknows; exact hknows.1
  | join k => rw [hmain] at hknows; exact hknows.1
  | destroy => rw [hmain] at hknows; exact hknows.1
  | exited code => rw [hmain] at hended; cases hended
  | aborted => rw [hmain] at hended; cases hended

/-- A thread that is about to unlock holds the mutex. -/
theorem Counted.held (h : Counted s) (hpc : s.threads i = .unlock) : s.mutex = .held i := by
  have hinside : (s.threads i).phase = .inside := by rw [hpc]; rfl
  exact held_of_holder ((h.owned i).mpr hinside)

/-- The increment of `counter` does not overflow. -/
theorem Counted.read_lt (h : Counted s) {read : Int} (hpc : s.threads i = .store read) :
    read + 1 < 2 ^ 31 := by
  have hread := h.loaded i read hpc
  have hcounter := h.counter
  have hle := total_stored_le s
  omega

/-- Nobody holds the mutex when all threads have returned. -/
theorem Counted.free (h : Counted s) (husable : s.mutex.Usable)
    (hreturned : ∀ j, s.threads j = .returned) : s.mutex = .free := by
  apply husable.free
  cases hholder : s.mutex.holder with
  | none => rfl
  | some i =>
    have hinside : (s.threads i).phase = .inside := (h.owned i).mp hholder
    rw [hreturned] at hinside
    cases hinside

/-- `main` does nothing undefined. -/
theorem Counted.main_defined (h : Counted s) (ok : Bool) : mainStep s ok ≠ .undefined := by
  have hknows := h.main
  rw [mainStep]
  cases hmain : s.main with
  | init => cases ok <;> nofun
  | create i => cases ok <;> nofun
  | join i =>
    rw [hmain] at hknows
    dsimp only
    rw [if_neg (hknows.2 i).1]
    split <;> nofun
  | destroy =>
    rw [hmain] at hknows
    dsimp only
    rw [if_pos (h.free hknows.1 hknows.2)]
    nofun
  | exited code => nofun
  | aborted => nofun

/-- A thread does nothing undefined while the process runs. -/
theorem Counted.thread_defined (h : Counted s) (hended : s.main.ended = false) (i : Fin 2) :
    increaseCounter s i ≠ .undefined := by
  rw [increaseCounter]
  cases hpc : s.threads i with
  | absent => nofun
  | lock =>
    have husable := h.usable hended (i := i) (by rw [hpc]; nofun)
    cases hmutex : s.mutex with
    | uninitialised => rw [hmutex] at husable; exact absurd husable id
    | free => nofun
    | held j => nofun
    | destroyed => rw [hmutex] at husable; exact absurd husable id
  | load => nofun
  | store read =>
    dsimp only
    rw [if_pos (h.read_lt hpc)]
    nofun
  | print => nofun
  | unlock =>
    dsimp only
    rw [if_pos (h.held hpc)]
    nofun
  | returned => nofun

/-- Nothing undefined is done. -/
theorem Counted.defined (h : Counted s) (e : Event) : outcome s e ≠ .undefined := by
  cases e with
  | main ok => exact h.main_defined ok
  | thread i =>
    cases hended : s.main.ended with
    | true => simp [outcome, hended]
    | false => simpa [outcome, hended] using h.thread_defined hended i

/-- No two threads are at `counter` at once. -/
theorem Counted.atCounter_unique (h : Counted s) (hi : (s.threads i).AtCounter)
    (hj : (s.threads j).AtCounter) : i = j := by
  have hphase {pc : Pc} (hat : pc.AtCounter) : pc.phase = .inside := by
    cases pc with
    | load => rfl
    | store read => rfl
    | print => rfl
    | _ => exact absurd hat id
  exact h.owned.unique (hphase hi) (hphase hj)

/-! ## The end -/

/-- A thread on its way can go on, or another one can. -/
theorem Counted.exists_thread (h : Counted s) (hended : s.main.ended = false)
    (hpresent : s.threads i ≠ .absent) (hrunning : s.threads i ≠ .returned) :
    ∃ j s', step s (.thread j) = some s' := by
  have husable := h.usable hended hpresent
  -- a thread that has been created and has not returned wants the mutex or has it
  have hphase : (s.threads i).phase = .inside ∨ (s.threads i).phase = .entering ∨
      (s.threads i).phase = .woken := by
    cases hpc : s.threads i with
    | absent => exact absurd hpc hpresent
    | lock => exact Or.inr (Or.inl rfl)
    | returned => exact absurd hpc hrunning
    | _ => exact Or.inl rfl
  obtain ⟨j, hready⟩ := h.owned.exists_ready hphase
  refine ⟨j, ?_⟩
  have hstep : step s (.thread j) = (increaseCounter s j).toOption := by
    simp [step, outcome, hended]
  rw [hstep, increaseCounter]
  -- either the holder goes on, or the mutex is free for one that waits
  obtain hinside | ⟨hfree, hwaits⟩ := hready
  · replace hinside : (s.threads j).phase = .inside := hinside
    cases hpc : s.threads j with
    | absent => rw [hpc] at hinside; cases hinside
    | lock => rw [hpc] at hinside; cases hinside
    | load => exact ⟨_, rfl⟩
    | store read =>
      dsimp only
      rw [if_pos (h.read_lt hpc)]
      exact ⟨_, rfl⟩
    | print => exact ⟨_, rfl⟩
    | unlock =>
      dsimp only
      rw [if_pos (h.held hpc)]
      exact ⟨_, rfl⟩
    | returned => rw [hpc] at hinside; cases hinside
  · replace hwaits : (s.threads j).phase = .entering ∨ (s.threads j).phase = .woken := hwaits
    cases hpc : s.threads j with
    | lock =>
      rw [husable.free hfree]
      exact ⟨_, rfl⟩
    | _ => rw [hpc] at hwaits; obtain hphase | hphase := hwaits <;> cases hphase

/-- Until the process ends it can go on, with calls that succeed. -/
theorem Counted.exists_step (h : Counted s) (hended : s.main.ended = false) :
    ∃ e s', e ≠ .main false ∧ step s e = some s' := by
  have hknows := h.main
  have hmainStep : step s (.main true) = (mainStep s true).toOption := rfl
  cases hmain : s.main with
  | init => exact ⟨.main true, _, nofun, by rw [hmainStep, mainStep, hmain]; rfl⟩
  | create i => exact ⟨.main true, _, nofun, by rw [hmainStep, mainStep, hmain]; rfl⟩
  | join i =>
    rw [hmain] at hknows
    have hpresent := (hknows.2 i).1
    by_cases hreturned : s.threads i = .returned
    · refine ⟨.main true, { s with main := if i = 0 then .join 1 else .destroy }, nofun, ?_⟩
      rw [hmainStep, mainStep, hmain]
      dsimp only
      rw [if_neg hpresent, if_pos hreturned]
      rfl
    · -- `main` waits for the thread
      obtain ⟨j, s', hstep⟩ := h.exists_thread hended hpresent hreturned
      exact ⟨.thread j, s', nofun, hstep⟩
  | destroy =>
    rw [hmain] at hknows
    refine ⟨.main true, { s with mutex := .destroyed, main := .exited 0 }, nofun, ?_⟩
    rw [hmainStep, mainStep, hmain]
    dsimp only
    rw [if_pos (h.free hknows.1 hknows.2)]
    rfl
  | exited code => rw [hmain] at hended; cases hended
  | aborted => rw [hmain] at hended; cases hended

/-- The steps a thread still has to take. -/
def Pc.weight : Pc → Nat
  | .absent => 5
  | .lock => 5
  | .load => 4
  | .store _ => 3
  | .print => 2
  | .unlock => 1
  | .returned => 0

/-- The steps `main` still has to take. -/
def MainPc.weight : MainPc → Nat
  | .init => 6
  | .create i => 5 - i
  | .join i => 3 - i
  | .destroy => 1
  | .exited _ => 0
  | .aborted => 0

/-- The steps that all still have to take. -/
def State.weight (s : State) : Nat := s.main.weight + total Pc.weight s

/-- A `pthread_create` that succeeds takes `main` further. -/
theorem weight_create : ∀ i : Fin 2,
    MainPc.weight (if i = 0 then .create 1 else .join 0) < MainPc.weight (.create i) := by
  decide

/-- A `pthread_create` that fails takes `main` to its end. -/
theorem weight_abort : ∀ i : Fin 2, MainPc.weight .aborted < MainPc.weight (.create i) := by
  decide

/-- A `pthread_join` takes `main` further. -/
theorem weight_join : ∀ i : Fin 2,
    MainPc.weight (if i = 0 then .join 1 else .destroy) < MainPc.weight (.join i) := by
  decide

/-- Every step of a thread takes weight off. -/
theorem Turn.pays (h : Turn s i s') : s'.weight + 1 ≤ s.weight := by
  have hlower (pc : Pc) (hlt : pc.weight < (s.threads i).weight) :
      s.main.weight + total Pc.weight (s.goto i pc) + 1 ≤ s.weight := by
    have htotal := total_goto Pc.weight s i pc
    rw [State.weight]
    omega
  cases h with
  | lock hpc hfree => exact hlower .load (by rw [hpc]; decide)
  | load hpc => exact hlower (.store s.counter) (by rw [hpc]; simp [Pc.weight])
  | store read hpc => exact hlower .print (by rw [hpc]; simp [Pc.weight])
  | print hpc => exact hlower .unlock (by rw [hpc]; decide)
  | unlock hpc hheld => exact hlower .returned (by rw [hpc]; decide)

/-- Every step of `main` takes weight off, also the one that creates a thread. -/
theorem MainTurn.pays {ok : Bool} (h : MainTurn s ok s') (hknows : Knows s s.main) :
    s'.weight + 1 ≤ s.weight := by
  have hlower (m : MainPc) (hlt : m.weight < s.main.weight) :
      m.weight + total Pc.weight s + 1 ≤ s.weight := by
    rw [State.weight]
    omega
  cases h with
  | init hmain => exact hlower (.create 0) (by rw [hmain]; decide)
  | initFails hmain => exact hlower (.exited (-1)) (by rw [hmain]; decide)
  | create i hmain =>
    rw [hmain] at hknows
    -- the created thread weighs as much as before, when it was to be created
    have htotal := total_goto Pc.weight s i .lock
    rw [(hknows.2 i).mpr (Nat.le_refl i)] at htotal
    simp only [Pc.weight] at htotal
    have hnext := hlower (if i = 0 then .create 1 else .join 0) (hmain ▸ weight_create i)
    show MainPc.weight (if i = 0 then .create 1 else .join 0) +
      total Pc.weight (s.goto i .lock) + 1 ≤ s.weight
    omega
  | createFails i hmain => exact hlower .aborted (hmain ▸ weight_abort i)
  | join _ i hmain hreturned =>
    exact hlower (if i = 0 then .join 1 else .destroy) (hmain ▸ weight_join i)
  | destroy _ hmain hfree => exact hlower (.exited 0) (by rw [hmain]; decide)

/-- `main` does not end by a failure. -/
def MainPc.Succeeds (m : MainPc) : Prop := m ≠ .aborted ∧ m ≠ .exited (-1)

/-- As long as the calls succeed `main` does not fail. -/
theorem MainTurn.succeeds (h : MainTurn s true s') : s'.main.Succeeds := by
  cases h with
  | init hmain => exact ⟨nofun, nofun⟩
  | create i hmain =>
    match i with
    | 0 => exact ⟨nofun, nofun⟩
    | 1 => exact ⟨nofun, nofun⟩
  | join _ i hmain hreturned =>
    match i with
    | 0 => exact ⟨nofun, nofun⟩
    | 1 => exact ⟨nofun, nofun⟩
  | destroy _ hmain hfree => exact ⟨nofun, by simp⟩

/-- The state after the events `es`. -/
structure Reached (es : List Event) (s : State) : Prop where
  counted : Counted s
  length_le : s.weight + es.length ≤ 16
  succeeds : (∀ e ∈ es, e ≠ .main false) → s.main.Succeeds

/-- One more step, and one less to go. -/
theorem Reached.next {es : List Event} (h : Reached es s) (hstep : step s e = some s') :
    Reached (es ++ [e]) s' := by
  have hlength := h.length_le
  have hturn := step_turn hstep
  refine ⟨h.counted.next hstep, ?_, fun hok => ?_⟩
  · have hpays : s'.weight + 1 ≤ s.weight := by
      obtain ⟨ok, -, hmain⟩ | ⟨-, i, hthread⟩ := hturn
      · exact hmain.pays h.counted.main
      · exact hthread.pays
    rw [List.length_append, List.length_singleton]
    omega
  · obtain ⟨ok, rfl, hmain⟩ | ⟨-, i, hthread⟩ := hturn
    · cases ok with
      | true => exact hmain.succeeds
      | false => exact absurd rfl (hok (.main false) (by simp))
    · rw [hthread.main_eq]
      exact h.succeeds fun e he => hok e (List.mem_append_left _ he)

/-- The process starts with at most 16 steps to go. -/
theorem start_reached : Reached [] .start :=
  ⟨start_counted, Nat.le_refl 16, fun _ => ⟨nofun, nofun⟩⟩

/-- All that holds after the events of a run. -/
theorem run_reached {es : List Event} (hrun : es.foldlM step .start = some s) : Reached es s := by
  have hgathered : Reached ([] ++ es.flatMap fun e => [e]) s :=
    Runs.run_gathers (fun _ _ _ _ h hstep => h.next hstep) start_reached hrun
  simpa using hgathered

/-- Nobody can go on. -/
def Stuck (s : State) : Prop := ∀ e, step s e = none

/-- A process that is stuck has ended. -/
theorem Reached.ended {es : List Event} (h : Reached es s) (hstuck : Stuck s) :
    s.main.ended = true := by
  by_contra hended
  obtain ⟨e, s', -, hstep⟩ := h.counted.exists_step (by simpa using hended)
  rw [hstuck e] at hstep
  cases hstep

/-- What `main` leaves when it returns 0. -/
theorem Counted.complete (h : Counted s) (hmain : s.main = .exited 0) :
    s.counter = 2 ∧ s.printed = lines 2 ∧ s.mutex = .destroyed ∧
      ∀ i, s.threads i = .returned := by
  have hknows := h.main
  rw [hmain] at hknows
  obtain ⟨-, hmutex, hreturned⟩ | ⟨hcode, -⟩ := hknows
  · refine ⟨?_, ?_, hmutex, hreturned⟩
    · rw [h.counter, total_eq, hreturned, hreturned]
      rfl
    · rw [h.printed, total_eq, hreturned, hreturned]
      rfl
  · cases hcode

/-- However the threads are scheduled: nothing undefined is ever done, no two threads are at
    `counter` at once, the lines printed are the first of `Counter: 1` and `Counter: 2`, and
    after at most 16 steps the process has ended. If no call fails it ends with 0, and then
    both threads have returned, counted and printed, and the mutex has been destroyed. -/
theorem both_counted (es : List Event) (s : State) (hrun : es.foldlM step .start = some s) :
    (∀ e, outcome s e ≠ .undefined) ∧
      (∀ i j, (s.threads i).AtCounter → (s.threads j).AtCounter → i = j) ∧
      s.printed <+: [text 1, text 2] ∧
      es.length ≤ 16 ∧
      (Stuck s → s.main.ended = true) ∧
      (Stuck s → (∀ e ∈ es, e ≠ .main false) → s.main = .exited 0) ∧
      (s.main = .exited 0 → s.counter = 2 ∧ s.printed = [text 1, text 2] ∧
        s.mutex = .destroyed ∧ ∀ i, s.threads i = .returned) := by
  have hreached := run_reached hrun
  have hcounted := hreached.counted
  refine ⟨hcounted.defined, fun _ _ => hcounted.atCounter_unique, ?_, ?_, hreached.ended, ?_,
    hcounted.complete⟩
  · rw [hcounted.printed]
    exact lines_prefix (total_shown_le s)
  · have hlength := hreached.length_le
    omega
  · intro hstuck hok
    have hended := hreached.ended hstuck
    obtain ⟨haborted, hfailed⟩ := hreached.succeeds hok
    have hknows := hcounted.main
    -- it has exited with 0 or by a failure, and no call has failed
    cases hmain : s.main with
    | exited code =>
      rw [hmain] at hknows hfailed
      obtain ⟨rfl, -⟩ | ⟨rfl, -⟩ := hknows
      · rfl
      · exact absurd rfl hfailed
    | aborted => exact absurd hmain haborted
    | _ => rw [hmain] at hended; cases hended

/-- The threads run one after the other, the second one first. -/
def secondFirst : List Event :=
  List.replicate 3 (.main true) ++
    ((List.finRange 2).reverse.flatMap fun i => List.replicate 5 (.thread i)) ++
    List.replicate 3 (.main true)

/-- Its last state. -/
def secondFirstEnd : State := (secondFirst.foldlM step .start).getD .start

/-- In the run in which the second thread comes first both are counted. -/
theorem both_counted_second_first :
    secondFirstEnd.counter = 2 ∧ secondFirstEnd.printed = [text 1, text 2] ∧
      secondFirstEnd.mutex = .destroyed ∧ ∀ i, secondFirstEnd.threads i = .returned := by
  obtain ⟨-, -, -, -, -, -, hcomplete⟩ := both_counted secondFirst secondFirstEnd rfl
  exact hcomplete rfl

end PosixMutex
