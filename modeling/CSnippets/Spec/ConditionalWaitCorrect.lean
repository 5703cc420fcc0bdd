import CSnippets.ForStd.Monitor
import CSnippets.ForStd.Runs
import CSnippets.Native.ConditionalWait

/-!
# The functions print in turn

In every schedule the four functions print in order, and no thread waits for a broadcast
that is not going to come. The broadcast is made after the mutex has been given back, so
a thread may test `count` and block between the two; the invariant (`Known`) says that a
thread whose turn it is blocks only while another one is still on its way to its
broadcast.
-/

namespace ConditionalWait

/-- All threads in the order of their turns. -/
def order : List Thread := [.thread1, .thread2, .thread3, .thread4]

/-- The thread has printed its line. -/
def Pc.HasPrinted : Pc → Prop
  | .increment => True
  | .unlock => True
  | .broadcast => True
  | .returned => True
  | _ => False

/-- A broadcast is still to come. -/
def Announced (s : State) : Prop :=
  ∃ t, s.threads t = .unlock ∨ s.threads t = .broadcast

/-- The thread itself can go on: it is created or takes a step of its function. -/
def CanGoOn (s : State) (t : Thread) : Prop :=
  (∃ s', step s (.create t) = some s') ∨ ∃ s', step s (.run t) = some s'

/-- As long as a thread has not returned, one of those is not blocked in
    `pthread_cond_wait` and can go on. -/
def NoLostWakeup (s : State) : Prop :=
  (∃ t, s.threads t ≠ .returned) →
    ∃ t, s.threads t ≠ .returned ∧ s.threads t ≠ .blocked ∧ CanGoOn s t

/-! ## The turns -/

/-- No two functions wait for the same turn. -/
theorem turn_inj {t u : Thread} (h : t.routine.turn = u.routine.turn) : t = u := by
  cases t <;> cases u <;> first | rfl | exact absurd h (by decide)

/-- Each of the four turns is some function's. -/
theorem exists_turn {n : Nat} (hpos : 1 ≤ n) (hle : n ≤ 4) : ∃ t : Thread, t.routine.turn = n := by
  obtain rfl | rfl | rfl | rfl : n = 1 ∨ n = 2 ∨ n = 3 ∨ n = 4 := by omega
  · exact ⟨.thread1, rfl⟩
  · exact ⟨.thread2, rfl⟩
  · exact ⟨.thread3, rfl⟩
  · exact ⟨.thread4, rfl⟩

/-- The turns start from 1. -/
theorem turn_pos (t : Thread) : 1 ≤ t.routine.turn := by
  cases t <;> decide

/-- Only the last function does not pass the turn on. -/
theorem increments_iff (t : Thread) : t.routine.increments = true ↔ t.routine.turn < 4 := by
  cases t <;> decide

/-- The last turn is the fourth. -/
theorem turn_le (t : Thread) : t.routine.turn ≤ 4 := by
  cases t <;> decide

/-- Printing in turn. -/
theorem take_turn (t : Thread) {n : Nat} (h : t.routine.turn = n + 1) :
    order.take (n + 1) = order.take n ++ [t] := by
  obtain rfl : n = t.routine.turn - 1 := by omega
  cases t <;> rfl

/-! ## The mutex -/

/-- Where the mutex is concerned. -/
def Pc.phase : Pc → Monitor.Phase
  | .absent => .outside
  | .lock => .entering
  | .test => .inside
  | .print => .inside
  | .increment => .inside
  | .unlock => .inside
  | .broadcast => .outside
  | .returned => .outside
  | .wait => .inside
  | .blocked => .blocked
  | .relock => .woken
  | .unlockWait => .inside

/-- The mutex and the threads as a monitor. -/
def State.view (s : State) : Monitor.State Thread :=
  { mutex := s.mutex, phase := fun t => (s.threads t).phase }

variable {s s' : State} {t u : Thread} {pc : Pc} {e : Event}

/-- A thread that moves changes its phase and no other. -/
theorem view_goto : (s.goto t pc).view = s.view.move t pc.phase := by
  have hphase : (fun u => (Function.update s.threads t pc u).phase) =
      Function.update (fun u => (s.threads u).phase) t pc.phase :=
    funext fun u => Function.apply_update (fun _ => Pc.phase) s.threads t pc u
  simp only [State.view, State.goto, Monitor.State.move, hphase]

/-- A thread that stays in its phase. -/
theorem view_goto_same (h : pc.phase = (s.threads t).phase) : (s.goto t pc).view = s.view := by
  rw [view_goto, Monitor.State.move, h]
  show { s.view with phase := Function.update s.view.phase t (s.view.phase t) } = s.view
  rw [Function.update_eq_self]

/-- Locking needs a free mutex, and takes it. -/
theorem lock_cases (h : s.lock t pc = some s') :
    s.mutex = none ∧ s' = { s.goto t pc with mutex := some t } := by
  rw [State.lock] at h
  split at h
  · exact ⟨‹_›, (Option.some.inj h).symm⟩
  · cases h

/-- Unlocking needs the mutex, and gives it back. -/
theorem unlock_cases (h : s.unlock t pc = some s') :
    s.mutex = some t ∧ s' = { s.goto t pc with mutex := none } := by
  rw [State.unlock] at h
  split at h
  · exact ⟨‹_›, (Option.some.inj h).symm⟩
  · cases h

/-! ## What a step does -/

/-- A thread moves on without touching `count` or the output. -/
inductive Next (s : State) (t : Thread) : Pc → Pc → Prop where
  | create : Next s t .absent .lock
  | lock : Next s t .lock .test
  | turn (h : s.count = t.routine.turn) : Next s t .test .print
  | notTurn (h : s.count ≠ t.routine.turn) : Next s t .test .wait
  | unlock : Next s t .unlock .broadcast
  | wait : Next s t .wait .blocked
  | wake : Next s t .blocked .relock
  | relock : Next s t .relock .unlockWait
  | unlockWait : Next s t .unlockWait .lock

/-- What a step does to `count`, the output and the mutex. -/
inductive Effect (s : State) : State → Prop where
  | move (t : Thread) (pc : Pc) (m : Option Thread) (hnext : Next s t (s.threads t) pc)
      (hview : Monitor.Step s.view { s.view.move t pc.phase with mutex := m }) :
    Effect s { s.goto t pc with mutex := m }
  | print (t : Thread) (hpc : s.threads t = .print) :
    Effect s { s.goto t (if t.routine.increments then .increment else .unlock) with
                 printed := s.printed ++ [t.routine.text] }
  | increment (t : Thread) (hpc : s.threads t = .increment) :
    Effect s { s.goto t .unlock with count := s.count + 1 }
  | broadcast (t : Thread) (hpc : s.threads t = .broadcast) :
    Effect s { s with threads := Function.update (fun u => (s.threads u).wake) t .returned }

/-- A move outside the mutex. -/
private theorem effect_arrive (hnext : Next s t (s.threads t) pc)
    (ht : (s.threads t).phase ≠ .inside) (hpc : pc.phase ≠ .inside) : Effect s (s.goto t pc) :=
  .move t pc s.mutex hnext (.arrive t pc.phase ht hpc)

/-- Taking the mutex is a move. -/
private theorem effect_lock (hnext : Next s t (s.threads t) pc) (hpc : pc.phase = .inside)
    (h : s.lock t pc = some s') : Effect s s' := by
  obtain ⟨hfree, rfl⟩ := lock_cases h
  apply Effect.move t pc _ hnext
  rw [hpc]
  exact .acquire t hfree

/-- Giving the mutex back is a move. -/
private theorem effect_unlock (hnext : Next s t (s.threads t) pc) (hpc : pc.phase ≠ .inside)
    (h : s.unlock t pc = some s') : Effect s s' := by
  obtain ⟨hheld, rfl⟩ := unlock_cases h
  exact .move t pc _ hnext (.release t pc.phase hheld hpc)

/-- A move inside. -/
private theorem effect_inside (hnext : Next s t (s.threads t) pc)
    (h : pc.phase = (s.threads t).phase) : Effect s (s.goto t pc) := by
  apply Effect.move t pc s.mutex hnext
  have hview := view_goto_same h
  rw [view_goto] at hview
  rw [show { s.view.move t pc.phase with mutex := s.mutex } = s.view from hview]
  exact .stay

/-- All that a step can do. -/
theorem step_effect (h : step s e = some s') : Effect s s' := by
  cases e with
  | create t =>
    rw [step] at h
    split at h
    · rename_i hpc
      obtain rfl := Option.some.inj h
      exact effect_arrive (hpc ▸ .create) (by rw [hpc]; decide) (by decide)
    · cases h
  | spurious t =>
    rw [step] at h
    split at h
    · rename_i hpc
      obtain rfl := Option.some.inj h
      exact effect_arrive (hpc ▸ .wake) (by rw [hpc]; decide) (by decide)
    · cases h
  | run t =>
    rw [step, run] at h
    cases hpc : s.threads t with
    | absent => rw [hpc] at h; cases h
    | lock => rw [hpc] at h; exact effect_lock (hpc ▸ .lock) rfl h
    | test =>
      -- the turn is tested while the mutex is held
      rw [hpc] at h
      obtain rfl := Option.some.inj h
      by_cases hturn : s.count = t.routine.turn
      · rw [if_pos hturn]
        exact effect_inside (hpc ▸ .turn hturn) (by rw [hpc]; rfl)
      · rw [if_neg hturn]
        exact effect_inside (hpc ▸ .notTurn hturn) (by rw [hpc]; rfl)
    | print =>
      rw [hpc] at h
      obtain rfl := Option.some.inj h
      exact .print t hpc
    | increment =>
      rw [hpc] at h
      obtain rfl := Option.some.inj h
      exact .increment t hpc
    | unlock => rw [hpc] at h; exact effect_unlock (hpc ▸ .unlock) (by decide) h
    | broadcast =>
      rw [hpc] at h
      obtain rfl := Option.some.inj h
      exact .broadcast t hpc
    | returned => rw [hpc] at h; cases h
    | wait => rw [hpc] at h; exact effect_unlock (hpc ▸ .wait) (by decide) h
    | blocked => rw [hpc] at h; cases h
    | relock => rw [hpc] at h; exact effect_lock (hpc ▸ .relock) rfl h
    | unlockWait => rw [hpc] at h; exact effect_unlock (hpc ▸ .unlockWait) (by decide) h

/-- The mutex is used as a mutex. -/
theorem Effect.view (h : Effect s s') : Monitor.Step s.view s'.view := by
  cases h with
  | move t pc m hnext hview =>
    have hgoto : State.view { s.goto t pc with mutex := m } =
        { s.view.move t pc.phase with mutex := m } := by rw [← view_goto]; rfl
    rw [hgoto]
    exact hview
  | print t hpc =>
    have hgoto : (s.goto t (if t.routine.increments then .increment else .unlock)).view =
        s.view := by
      apply view_goto_same
      rw [hpc]
      split <;> rfl
    show Monitor.Step s.view (s.goto t _).view
    rw [hgoto]
    exact .stay
  | increment t hpc =>
    show Monitor.Step s.view (s.goto t .unlock).view
    rw [view_goto_same (by rw [hpc]; rfl)]
    exact .stay
  | broadcast t hpc =>
    -- the thread itself was outside already, and all others are woken
    have hwake : State.view { s with
          threads := Function.update (fun u => (s.threads u).wake) t .returned } =
        { s.view with phase := fun u => (s.view.phase u).wake } := by
      simp only [State.view, Monitor.State.mk.injEq, true_and]
      funext u
      by_cases hu : u = t
      · subst hu
        rw [Function.update_self, hpc]
        rfl
      · rw [Function.update_of_ne hu]
        cases s.threads u <;> rfl
    rw [hwake]
    exact .broadcast

/-! ## What the threads know -/

/-- What `count` is for the thread `t` at `pc`. If it blocks though it is its turn, a
    broadcast is still to come. -/
def Known (s : State) (t : Thread) : Pc → Prop
  | .print => s.count = t.routine.turn
  | .increment => s.count = t.routine.turn ∧ t.routine.turn < 4
  -- the last function leaves `count` at its own turn
  | .unlock => t.routine.turn < s.count ∨ t.routine.turn = 4
  | .broadcast => t.routine.turn < s.count ∨ t.routine.turn = 4
  | .returned => t.routine.turn < s.count ∨ t.routine.turn = 4
  | .wait => s.count < t.routine.turn
  | .blocked => s.count ≤ t.routine.turn ∧ (s.count = t.routine.turn → Announced s)
  | _ => s.count ≤ t.routine.turn

/-- A thread that has not printed yet has not missed its turn. -/
theorem Known.le (h : Known s t pc) (hpc : ¬ pc.HasPrinted) : s.count ≤ t.routine.turn := by
  cases pc with
  | absent => exact h
  | lock => exact h
  | test => exact h
  | print => exact Nat.le_of_eq h
  | increment => exact absurd trivial hpc
  | unlock => exact absurd trivial hpc
  | broadcast => exact absurd trivial hpc
  | returned => exact absurd trivial hpc
  | wait => exact Nat.le_of_lt h
  | blocked => exact h.1
  | relock => exact h
  | unlockWait => exact h

/-- With the same `count`, only a broadcast that was made could matter. -/
theorem Known.congr (h : Known s t pc) (hcount : s'.count = s.count)
    (hannounced : Announced s → Announced s') : Known s' t pc := by
  cases pc with
  | blocked =>
    show s'.count ≤ _ ∧ (s'.count = _ → Announced s')
    rw [hcount]
    exact ⟨h.1, fun hturn => hannounced (h.2 hturn)⟩
  | _ =>
    simp only [Known, hcount]
    exact h

/-- A thread that moves on knows what it has to. -/
theorem Next.known {pc' : Pc} (hnext : Next s t pc pc') (h : Known s t pc) : Known s t pc' := by
  cases hnext with
  | create => exact h
  | lock => exact h
  | turn hturn => exact hturn
  | notTurn hturn => exact Nat.lt_of_le_of_ne h hturn
  | unlock => exact h
  | wait => exact ⟨Nat.le_of_lt h, fun hturn => absurd hturn (Nat.ne_of_lt h)⟩
  | wake => exact h.1
  | relock => exact h
  | unlockWait => exact h

/-- Moving on prints nothing. -/
theorem Next.hasPrinted_iff {pc' : Pc} (hnext : Next s t pc pc') :
    pc'.HasPrinted ↔ pc.HasPrinted := by
  cases hnext <;> exact Iff.rfl

/-- The threads that have printed are those of the first turns. -/
def Printed (s : State) : Prop :=
  ∃ n, s.printed = (order.take n).map (fun t => t.routine.text) ∧
    ∀ t, (s.threads t).HasPrinted ↔ t.routine.turn ≤ n

/-- The invariant. -/
structure InTurn (s : State) : Prop where
  owned : Monitor.Owned s.view
  pos : 1 ≤ s.count
  le : s.count ≤ 4
  known : ∀ t, Known s t (s.threads t)
  printed : Printed s

/-- At the start the first function has the turn and nobody has printed. -/
theorem start_inTurn : InTurn State.start where
  owned t := iff_of_false nofun nofun
  pos := Nat.le_refl 1
  le := by decide
  known t := turn_pos t
  printed := ⟨0, rfl, fun t => iff_of_false not_false (Nat.not_le.mpr (turn_pos t))⟩

/-- A broadcast that is announced stays so until it is made. -/
theorem Announced.update (h : Announced s) (hthreads : s'.threads = Function.update s.threads t pc)
    (hpc : s.threads t = .unlock ∨ s.threads t = .broadcast → pc = .unlock ∨ pc = .broadcast) :
    Announced s' := by
  obtain ⟨u, hu⟩ := h
  refine ⟨u, ?_⟩
  rw [hthreads]
  by_cases hut : u = t
  · subst hut
    rw [Function.update_self]
    exact hpc hu
  · rw [Function.update_of_ne hut]
    exact hu

/-- A broadcast that is to come stays to come when its thread moves on. -/
theorem Next.announced (hnext : Next s t (s.threads t) pc)
    (h : s.threads t = .unlock ∨ s.threads t = .broadcast) : pc = .unlock ∨ pc = .broadcast := by
  obtain h | h := h
  · rw [h] at hnext
    cases hnext
    exact Or.inr rfl
  · rw [h] at hnext
    cases hnext

/-- Nobody else is inside while a thread prints or counts. -/
theorem InTurn.alone (h : InTurn s) (ht : (s.threads t).phase = .inside) (hu : u ≠ t) :
    (s.threads u).phase ≠ .inside :=
  fun hinside => hu (h.owned.unique hinside ht)

/-- What the invariant says of a thread at its place. -/
theorem InTurn.known_at (h : InTurn s) (hpc : s.threads t = pc) : Known s t pc :=
  hpc ▸ h.known t

/-- Outside the mutex, what is known stays true when the turn passes on, and the
    broadcast to come is that of the thread which counts. -/
theorem Known.counted (h : Known s u pc) (hturn : s.count = t.routine.turn) (hu : u ≠ t)
    (hpc : pc.phase ≠ .inside) (hcount : s'.count = s.count + 1) (hannounced : Announced s') :
    Known s' u pc := by
  have hne : s.count ≠ u.routine.turn := fun heq => hu (turn_inj (heq.symm.trans hturn))
  have hle (h : s.count ≤ u.routine.turn) : s'.count ≤ u.routine.turn := by omega
  have hlt (h : u.routine.turn < s.count) : u.routine.turn < s'.count := by omega
  cases pc with
  | absent => exact hle h
  | lock => exact hle h
  | relock => exact hle h
  | blocked => exact ⟨hle h.1, fun _ => hannounced⟩
  | broadcast => exact h.imp_left hlt
  | returned => exact h.imp_left hlt
  | _ => exact absurd rfl hpc

/-- Every step keeps what is known of each thread. -/
theorem InTurn.known_step (h : InTurn s) (heffect : Effect s s') (u : Thread) :
    Known s' u (s'.threads u) := by
  cases heffect with
  | move t pc m hnext _ =>
    have hannounced (ha : Announced s) : Announced { s.goto t pc with mutex := m } :=
      ha.update rfl hnext.announced
    show Known _ u (Function.update s.threads t pc u)
    by_cases hu : u = t
    · subst hu
      rw [Function.update_self]
      apply Known.congr (hnext.known (h.known u))
      · rfl
      · exact hannounced
    · rw [Function.update_of_ne hu]
      apply Known.congr (h.known u)
      · rfl
      · exact hannounced
  | print t hpc =>
    have hturn : s.count = t.routine.turn := h.known_at hpc
    show Known _ u (Function.update s.threads t _ u)
    by_cases hu : u = t
    · subst hu
      rw [Function.update_self]
      have hiff := increments_iff u
      have hle := turn_le u
      split
      · exact ⟨hturn, hiff.mp ‹_›⟩
      · rename_i hlast
        rw [hiff] at hlast
        right
        omega
    · rw [Function.update_of_ne hu]
      apply Known.congr (h.known u)
      · rfl
      · -- the thread that prints was not on its way to a broadcast
        intro hannounced
        apply hannounced.update rfl
        rw [hpc]
        exact nofun
  | increment t hpc =>
    -- the others are outside the mutex: those blocked learn of the turn by the broadcast
    obtain ⟨hturn, -⟩ : s.count = t.routine.turn ∧ t.routine.turn < 4 := h.known_at hpc
    show Known _ u (Function.update s.threads t .unlock u)
    by_cases hu : u = t
    · subst hu
      rw [Function.update_self]
      exact Or.inl (Nat.lt_succ_of_le (Nat.le_of_eq hturn.symm))
    · rw [Function.update_of_ne hu]
      apply (h.known u).counted hturn hu (h.alone (by rw [hpc]; rfl) hu)
      · rfl
      · exact ⟨t, Or.inl (Function.update_self ..)⟩
  | broadcast t hpc =>
    show Known _ u (Function.update (fun u => (s.threads u).wake) t .returned u)
    by_cases hu : u = t
    · subst hu
      rw [Function.update_self]
      exact h.known_at hpc
    · rw [Function.update_of_ne hu]
      -- nobody is blocked behind the broadcast
      have hknown := h.known u
      cases hold : s.threads u with
      | blocked =>
        rw [hold] at hknown
        exact hknown.1
      | _ =>
        rw [hold] at hknown
        exact hknown

/-- A step that prints nothing. -/
theorem Printed.congr (h : Printed s) (hprinted : s'.printed = s.printed)
    (hiff : ∀ u, (s'.threads u).HasPrinted ↔ (s.threads u).HasPrinted) : Printed s' := by
  obtain ⟨n, htext, hthreads⟩ := h
  exact ⟨n, hprinted.trans htext, fun u => (hiff u).trans (hthreads u)⟩

/-- A thread that moves without printing. -/
theorem hasPrinted_update (h : pc.HasPrinted ↔ (s.threads t).HasPrinted) (u : Thread) :
    (Function.update s.threads t pc u).HasPrinted ↔ (s.threads u).HasPrinted := by
  by_cases hu : u = t
  · subst hu
    rw [Function.update_self]
    exact h
  · rw [Function.update_of_ne hu]

/-- The thread that prints is the next in turn. -/
theorem InTurn.turn_eq (h : InTurn s) (hpc : s.threads t = .print) {n : Nat}
    (hthreads : ∀ u, (s.threads u).HasPrinted ↔ u.routine.turn ≤ n) : t.routine.turn = n + 1 := by
  have hturn : s.count = t.routine.turn := h.known_at hpc
  have hlt : n < t.routine.turn := by
    rw [← Nat.not_le, ← hthreads t, hpc]
    exact not_false
  by_cases hfirst : t.routine.turn = 1
  · omega
  · -- the thread in front of it has printed
    have hpos := turn_pos t
    have hle := turn_le t
    obtain ⟨u, hu⟩ := exists_turn (n := t.routine.turn - 1) (by omega) (by omega)
    have hprinted : (s.threads u).HasPrinted := by
      by_contra hnot
      have := (h.known u).le hnot
      omega
    have := (hthreads u).mp hprinted
    omega

/-- Every step keeps the printed lines those of the turns before. -/
theorem InTurn.printed_step (h : InTurn s) (heffect : Effect s s') : Printed s' := by
  cases heffect with
  | move t pc m hnext _ =>
    apply h.printed.congr
    · rfl
    · exact hasPrinted_update hnext.hasPrinted_iff
  | print t hpc =>
    obtain ⟨n, htext, hthreads⟩ := h.printed
    -- who prints is the one whose turn it is
    have hturn := h.turn_eq hpc hthreads
    refine ⟨n + 1, ?_, fun u => ?_⟩
    · rw [take_turn t hturn, List.map_append, ← htext]
      rfl
    · show (Function.update s.threads t _ u).HasPrinted ↔ _
      -- the others keep their turn, and one more thread has printed
      by_cases hu : u = t
      · subst hu
        rw [Function.update_self]
        apply iff_of_true
        · split <;> trivial
        · exact Nat.le_of_eq hturn
      · rw [Function.update_of_ne hu, hthreads u]
        have hne : u.routine.turn ≠ t.routine.turn := fun heq => hu (turn_inj heq)
        omega
  | increment t hpc =>
    apply h.printed.congr
    · rfl
    · exact hasPrinted_update (by rw [hpc]; exact Iff.rfl)
  | broadcast t hpc =>
    apply h.printed.congr
    · rfl
    · intro u
      show (Function.update (fun u => (s.threads u).wake) t .returned u).HasPrinted ↔ _
      by_cases hu : u = t
      · subst hu
        rw [Function.update_self, hpc]
        exact Iff.rfl
      · rw [Function.update_of_ne hu]
        -- a thread that is woken has printed as much as when it waited
        cases s.threads u <;> exact Iff.rfl

/-- Every step keeps the invariant. -/
theorem InTurn.step (h : InTurn s) (hstep : step s e = some s') : InTurn s' := by
  have heffect := step_effect hstep
  have hcount : 1 ≤ s'.count ∧ s'.count ≤ 4 := by
    have hpos := h.pos
    have hle := h.le
    cases heffect with
    | move t pc m _ _ => exact ⟨hpos, hle⟩
    | print t hpc => exact ⟨hpos, hle⟩
    | increment t hpc =>
      -- a thread increments only in its own turn, and the last thread never does
      obtain ⟨hturn, hlt⟩ : s.count = t.routine.turn ∧ t.routine.turn < 4 := h.known_at hpc
      show 1 ≤ s.count + 1 ∧ s.count + 1 ≤ 4
      omega
    | broadcast t hpc => exact ⟨hpos, hle⟩
  exact
    { owned := h.owned.step heffect.view
      pos := hcount.1
      le := hcount.2
      known := h.known_step heffect
      printed := h.printed_step heffect }

/-! ## Going on -/

/-- A thread that the monitor lets go on can take its step. -/
theorem InTurn.canGoOn (h : InTurn s) (hready : Monitor.Ready s.view t) : CanGoOn s t := by
  right
  show ∃ s', run t.routine s t = some s'
  rw [run]
  obtain hinside | ⟨hfree, hphase⟩ := hready
  · have hmutex : s.mutex = some t := (h.owned t).mpr hinside
    replace hinside : (s.threads t).phase = .inside := hinside
    cases hpc : s.threads t with
    | test => exact ⟨_, rfl⟩
    | print => exact ⟨_, rfl⟩
    | increment => exact ⟨_, rfl⟩
    | unlock => exact ⟨_, if_pos hmutex⟩
    | wait => exact ⟨_, if_pos hmutex⟩
    | unlockWait => exact ⟨_, if_pos hmutex⟩
    | _ =>
      rw [hpc] at hinside
      cases hinside
  · replace hphase : (s.threads t).phase = .entering ∨ (s.threads t).phase = .woken := hphase
    cases hpc : s.threads t with
    | lock => exact ⟨_, if_pos hfree⟩
    | relock => exact ⟨_, if_pos hfree⟩
    | _ =>
      rw [hpc] at hphase
      obtain hphase | hphase := hphase <;> cases hphase

/-- When all threads have returned or block, all have returned. -/
theorem InTurn.returned (h : InTurn s)
    (hrest : ∀ t, s.threads t = .returned ∨ s.threads t = .blocked) (t : Thread) :
    s.threads t = .returned := by
  obtain ⟨u, hu⟩ := exists_turn h.pos h.le
  obtain ht | ht := hrest t
  · exact ht
  · exfalso
    obtain hlast | hblocked := hrest u
    · -- only the last function returns in its own turn, and `t` would come behind it
      have hpast : u.routine.turn < s.count ∨ u.routine.turn = 4 := h.known_at hlast
      have hle : s.count ≤ t.routine.turn := (h.known t).le (by rw [ht]; exact not_false)
      have hmax := turn_le t
      obtain rfl : t = u := turn_inj (by omega)
      rw [ht] at hlast
      cases hlast
    · -- the thread whose turn it is has a broadcast coming
      have hknown : s.count ≤ u.routine.turn ∧ (s.count = u.routine.turn → Announced s) :=
        h.known_at hblocked
      obtain ⟨v, hv⟩ := hknown.2 hu.symm
      obtain hrest | hrest := hrest v <;> rw [hrest] at hv <;> simp at hv

/-- A thread that has not returned never leaves all the others blocked with it. -/
theorem InTurn.noLostWakeup (h : InTurn s) : NoLostWakeup s := by
  rintro ⟨t, ht⟩
  by_contra hnone
  have hstuck (u : Thread) (hreturned : s.threads u ≠ .returned)
      (hblocked : s.threads u ≠ .blocked) : ¬ CanGoOn s u :=
    fun hgo => hnone ⟨u, hreturned, hblocked, hgo⟩
  -- so nobody is on its way through the mutex, or the holder could go on
  have hready (u : Thread) : ¬ Monitor.Ready s.view u := by
    intro hready
    refine hstuck u (fun hpc => ?_) (fun hpc => ?_) (h.canGoOn hready)
    · simp [Monitor.Ready, State.view, hpc, Pc.phase] at hready
    · simp [Monitor.Ready, State.view, hpc, Pc.phase] at hready
  apply ht
  apply h.returned
  intro u
  have hwaiting : ¬ ((s.threads u).phase = .inside ∨ (s.threads u).phase = .entering ∨
      (s.threads u).phase = .woken) := by
    intro hphase
    obtain ⟨v, hv⟩ := h.owned.exists_ready hphase
    exact hready v hv
  cases hpc : s.threads u with
  | absent =>
    refine absurd (Or.inl ⟨s.goto u .lock, if_pos hpc⟩) (hstuck u ?_ ?_)
    · simp [hpc]
    · simp [hpc]
  | broadcast =>
    have hgo : CanGoOn s u := by
      right
      show ∃ s', run u.routine s u = some s'
      rw [run, hpc]
      exact ⟨_, rfl⟩
    refine absurd hgo (hstuck u ?_ ?_)
    · simp [hpc]
    · simp [hpc]
  | returned => exact Or.inl rfl
  | blocked => exact Or.inr rfl
  | _ =>
    rw [hpc] at hwaiting
    exact absurd (by decide) hwaiting

/-- In every schedule, with spurious wake-ups at any place, the lines printed are the
    first ones in order, and no wake-up is lost. -/
theorem functions_in_turn (schedule : List Event) :
    Runs.Always step
      (fun s => s.printed <+: order.map (fun t => t.routine.text) ∧ NoLostWakeup s)
      State.start schedule := by
  apply Runs.Always.of_preserved (J := InTurn)
  · intro s h
    obtain ⟨n, htext, -⟩ := h.printed
    refine ⟨?_, h.noLostWakeup⟩
    rw [htext, List.map_take]
    exact List.take_prefix n _
  · exact fun s e s' h hstep => h.step hstep
  · exact start_inTurn

end ConditionalWait
