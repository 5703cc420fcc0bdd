import CSnippets.Spec.ConditionalWaitCorrect

/-!
# The functions come to an end

Each function broadcasts once, so a thread is woken only so many times: a measure pays for
every step of a thread, and only wake-ups that nobody caused bring something in. With
`InTurn` a run that no thread can continue is complete.
-/

namespace ConditionalWait

/-- How far a thread has to go; a broadcast pays for waking the three others. -/
def Pc.weight : Pc → Nat
  | .relock => 28
  | .absent => 27
  | .unlockWait => 27
  | .lock => 26
  | .test => 25
  | .wait => 24
  | .blocked => 23
  | .print => 23
  | .increment => 22
  | .unlock => 21
  | .broadcast => 20
  | .returned => 0

/-- The measure of a state. -/
def State.weight (s : State) : Nat := (order.map fun t => (s.threads t).weight).sum

/-- The event is a wake-up that nobody caused. -/
def Event.isSpurious : Event → Bool
  | .create _ => false
  | .run _ => false
  | .spurious _ => true

/-- A step that is not spurious costs one. -/
def Event.cost (e : Event) : Nat := if e.isSpurious then 0 else 1

/-- A spurious wake-up sends a thread round once more. -/
def Event.income (e : Event) : Nat := if e.isSpurious then 5 else 0

variable {s s' : State} {t : Thread} {pc pc' : Pc} {e : Event}

/-- The weight of a state is the sum of the four threads' weights. -/
theorem weight_eq (s : State) : s.weight = (s.threads .thread1).weight +
    ((s.threads .thread2).weight + ((s.threads .thread3).weight + (s.threads .thread4).weight)) := by
  simp [State.weight, order]

/-- One thread moves. -/
theorem weight_goto (s : State) (t : Thread) (pc : Pc) :
    (s.goto t pc).weight + (s.threads t).weight = s.weight + pc.weight := by
  rw [weight_eq, weight_eq]
  cases t <;> simp [State.goto, Function.update] <;> omega

/-- Waking a thread costs at most five steps more. -/
theorem weight_wake_le (pc : Pc) : pc.wake.weight ≤ pc.weight + 5 := by
  cases pc <;> decide

/-- A thread broadcasts and returns. -/
theorem weight_broadcast (s : State) (h : s.threads t = .broadcast) :
    State.weight { s with
        threads := Function.update (fun u => (s.threads u).wake) t .returned } + 5 ≤ s.weight := by
  have h₁ := weight_wake_le (s.threads .thread1)
  have h₂ := weight_wake_le (s.threads .thread2)
  have h₃ := weight_wake_le (s.threads .thread3)
  have h₄ := weight_wake_le (s.threads .thread4)
  have hself : (s.threads t).weight = 20 := by rw [h]; rfl
  have hreturned : Pc.returned.weight = 0 := rfl
  rw [weight_eq, weight_eq]
  cases t <;> simp [Function.update, hreturned] <;> omega

/-- A thread that goes one step further. -/
theorem weight_next (h : s.threads t = pc') (hlt : pc.weight < pc'.weight) :
    (s.goto t pc).weight + 1 ≤ s.weight := by
  have hgoto := weight_goto s t pc
  rw [h] at hgoto
  omega

/-- Locking the mutex takes weight off. -/
theorem lock_pays (h : s.lock t pc = some s') (hpc : s.threads t = pc')
    (hlt : pc.weight < pc'.weight) : s'.weight + 1 ≤ s.weight := by
  obtain ⟨-, rfl⟩ := lock_cases h
  exact weight_next hpc hlt

/-- Giving the mutex back takes weight off. -/
theorem unlock_pays (h : s.unlock t pc = some s') (hpc : s.threads t = pc')
    (hlt : pc.weight < pc'.weight) : s'.weight + 1 ≤ s.weight := by
  obtain ⟨-, rfl⟩ := unlock_cases h
  exact weight_next hpc hlt

/-- Every step of a function lowers the measure. -/
theorem run_pays (h : run t.routine s t = some s') : s'.weight + 1 ≤ s.weight := by
  rw [run] at h
  -- the step leads to a place of less weight, and may change who has the mutex
  cases hpc : s.threads t with
  | absent => rw [hpc] at h; cases h
  | lock => rw [hpc] at h; exact lock_pays h hpc (by decide)
  | test =>
    rw [hpc] at h
    obtain rfl := Option.some.inj h
    split
    · exact weight_next hpc (by decide)
    · exact weight_next hpc (by decide)
  | print =>
    rw [hpc] at h
    obtain rfl := Option.some.inj h
    show (s.goto t (if t.routine.increments then .increment else .unlock)).weight + 1 ≤ s.weight
    split
    · exact weight_next hpc (by decide)
    · exact weight_next hpc (by decide)
  | increment =>
    rw [hpc] at h
    obtain rfl := Option.some.inj h
    show (s.goto t .unlock).weight + 1 ≤ s.weight
    exact weight_next hpc (by decide)
  | unlock => rw [hpc] at h; exact unlock_pays h hpc (by decide)
  | broadcast =>
    rw [hpc] at h
    obtain rfl := Option.some.inj h
    -- those it wakes weigh more, but the broadcast weighs more than all of that
    have := weight_broadcast s hpc
    omega
  | returned => rw [hpc] at h; cases h
  | wait => rw [hpc] at h; exact unlock_pays h hpc (by decide)
  | blocked => rw [hpc] at h; cases h
  | relock => rw [hpc] at h; exact lock_pays h hpc (by decide)
  | unlockWait => rw [hpc] at h; exact unlock_pays h hpc (by decide)

/-- Every step pays for itself, up to what it brings in. -/
theorem step_pays (h : step s e = some s') : s'.weight + e.cost ≤ s.weight + e.income := by
  cases e with
  | create t =>
    rw [step] at h
    split at h
    · rename_i hpc
      obtain rfl := Option.some.inj h
      exact weight_next hpc (by decide)
    · cases h
  | run t => exact run_pays h
  | spurious t =>
    rw [step] at h
    split at h
    · rename_i hpc
      obtain rfl := Option.some.inj h
      have hgoto := weight_goto s t .relock
      rw [hpc] at hgoto
      simp only [Pc.weight] at hgoto
      show (s.goto t .relock).weight + 0 ≤ s.weight + 5
      omega
    · cases h

/-- All steps but the spurious wake-ups cost one. -/
theorem sum_cost (es : List Event) :
    (es.map Event.cost).sum + es.countP Event.isSpurious = es.length := by
  induction es with
  | nil => rfl
  | cons e es ih =>
    rw [List.map_cons, List.sum_cons, List.length_cons]
    cases hspurious : e.isSpurious with
    | true =>
      rw [List.countP_cons_of_pos hspurious, Event.cost, hspurious, if_pos rfl]
      omega
    | false =>
      rw [List.countP_cons_of_neg (by simp [hspurious]), Event.cost, hspurious,
        if_neg Bool.false_ne_true]
      omega

/-- Only the spurious wake-ups bring anything in, five each. -/
theorem sum_income (es : List Event) :
    (es.map Event.income).sum = 5 * es.countP Event.isSpurious := by
  induction es with
  | nil => rfl
  | cons e es ih =>
    rw [List.map_cons, List.sum_cons, ih]
    cases hspurious : e.isSpurious with
    | true =>
      rw [List.countP_cons_of_pos hspurious, Event.income, hspurious, if_pos rfl]
      omega
    | false =>
      rw [List.countP_cons_of_neg (by simp [hspurious]), Event.income, hspurious,
        if_neg Bool.false_ne_true]
      omega

/-- Nobody can go on but by a wake-up that nobody caused. -/
def Stuck (s : State) : Prop := ∀ t, ¬ CanGoOn s t

/-- The turns are kept in every run. -/
theorem run_inTurn {es : List Event} (hrun : es.foldlM step .start = some s) : InTurn s :=
  Runs.Always.final (Runs.Always.of_preserved (fun _ h => h) (fun _ _ _ h hstep => h.step hstep)
    start_inTurn) hrun

/-- When nobody can go on all functions have printed and returned. -/
theorem InTurn.complete (h : InTurn s) (hstuck : Stuck s) :
    (∀ t, s.threads t = .returned) ∧ s.printed = order.map fun t => t.routine.text := by
  have hreturned (t : Thread) : s.threads t = .returned := by
    by_contra hne
    obtain ⟨u, -, -, hgo⟩ := h.noLostWakeup ⟨t, hne⟩
    exact hstuck u hgo
  refine ⟨hreturned, ?_⟩
  obtain ⟨n, htext, hthreads⟩ := h.printed
  have hprinted : (s.threads .thread4).HasPrinted := by
    rw [hreturned]
    trivial
  have hn : order.length ≤ n := (hthreads .thread4).mp hprinted
  rw [htext, List.map_take, List.take_of_length_le]
  rw [List.length_map]
  exact hn

/-- However the threads are scheduled, with any number of spurious wake-ups: a run has at most
    108 steps and 6 for each of these wake-ups, and when nobody can go on any more all four
    functions have printed their lines, in order, and returned. -/
theorem functions_end (es : List Event) (s : State) (hrun : es.foldlM step .start = some s) :
    es.length ≤ 108 + 6 * es.countP Event.isSpurious ∧
      (Stuck s → (∀ t, s.threads t = .returned) ∧
        s.printed = order.map fun t => t.routine.text) := by
  refine ⟨?_, (run_inTurn hrun).complete⟩
  have hstep (s : State) (e : Event) (s' : State) (h : step s e = some s') :
      s'.weight + e.cost ≤ s.weight + e.income := step_pays h
  have hpays : s.weight + (es.map Event.cost).sum ≤
      State.start.weight + (es.map Event.income).sum :=
    Runs.run_pays hstep hrun
  rw [sum_income] at hpays
  have hstart : State.start.weight = 108 := rfl
  have hcost := sum_cost es
  omega

/-- All threads are created, and each runs when it is its turn. -/
def oneByOne : List Event :=
  order.map .create ++
    order.flatMap fun t => List.replicate (if t.routine.increments then 6 else 5) (.run t)

/-- Its last state. -/
def oneByOneEnd : State := (oneByOne.foldlM step .start).getD .start

/-- In the run of one thread after the other all functions end, with their lines in order. -/
theorem functions_end_one_by_one :
    (∀ t, oneByOneEnd.threads t = .returned) ∧
      oneByOneEnd.printed = order.map fun t => t.routine.text := by
  refine (functions_end oneByOne oneByOneEnd rfl).2 fun t hgo => ?_
  obtain ⟨s', hcreate⟩ | ⟨s', hrun⟩ := hgo
  · cases t <;> cases hcreate
  · cases t <;> cases hrun

end ConditionalWait
