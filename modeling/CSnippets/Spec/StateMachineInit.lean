import CSnippets.Spec.StateMachineIds

/-!
# Which `init` callbacks are called

The loop of `smInit` starts at the sentinel and acts on the node it stands on as long
as there is a next one. So it calls the `init` of the sentinel, which is null, and of
every registered state but the last.
-/

namespace StateMachine

open SentinelList

variable {sm sm' : Sm} {l : List (Addr × SystemState)}

/-! ## The loop -/

/-- The loop calls `init` of every node but the last, from the one it starts with. -/
theorem initLoop_eq {mem : Memory SystemState} {a : Addr} {s : SystemState} {fuel : Nat}
    (h : IsList mem a l) (hval : valOf mem a = some s) (hfuel : l.length < fuel) :
    initLoop mem fuel a = .ok (((a, s) :: l).dropLast.flatMap fun e => initCallback e.1 e.2) := by
  induction l generalizing a s fuel with
  | nil =>
    obtain ⟨fuel, rfl⟩ : ∃ k, fuel = k + 1 := ⟨fuel - 1, by simp at hfuel; omega⟩
    have hnext : nextOf mem a = some none := h
    simp [initLoop, hnext]
  | cons e l ih =>
    obtain ⟨fuel, rfl⟩ : ∃ k, fuel = k + 1 := ⟨fuel - 1, by simp at hfuel; omega⟩
    obtain ⟨b, w⟩ := e
    have hrest := ih h.2.2 h.2.1 (by simpa using hfuel)
    simp only [initLoop, h.1, hval, hrest, List.dropLast_cons_cons, List.flatMap_cons]
    rfl

/-- What `smInit` should call: every `init` there is, in list order. -/
def initCalls (l : List (Addr × SystemState)) : List InitCall :=
  l.flatMap fun e => initCallback e.1 e.2

/-- The sentinel has no `init`. -/
def HeadPlain (sm : Sm) : Prop := ∃ s, valOf sm.mem headAddr = some s ∧ s.init = none

/-- `smInit` calls `init` of every state but the last. -/
theorem smInit_eq (h : Registered sm l) (hhead : HeadPlain sm) :
    smInit true sm = .ok (initCalls l.dropLast) := by
  obtain ⟨s, hval, hinit⟩ := hhead
  rw [smInit, if_pos rfl, initLoop_eq h hval h.length_lt_card]
  cases l with
  | nil => simp [initCalls]
  | cons e l => simp [initCalls, initCallback, hinit]

/-- Leaving out the last state makes no difference exactly if it has no `init`. -/
theorem initCalls_dropLast :
    initCalls l.dropLast = initCalls l ↔ ∀ e ∈ l.getLast?, e.2.init = none := by
  rcases List.eq_nil_or_concat' l with rfl | ⟨l, e, rfl⟩
  · simp
  · rw [List.dropLast_concat, List.getLast?_concat]
    have hsplit : initCalls (l ++ [e]) = initCalls l ++ initCallback e.1 e.2 := by
      simp [initCalls]
    rw [hsplit, List.self_eq_append_right]
    cases hinit : e.2.init with
    | none => simp [initCallback, hinit]
    | some f => simp [initCallback, hinit]

/-! ## The sentinel -/

/-- `addState` stores callbacks in the new node only; the sentinel at most gets an ID. -/
theorem HeadPlain.addState (h : HeadPlain sm) {p : Addr} {args : StateArgs} {ID : UInt32}
    (hadd : addState sm p args = some (ID, sm')) : HeadPlain sm' := by
  obtain ⟨s, hval, hinit⟩ := h
  simp only [StateMachine.addState, Option.bind_eq_bind, Option.bind_eq_some_iff, Option.pure_def,
    Option.some.injEq, Prod.mk.injEq] at hadd
  obtain ⟨it, -, m₁, halloc, m₂, hlink, m₃, hfill, m₄, hID, -, rfl⟩ := hadd
  have hp : headAddr ≠ p := fun hp => not_mem_of_alloc halloc (hp ▸ mem_of_valOf hval)
  have hval₃ : valOf m₃ headAddr = some s := by
    rw [valOf_setVal hfill, if_neg hp, valOf_setNext hlink, valOf_alloc halloc, if_neg hp, hval]
  show ∃ s, valOf m₄ headAddr = some s ∧ s.init = none
  rw [valOf_setVal hID, hval₃]
  split
  · exact ⟨_, rfl, hinit⟩
  · exact ⟨s, rfl, hinit⟩

/-- `deleteState` leaves the contents of every node that stays. -/
theorem deleteState_kept {ID : UInt32} (hdel : deleteState sm ID = some sm') :
    ∀ a ∈ sm'.mem, valOf sm'.mem a = valOf sm.mem a := by
  obtain rfl | ⟨it, z, d, m₁, m₂, hlink, hfree, rfl⟩ := deleteState_cases hdel
  · exact fun a _ => rfl
  · intro a ha
    have had : a ≠ d := ((mem_free hfree a).mp ha).1
    show valOf m₂ a = valOf sm.mem a
    rw [valOf_free hfree, if_neg had, valOf_setNext hlink]

/-- `deleteState` leaves the sentinel alone. -/
theorem HeadPlain.deleteState (h : HeadPlain sm) (hlist : Registered sm l) {ID : UInt32}
    (hdel : deleteState sm ID = some sm') : HeadPlain sm' := by
  obtain ⟨s, hval, hinit⟩ := h
  obtain ⟨sm'', hdel', hlist', -⟩ := deleteState_spec hlist ID
  obtain rfl : sm' = sm'' := Option.some.inj (hdel.symm.trans hdel')
  have hmem : headAddr ∈ sm'.mem := Seg.mem hlist' headAddr List.mem_cons_self
  exact ⟨s, by rw [deleteState_kept hdel headAddr hmem, hval], hinit⟩

/-! ## Whole runs -/

open Ids (Op Registry)

/-- The sentinel starts without callbacks. -/
theorem headPlain_zero : HeadPlain Sm.zero := ⟨SystemState.zero, rfl, rfl⟩

/-- A call keeps the list and leaves the sentinel without an `init`. -/
theorem HeadPlain.step {r r' : Registry} {op : Op} (h : HeadPlain r.sm) (hlist : Registered r.sm l)
    (hop : Ids.Admitted r op) (hstep : Ids.step r op = some r') :
    HeadPlain r'.sm ∧ ∃ l', Registered r'.sm l' := by
  cases op with
  | add p args =>
    obtain ⟨sm', hadd, hlist', -⟩ := addState_spec hlist hop args
    simp only [Ids.step, hadd, Option.bind_eq_bind, Option.bind_some, Option.pure_def,
      Option.some.injEq] at hstep
    subst hstep
    exact ⟨h.addState hadd, _, hlist'⟩
  | delete ID =>
    obtain ⟨sm', hdel, hlist', -⟩ := deleteState_spec hlist ID
    simp only [Ids.step, hdel, Option.bind_eq_bind, Option.bind_some, Option.pure_def,
      Option.some.injEq] at hstep
    subst hstep
    exact ⟨h.deleteState hlist hdel, _, hlist'⟩

/-- After any run of `addState` and `deleteState` calls, `smInit` calls every `init` of
    the registered states, in order and with the data of its state, exactly if the
    queue can be created and the last state has no `init`. -/
theorem smInit_calls_iff (ops : List Op) (r : Registry) (queueCreated : Bool)
    (hops : Runs.StepsMeet Ids.step Ids.Admitted Registry.zero ops)
    (hrun : ops.foldlM Ids.step Registry.zero = some r) :
    ∃ l, Registered r.sm l ∧
      (smInit queueCreated r.sm = .ok (initCalls l) ↔
        queueCreated = true ∧ ∀ e ∈ l.getLast?, e.2.init = none) := by
  have halways : Runs.Always Ids.step (fun r => HeadPlain r.sm ∧ ∃ l, Registered r.sm l)
      Registry.zero ops := by
    apply Runs.Always.of_invariant (fun _ h => h) _ ⟨headPlain_zero, [], registered_zero⟩ hops
    intro r op r' ⟨hhead, l, hlist⟩ hop hstep
    exact hhead.step hlist hop hstep
  obtain ⟨hhead, l, hlist⟩ := halways.final hrun
  refine ⟨l, hlist, ?_⟩
  cases queueCreated with
  | false => simp [smInit]
  | true =>
    -- the loop leaves out the last state, so that state must have no init
    rw [smInit_eq hlist hhead, Except.ok.injEq, initCalls_dropLast]
    simp

/-- Two states, of which only the first has an `init`: it is called. -/
theorem smInit_calls_iff_two_states :
    ∃ r, [Op.add 1 ⟨some 10, none, none, none, some 1⟩,
        .add 2 ⟨none, none, some 22, none, none⟩].foldlM Ids.step Registry.zero = some r ∧
      smInit true r.sm = .ok [⟨1, 10, some 1⟩] := by
  refine ⟨_, rfl, ?_⟩
  obtain ⟨l, hlist, hiff⟩ := smInit_calls_iff
    [.add 1 ⟨some 10, none, none, none, some 1⟩, .add 2 ⟨none, none, some 22, none, none⟩] _ true
    ((Runs.stepsMeet_cons rfl).mpr ⟨by simp only [Ids.Admitted]; decide,
      (Runs.stepsMeet_cons rfl).mpr ⟨by simp only [Ids.Admitted]; decide, trivial⟩⟩) rfl
  obtain rfl : l = [(1, ⟨2, some 1, some 10, none, none, none⟩),
      (2, ⟨0, none, none, none, some 22, none⟩)] :=
    IsList.unique hlist ⟨rfl, rfl, rfl, rfl, rfl⟩
  exact hiff.mpr ⟨rfl, by decide⟩

/-- The `init` of a state that is registered alone is never called. -/
theorem last_init_skipped :
    ∃ r, [Op.add 1 ⟨some 10, none, none, none, some 1⟩].foldlM Ids.step Registry.zero = some r ∧
      Registered r.sm [(1, ⟨0, some 1, some 10, none, none, none⟩)] ∧
      initCalls [(1, ⟨0, some 1, some 10, none, none, none⟩)] = [⟨1, 10, some 1⟩] ∧
      smInit true r.sm = .ok [] :=
  ⟨_, rfl, ⟨rfl, rfl, rfl⟩, rfl, rfl⟩

end StateMachine
