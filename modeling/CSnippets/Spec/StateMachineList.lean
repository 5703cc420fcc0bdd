import CSnippets.ForStd.Runs
import CSnippets.Native.StateMachine

/-!
# The list of registered states

What `addState`, `findState` and `deleteState` do to the list behind `sm.head`,
one lemma each. Everything else about the state machine uses these and never
unfolds the functions.
-/

namespace StateMachine

open SentinelList

variable {sm sm' : Sm} {l : List (Addr × SystemState)} {p : Addr} {args : StateArgs} {ID : UInt32}

/-- The registered states, in list order. -/
abbrev Registered (sm : Sm) (l : List (Addr × SystemState)) : Prop := IsList sm.mem headAddr l

/-- Nothing is registered at the start. -/
theorem registered_zero : Registered Sm.zero [] := rfl

/-- What `addState` stores in the node it allocates: its `_ID` stays zero. -/
def StateArgs.toState (args : StateArgs) : SystemState :=
  { ID := 0, data := args.data, init := args.init, enter := args.enter, run := args.run,
    exit := args.exit }

/-- The arguments of `addState` a state holds. -/
def SystemState.toArgs (s : SystemState) : StateArgs :=
  { init := s.init, enter := s.enter, run := s.run, exit := s.exit, data := s.data }

/-- Store `ID` in the last node of the list. -/
def setLastID (ID : UInt32) (l : List (Addr × SystemState)) : List (Addr × SystemState) :=
  l.map fun e => if e.1 = lastAddr headAddr l then (e.1, { e.2 with ID := ID }) else e

/-- The ID is stored in the last state of the list. -/
theorem setLastID_concat {l : List (Addr × SystemState)} {c : Addr} {w : SystemState}
    (hnodup : ((l ++ [(c, w)]).map Prod.fst).Nodup) (ID : UInt32) :
    setLastID ID (l ++ [(c, w)]) = l ++ [(c, { w with ID := ID })] := by
  have hne : ∀ e ∈ l, e.1 ≠ c := by
    rw [List.map_append, List.nodup_append] at hnodup
    exact fun e he => hnodup.2.2 e.1 (List.mem_map_of_mem he) c (by simp)
  rw [setLastID, lastAddr_concat, List.map_append,
    List.map_congr_left fun e he => if_neg (hne e he), List.map_id']
  simp

/-- `addState` appends the new node and gives the ID it returns to the node that
    was last before. -/
theorem addState_spec (h : Registered sm l) (hp : p ∉ sm.mem) (args : StateArgs) :
    ∃ sm', addState sm p args = some (sm.stateCount + 1, sm') ∧
      Registered sm' (setLastID (sm.stateCount + 1) l ++ [(p, args.toState)]) ∧
      sm'.stateCount = sm.stateCount + 1 ∧ sm'.current = sm.current ∧ sm'.next = sm.next ∧
      sm'.initialized = sm.initialized := by
  rcases h.seek_cases (fun _ => true) with ⟨-, hseek, -⟩ | ⟨_, _, _, _, _, _, hfalse, -⟩
  · obtain ⟨m₁, m₂, h₁, h₂, hlist₂⟩ := h.exists_append hp SystemState.zero
    have hlast : lastAddr headAddr l ≠ p := fun hlp => hp (hlp ▸ Seg.mem h _ lastAddr_mem)
    have hp₂ : p ∈ m₂ := Seg.mem hlist₂ p (by simp)
    obtain ⟨m₃, h₃⟩ := exists_setVal hp₂ fun s : SystemState =>
      { s with init := args.init, enter := args.enter, run := args.run, exit := args.exit,
               data := args.data }
    have hlist₃ := Seg.of_setVal hlist₂ h₃
    have hlast₃ : lastAddr headAddr l ∈ m₃ := by
      rw [← nextOf_isSome, nextOf_setVal h₃, nextOf_setNext h₂, if_pos rfl]
      rfl
    obtain ⟨m₄, h₄⟩ := exists_setVal hlast₃ fun s : SystemState =>
      { s with ID := sm.stateCount + 1 }
    have hlist₄ := Seg.of_setVal hlist₃ h₄
    refine ⟨{ sm with mem := m₄, stateCount := sm.stateCount + 1 }, ?_, ?_, rfl, rfl, rfl, rfl⟩
    · simp [addState, hseek, h₁, h₂, h₃, h₄]
    · -- only the new node gets the callbacks, only the old last one the ID
      have hl : ∀ e ∈ l, e.1 ≠ p := fun e he hep =>
        hp (hep ▸ Seg.mem h e.1 (List.mem_cons_of_mem _ (List.mem_map_of_mem he)))
      have hmap : (l.map fun e : Addr × SystemState => if e.1 = p then
          (e.1, { e.2 with init := args.init, enter := args.enter, run := args.run,
                           exit := args.exit, data := args.data }) else e) = l := by
        rw [List.map_congr_left fun e he => if_neg (hl e he)]
        exact List.map_id' l
      simp only [List.map_append, hmap, List.map_cons, List.map_nil, if_true, hlast.symm,
        if_false] at hlist₄
      exact hlist₄
  · cases hfalse

/-- `addState` returns the next ID. -/
theorem addState_count (hadd : addState sm p args = some (ID, sm')) :
    ID = sm.stateCount + 1 ∧ sm'.stateCount = sm.stateCount + 1 := by
  simp only [addState, Option.bind_eq_bind, Option.bind_eq_some_iff, Option.pure_def,
    Option.some.injEq, Prod.mk.injEq] at hadd
  obtain ⟨it, -, m₁, -, m₂, -, m₃, -, m₄, -, rfl, rfl⟩ := hadd
  exact ⟨rfl, rfl⟩

/-- All that `deleteState` ever does is to redirect one link and to free one node. -/
theorem deleteState_cases (hdel : deleteState sm ID = some sm') :
    sm' = sm ∨ ∃ it z d m₁ m₂, setNext sm.mem it z = some m₁ ∧ free m₁ d = some m₂ ∧
      sm' = { sm with mem := m₂ } := by
  obtain ⟨it, -, hdel⟩ := Option.bind_eq_some_iff.mp hdel
  obtain ⟨next, -, hdel⟩ := Option.bind_eq_some_iff.mp hdel
  cases next with
  | none => exact Or.inl (Option.some.inj hdel).symm
  | some d =>
    obtain ⟨w, -, hdel⟩ := Option.bind_eq_some_iff.mp hdel
    split at hdel
    · obtain ⟨next, -, hdel⟩ := Option.bind_eq_some_iff.mp hdel
      -- both branches store the link
      have hstore : ((setNext sm.mem it next).bind fun mem =>
          (free mem d).bind fun mem => some { sm with mem := mem }) = some sm' := by
        cases next with
        | none => exact hdel
        | some b => exact hdel
      obtain ⟨m₁, hlink, hstore⟩ := Option.bind_eq_some_iff.mp hstore
      obtain ⟨m₂, hfree, hstore⟩ := Option.bind_eq_some_iff.mp hstore
      exact Or.inr ⟨it, next, d, m₁, m₂, hlink, hfree, (Option.some.inj hstore).symm⟩
    · exact Or.inl (Option.some.inj hdel).symm

/-- `findState` returns the first registered state with that `_ID`. -/
theorem findState_spec (h : Registered sm l) (ID : UInt32) :
    findState sm ID = some ((l.find? fun e => e.2.ID == ID).map Prod.fst) := by
  obtain ⟨it, hseek, hnext⟩ := h.seek_find fun s => s.ID == ID
  simp only [findState, bne, hseek, Option.bind_eq_bind, Option.bind_some, hnext]

/-- `deleteState` takes out the first registered state with that `_ID`; an `_ID`
    of zero is never deleted. -/
theorem deleteState_spec (h : Registered sm l) (ID : UInt32) :
    ∃ sm', deleteState sm ID = some sm' ∧
      Registered sm' (if ID = 0 then l else l.eraseP fun e => e.2.ID == ID) ∧
      sm'.stateCount = sm.stateCount ∧ sm'.current = sm.current ∧ sm'.next = sm.next ∧
      sm'.initialized = sm.initialized := by
  obtain ⟨it, hseek, ⟨hnot, hnext⟩ | ⟨d, w, n, m₁, m₂, -, hw, hnext, hval, hnextd, h₁, h₂, hlist⟩⟩ :=
    h.seek_erase fun s => s.ID == ID
  · -- no state has the ID
    have hsame : (l.eraseP fun e => e.2.ID == ID) = l := by
      apply List.eraseP_of_forall_not
      intro e he
      simpa using hnot e he
    refine ⟨sm, by simp [deleteState, bne, hseek, hnext], ?_, rfl, rfl, rfl, rfl⟩
    rw [hsame, ite_self]
    exact h
  · have hw' : w.ID = ID := by simpa using hw
    by_cases hID : ID = 0
    · -- the guard on the ID of the node found stops the deletion
      subst hID
      refine ⟨sm, ?_, by rwa [if_pos rfl], rfl, rfl, rfl, rfl⟩
      simp [deleteState, bne, hseek, hnext, hval, hw']
    · refine ⟨{ sm with mem := m₂ }, ?_, by rwa [if_neg hID], rfl, rfl, rfl, rfl⟩
      cases n with
      | none => simp [deleteState, bne, hseek, hnext, hval, hnextd, hw', hID, h₁, h₂]
      | some b => simp [deleteState, bne, hseek, hnext, hval, hnextd, hw', hID, h₁, h₂]

end StateMachine
