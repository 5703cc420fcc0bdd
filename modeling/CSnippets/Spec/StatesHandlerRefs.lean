import CSnippets.ForStd.Runs
import CSnippets.Spec.StatesHandler

/-!
# The current and the next state stay registered

`addState`, `deleteState` and whole iterations of the handler task are
interleaved in any order. `sm.current` and `sm.next` point into the list, and
`deleteState` does not look at them: they stay valid exactly when no deletion
takes one of the two states and no iteration receives an unknown ID.
-/

namespace StateMachine.Refs

open SentinelList

/-- The calls that change the list, and an iteration of the task. -/
inductive Op where
  | add (p : Addr) (args : StateArgs)
  | delete (ID : UInt32)
  | iterate (msg : Option UInt32)

/-- One call, or one iteration; `none` where a bad pointer is followed. -/
def step (sm : Sm) : Op → Option Sm
  | .add p args => (addState sm p args).map Prod.snd
  | .delete ID => deleteState sm ID
  | .iterate msg =>
    match taskIteration sm msg with
    | .ok (_, sm') => some sm'
    | .error _ => none

/-- The allocator returns an address that is not in use. -/
def Admitted (sm : Sm) : Op → Prop
  | .add p _ => p ∉ sm.mem
  | .delete _ => True
  | .iterate _ => True

/-- `sm.current` and `sm.next` are nodes of the list behind `sm.head`. -/
def Valid (sm : Sm) : Prop :=
  ∃ l, Registered sm l ∧ (∃ a ∈ l.map Prod.fst, sm.current = some a) ∧
    ∃ b ∈ l.map Prod.fst, sm.next = some b

/-- The operation does not delete the current or the next state and does not
    receive an unknown ID. -/
def Spares (sm : Sm) : Op → Prop
  | .add _ _ => True
  | .delete ID => ID = 0 ∨ ∀ a, findState sm ID = some (some a) →
      sm.current ≠ some a ∧ sm.next ≠ some a
  | .iterate msg => ∀ item, msg = some item → findState sm item.toUInt8.toUInt32 ≠ some none

variable {sm : Sm} {l : List (Addr × SystemState)}

/-- `addState` keeps every node in the list. -/
theorem Valid.add (h : Valid sm) {p : Addr} (hp : p ∉ sm.mem) (args : StateArgs) :
    ∃ sm', step sm (.add p args) = some sm' ∧ Valid sm' := by
  obtain ⟨l, hl, ⟨a, ha, hcur⟩, b, hb, hnext⟩ := h
  obtain ⟨sm', hadd, hreg, -, hcur', hnext', -⟩ := addState_spec hl hp args
  -- storing the ID changes no address
  have hmem : ∀ c ∈ l.map Prod.fst,
      c ∈ (setLastID (sm.stateCount + 1) l ++ [(p, args.toState)]).map Prod.fst := by
    intro c hc
    obtain ⟨e, he, rfl⟩ := List.mem_map.mp hc
    rw [List.map_append, setLastID, List.map_map]
    apply List.mem_append_left
    apply List.mem_map.mpr
    refine ⟨e, he, ?_⟩
    show (if _ then _ else _ : Addr × SystemState).1 = e.1
    split <;> rfl
  refine ⟨sm', by rw [step, hadd]; rfl, _, hreg, ⟨a, hmem a ha, ?_⟩, b, hmem b hb, ?_⟩
  · rw [hcur', hcur]
  · rw [hnext', hnext]

/-- The addresses left after taking out the first entry that satisfies `p`. -/
private theorem mem_eraseP_fst {p : Addr × SystemState → Bool} {e : Addr × SystemState}
    (hnodup : (l.map Prod.fst).Nodup) (he : l.find? p = some e) (a : Addr) :
    a ∈ (l.eraseP p).map Prod.fst ↔ a ∈ l.map Prod.fst ∧ a ≠ e.1 := by
  obtain ⟨hpe, l₁, l₂, rfl, hl₁⟩ := List.find?_eq_some_iff_append.mp he
  rw [List.eraseP_append_right _ (fun x hx => by simpa using hl₁ x hx), List.eraseP_cons_of_pos hpe]
  simp only [List.map_append, List.map_cons] at hnodup ⊢
  obtain ⟨hnot, -⟩ := List.nodup_cons.mp (List.nodup_middle.mp hnodup)
  constructor
  · intro ha
    refine ⟨?_, fun hae => hnot (hae ▸ ha)⟩
    rcases List.mem_append.mp ha with ha | ha
    · exact List.mem_append_left _ ha
    · exact List.mem_append_right _ (List.mem_cons_of_mem _ ha)
  · intro ha
    obtain ⟨ha, hne⟩ := ha
    rcases List.mem_append.mp ha with ha | ha
    · exact List.mem_append_left _ ha
    · exact List.mem_append_right _ ((List.mem_cons.mp ha).resolve_left hne)

/-- `deleteState` keeps the two pointers valid exactly when it spares them. -/
theorem Valid.delete (h : Valid sm) (ID : UInt32) :
    (∃ sm', step sm (.delete ID) = some sm' ∧ Valid sm') ↔ Spares sm (.delete ID) := by
  obtain ⟨l, hl, ⟨a, ha, hcur⟩, b, hb, hnext⟩ := h
  obtain ⟨sm', hdel, hreg, -, hcur', hnext', -⟩ := deleteState_spec hl ID
  -- the call does not touch the pointers, so only the list matters
  have hvalid : (∃ sm', step sm (.delete ID) = some sm' ∧ Valid sm') ↔
      ∀ c, (c = a ∨ c = b) → c ∈ (if ID = 0 then l else
        l.eraseP fun e => e.2.ID == ID).map Prod.fst := by
    constructor
    · intro h'
      obtain ⟨sm'', hstep, l', hl', ⟨a', ha', hcura⟩, b', hb', hnextb⟩ := h'
      obtain rfl : sm' = sm'' := Option.some.inj (hdel.symm.trans hstep)
      obtain rfl := hreg.unique hl'
      obtain rfl : a = a' := Option.some.inj (hcur.symm.trans (hcur'.symm.trans hcura))
      obtain rfl : b = b' := Option.some.inj (hnext.symm.trans (hnext'.symm.trans hnextb))
      intro c hc
      rcases hc with rfl | rfl
      · exact ha'
      · exact hb'
    · intro hmem
      exact ⟨sm', hdel, _, hreg, ⟨a, hmem a (Or.inl rfl), hcur'.trans hcur⟩,
        b, hmem b (Or.inr rfl), hnext'.trans hnext⟩
  rw [hvalid, Spares, hcur, hnext]
  by_cases hID : ID = 0
  · -- nothing is deleted
    simp only [hID, if_true, true_or, iff_true]
    intro c hc
    rcases hc with rfl | rfl
    · exact ha
    · exact hb
  · have hfind := findState_spec hl ID
    cases he : l.find? fun e => e.2.ID == ID with
    | none =>
      -- no state has the ID
      rw [he, Option.map_none] at hfind
      have hsame : (l.eraseP fun e => e.2.ID == ID) = l :=
        List.eraseP_of_forall_not fun x hx => List.find?_eq_none.mp he x hx
      simp only [hID, if_false, hsame, hfind, false_or]
      constructor
      · intro _ c hc
        cases hc
      · intro _ c hc
        rcases hc with rfl | rfl
        · exact ha
        · exact hb
    | some e =>
      -- the state `e` goes, all others stay
      rw [he, Option.map_some] at hfind
      have hnodup : (l.map Prod.fst).Nodup := (List.nodup_cons.mp hl.nodup).2
      simp only [hID, if_false, mem_eraseP_fst hnodup he, hfind, false_or, Option.some.injEq]
      constructor
      · intro hmem c hc
        subst hc
        rw [ne_eq, ne_eq, Option.some.injEq, Option.some.injEq]
        exact ⟨(hmem a (Or.inl rfl)).2, (hmem b (Or.inr rfl)).2⟩
      · intro hspare c hc
        obtain ⟨hae, hbe⟩ := hspare e.1 rfl
        rw [ne_eq, Option.some.injEq] at hae hbe
        rcases hc with rfl | rfl
        · exact ⟨ha, hae⟩
        · exact ⟨hb, hbe⟩

/-- An iteration is defined, and keeps the pointers valid, unless it receives an
    unknown ID. -/
theorem Valid.iterate (h : Valid sm) (msg : Option UInt32) :
    (∃ sm', step sm (.iterate msg) = some sm' ∧ Valid sm') ↔ Spares sm (.iterate msg) := by
  obtain ⟨l, hl, ⟨a, ha, hcur⟩, b, hb, hnext⟩ := h
  obtain ⟨⟨a, s⟩, has, rfl⟩ := List.mem_map.mp ha
  obtain ⟨⟨b, t⟩, hbt, rfl⟩ := List.mem_map.mp hb
  -- the message names a listed state, or an ID that no state has
  rcases received_cases hl hbt hnext msg with ⟨c, u, hc, hmsg⟩ | ⟨hmsg, item, rfl, hnone⟩
  · have hiter := taskIteration_spec hl hcur has hc hmsg
    have hc' : c ∈ l.map Prod.fst := List.mem_map_of_mem hc
    constructor
    · intro _ item hitem hnone
      subst hitem
      rw [received, hnone] at hmsg
      cases hmsg
    · intro _
      refine ⟨{ sm with current := some c, next := some c }, ?_, l, hl, ⟨c, hc', rfl⟩, c, hc', rfl⟩
      rw [step, hiter]
  · have hiter := taskIteration_of_null hl hcur has hmsg
    constructor
    · intro h'
      obtain ⟨sm', hstep, -⟩ := h'
      rw [step, hiter] at hstep
      cases hstep
    · intro hspare
      exact absurd hnone (hspare item rfl)

/-- However the calls and the iterations are interleaved, `sm.current` and
    `sm.next` are registered in every state reached, and the handler follows no bad
    pointer, exactly when every step spares the two states. -/
theorem refs_valid_iff (h : Valid sm) (ops : List Op) (hops : Runs.StepsMeet step Admitted sm ops) :
    Runs.Safe step Valid sm ops ↔ Runs.StepsMeet step Spares sm ops := by
  apply Runs.safe_iff_stepsMeet (J := fun _ => True) _ _ trivial h hops
  · intro _ _ _ _ _ _ _
    trivial
  · intro sm op _ hsm hadm
    cases op with
    | add p args => exact ⟨fun _ => trivial, fun _ => hsm.add hadm args⟩
    | delete ID => exact hsm.delete ID
    | iterate msg => exact hsm.iterate msg

/-- The task leaves the first state, which is then deleted. -/
theorem refs_valid_iff_after_switch :
    Runs.Safe step Valid twoStates [.iterate (some 0), .delete 2, .iterate none] := by
  have hvalid : Valid twoStates :=
    ⟨_, registered_twoStates, ⟨1, by simp, rfl⟩, 1, by simp, rfl⟩
  apply (refs_valid_iff hvalid _ _).mpr
  · apply (Runs.stepsMeet_cons rfl).mpr
    refine ⟨fun item hitem => ?_, ?_⟩
    · obtain rfl := Option.some.inj hitem
      decide
    · apply (Runs.stepsMeet_cons rfl).mpr
      refine ⟨Or.inr fun a ha => ?_, ?_⟩
      · obtain rfl : 1 = a := Option.some.inj (Option.some.inj ha)
        decide
      · exact ⟨fun item hitem => by simp at hitem, fun _ _ => trivial⟩
  · exact ⟨trivial, fun _ _ => ⟨trivial, fun _ _ => ⟨trivial, fun _ _ => trivial⟩⟩⟩

/-- The current state is deleted, and the next iteration calls through freed memory. -/
theorem deleteState_current_dangles :
    Valid twoStates ∧
      Runs.StepsMeet step Admitted twoStates [.delete 2, .iterate none] ∧
      ¬ Runs.Safe step Valid twoStates [.delete 2, .iterate none] := by
  refine ⟨⟨_, registered_twoStates, ⟨1, by simp, rfl⟩, 1, by simp, rfl⟩, ?_, fun h => ?_⟩
  · exact ⟨trivial, fun _ _ => ⟨trivial, fun _ _ => trivial⟩⟩
  · obtain ⟨sm, hsm, -⟩ := h.final
    cases hsm

end StateMachine.Refs
