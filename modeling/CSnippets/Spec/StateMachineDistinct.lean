import CSnippets.Spec.StatesHandlerQueue

/-!
# What an ID names

An ID is stored one node too early, but it is stored in one node only: along the list the
IDs grow, and only the last state has none. So every ID finds one state, `deleteState` takes
out this state and no other, and the ID that a call of `addState` returns names the state
that was registered before, as long as it names anything.
-/

namespace StateMachine.Ids

open SentinelList

variable {sm sm' : Sm} {l : List (Addr × SystemState)} {p : Addr} {args : StateArgs} {ID : UInt32}
  {r r' : Registry} {op : Op} {x e : Addr × SystemState}

/-! ## The IDs along the list -/

/-- An earlier state has an ID, and a smaller one than a later state that has one. -/
def Before (e e' : Addr × SystemState) : Prop := e.2.ID ≠ 0 ∧ (e'.2.ID = 0 ∨ e.2.ID < e'.2.ID)

/-- An earlier state has another ID than a later one. -/
theorem Before.ne {e e' : Addr × SystemState} (h : Before e e') : e.2.ID ≠ e'.2.ID := by
  intro heq
  rcases h.2 with hzero | hlt
  · exact h.1 (heq.trans hzero)
  · rw [heq] at hlt
    exact UInt32.lt_irrefl _ hlt

/-- The IDs grow along the list, and the counter is not behind them. -/
structure Ascending (sm : Sm) (l : List (Addr × SystemState)) : Prop where
  list : Registered sm l
  counted : ∀ e ∈ l, e.2.ID ≤ sm.stateCount
  sorted : l.Pairwise Before

/-- The machine starts without states. -/
theorem ascending_zero : Ascending Sm.zero [] := ⟨registered_zero, by simp, List.Pairwise.nil⟩

/-- Two states with one ID are one state. -/
theorem Ascending.eq_of_ID_eq (h : Ascending sm l) (hx : x ∈ l) (he : e ∈ l)
    (hID : x.2.ID = e.2.ID) : x = e := by
  have hnodup : (l.map fun a => a.2.ID).Nodup := List.pairwise_map.mpr (h.sorted.imp Before.ne)
  exact List.inj_on_of_nodup_map hnodup hx he hID

/-- Every state is found under its ID. -/
theorem Ascending.found (h : Ascending sm l) (he : e ∈ l) :
    findState sm e.2.ID = some (some e.1) := by
  rw [findState_spec h.list]
  cases hfind : l.find? fun x => x.2.ID == e.2.ID with
  | none =>
    have hnone := List.find?_eq_none.mp hfind e he
    exact absurd BEq.rfl hnone
  | some x =>
    have hID : x.2.ID = e.2.ID := by simpa using List.find?_some hfind
    rw [h.eq_of_ID_eq (List.mem_of_find?_eq_some hfind) he hID]
    rfl

/-- `deleteState` takes out the state with the ID and no other. -/
theorem Ascending.deletes (h : Ascending sm l) (he : e ∈ l) (hID : e.2.ID ≠ 0) :
    ∃ sm' front back, deleteState sm e.2.ID = some sm' ∧ l = front ++ e :: back ∧
      Registered sm' (front ++ back) := by
  obtain ⟨sm', hdel, hreg, -⟩ := deleteState_spec h.list e.2.ID
  rw [if_neg hID] at hreg
  obtain ⟨x, front, back, -, hx, hl, herase⟩ :=
    List.exists_of_eraseP (p := fun x => x.2.ID == e.2.ID) he BEq.rfl
  have hxe : x = e := h.eq_of_ID_eq (by rw [hl]; simp) he (by simpa using hx)
  subst hxe
  rw [herase] at hreg
  exact ⟨sm', front, back, hdel, hl, hreg⟩

/-- Only the last state can be without an ID. -/
theorem Ascending.ne_zero_of_mem_dropLast (h : Ascending sm l) (he : e ∈ l.dropLast) :
    e.2.ID ≠ 0 := by
  rcases List.eq_nil_or_concat' l with rfl | ⟨front, last, rfl⟩
  · cases he
  · rw [List.dropLast_concat] at he
    exact ((List.pairwise_append.mp h.sorted).2.2 e he last (List.mem_singleton_self _)).1

/-! ## What the calls do to the IDs -/

/-- Below 2^32 states the counter does not wrap around. -/
theorem toNat_count_succ (hwrap : sm.stateCount.toNat + 1 < 2 ^ 32) :
    (sm.stateCount + 1).toNat = sm.stateCount.toNat + 1 := by
  rw [UInt32.toNat_add, UInt32.toNat_one]
  exact Nat.mod_eq_of_lt hwrap

/-- So the next ID is greater than those given out. -/
theorem lt_count_succ (hwrap : sm.stateCount.toNat + 1 < 2 ^ 32) (hID : ID ≤ sm.stateCount) :
    ID < sm.stateCount + 1 := by
  rw [UInt32.lt_iff_toNat_lt, toNat_count_succ hwrap]
  exact Nat.lt_succ_of_le (UInt32.le_iff_toNat_le.mp hID)

/-- The next ID is not the one of a state without an ID. -/
theorem count_succ_ne_zero (hwrap : sm.stateCount.toNat + 1 < 2 ^ 32) : sm.stateCount + 1 ≠ 0 := by
  intro hzero
  have hnat := congrArg UInt32.toNat hzero
  rw [toNat_count_succ hwrap, UInt32.toNat_zero] at hnat
  omega

/-- The list that `addState` makes: the last state gets the new ID, the new one none. -/
theorem named_concat (h : Registered sm l) (ID : UInt32) :
    l = [] ∧ setLastID ID l = [] ∨ ∃ front c w, l = front ++ [(c, w)] ∧
      setLastID ID l = front ++ [(c, { w with ID := ID })] := by
  rcases List.eq_nil_or_concat' l with rfl | ⟨front, ⟨c, w⟩, rfl⟩
  · exact Or.inl ⟨rfl, rfl⟩
  · have hnodup : ((front ++ [(c, w)]).map Prod.fst).Nodup := (List.nodup_cons.mp h.nodup).2
    exact Or.inr ⟨front, c, w, rfl, setLastID_concat hnodup ID⟩

/-- `addState` keeps the IDs ascending: the last state gets the next ID. -/
theorem Ascending.add (h : Ascending sm l) (hp : p ∉ sm.mem)
    (hwrap : sm.stateCount.toNat + 1 < 2 ^ 32) (hadd : addState sm p args = some (ID, sm')) :
    Ascending sm' (setLastID ID l ++ [(p, args.toState)]) := by
  obtain ⟨sm'', hadd', hreg, hcount, -⟩ := addState_spec h.list hp args
  obtain ⟨rfl, rfl⟩ : ID = sm.stateCount + 1 ∧ sm' = sm'' := by simpa using hadd.symm.trans hadd'
  have hpos := count_succ_ne_zero hwrap
  have hzero : (0 : UInt32) ≤ sm.stateCount + 1 := UInt32.le_iff_toNat_le.mpr (Nat.zero_le _)
  refine ⟨hreg, ?_, ?_⟩
  · intro e he
    rw [hcount]
    rcases List.mem_append.mp he with he | he
    · rcases named_concat h.list (sm.stateCount + 1) with ⟨-, hnil⟩ | ⟨front, c, w, rfl, hnamed⟩
      · rw [hnil] at he
        cases he
      · rw [hnamed, List.mem_append, List.mem_singleton] at he
        rcases he with he | rfl
        · exact UInt32.le_of_lt (lt_count_succ hwrap (h.counted e (List.mem_append_left _ he)))
        · exact UInt32.le_refl _
    · obtain rfl := List.mem_singleton.mp he
      exact hzero
  · rcases named_concat h.list (sm.stateCount + 1) with ⟨-, hnil⟩ | ⟨front, c, w, rfl, hnamed⟩
    · rw [hnil]
      exact List.pairwise_singleton _ _
    · rw [hnamed, List.append_assoc]
      have hsorted := List.pairwise_append.mp h.sorted
      rw [List.pairwise_append]
      refine ⟨hsorted.1, ?_, ?_⟩
      · -- the new state comes behind the one that got the ID
        rw [List.singleton_append, List.pairwise_cons]
        refine ⟨fun e he => ?_, List.pairwise_singleton _ _⟩
        obtain rfl := List.mem_singleton.mp he
        exact ⟨hpos, Or.inl rfl⟩
      · intro e he e' he'
        have hne := (hsorted.2.2 e he (c, w) (List.mem_singleton_self _)).1
        rw [List.singleton_append, List.mem_cons, List.mem_singleton] at he'
        rcases he' with rfl | rfl
        · exact ⟨hne, Or.inr (lt_count_succ hwrap (h.counted e (List.mem_append_left _ he)))⟩
        · exact ⟨hne, Or.inl rfl⟩

/-- `deleteState` keeps the IDs ascending: it takes states out. -/
theorem Ascending.delete (h : Ascending sm l) (hdel : deleteState sm ID = some sm') :
    ∃ l', l'.Sublist l ∧ Ascending sm' l' ∧ sm'.stateCount = sm.stateCount := by
  obtain ⟨sm'', hdel', hreg, hcount, -⟩ := deleteState_spec h.list ID
  obtain rfl := Option.some.inj (hdel.symm.trans hdel')
  have hsub : (if ID = 0 then l else l.eraseP fun e => e.2.ID == ID).Sublist l := by
    split
    · exact List.Sublist.refl l
    · exact List.eraseP_sublist
  exact ⟨_, hsub, ⟨hreg, fun e he => hcount ▸ h.counted e (hsub.mem he), h.sorted.sublist hsub⟩,
    hcount⟩

/-- A step that adds is a call of `addState`. -/
theorem sm_of_step_add (hstep : step r (.add p args) = some r') :
    ∃ ID, addState r.sm p args = some (ID, r'.sm) := by
  obtain ⟨⟨ID, sm⟩, hadd, hr'⟩ := Option.bind_eq_some_iff.mp hstep
  cases hr'
  exact ⟨ID, hadd⟩

/-- A step that deletes is a call of `deleteState`. -/
theorem sm_of_step_delete (hstep : step r (.delete ID) = some r') :
    deleteState r.sm ID = some r'.sm := by
  obtain ⟨sm, hdel, hr'⟩ := Option.bind_eq_some_iff.mp hstep
  cases hr'
  exact hdel

/-- What every call keeps as long as the counter does not wrap, every run keeps. -/
theorem always_of_counted {P : Sm → Prop} {Q : Registry → Prop} {ops : List Op}
    (hQ : ∀ r, P r.sm → Q r)
    (hadd : ∀ {sm sm' p args ID}, P sm → p ∉ sm.mem → sm.stateCount.toNat + 1 < 2 ^ 32 →
      addState sm p args = some (ID, sm') → P sm')
    (hdel : ∀ {sm sm' ID}, P sm → deleteState sm ID = some sm' →
      P sm' ∧ sm'.stateCount = sm.stateCount)
    (hP : P r.sm) (hops : Runs.StepsMeet step Admitted r ops)
    (hwrap : r.sm.stateCount.toNat + adds ops < 2 ^ 32) : Runs.Always step Q r ops := by
  -- `hwrap` bounds the additions still to come
  induction ops generalizing r with
  | nil => exact hQ r hP
  | cons op ops ih =>
    refine ⟨hQ r hP, fun r' hr' => ?_⟩
    cases op with
    | add p args =>
      rw [adds] at hwrap
      obtain ⟨ID, hsm⟩ := sm_of_step_add hr'
      have hcount := (addState_count hsm).2
      apply ih (hadd hP hops.1 (by omega) hsm) (hops.2 r' hr')
      rw [hcount, toNat_count_succ (by omega)]
      omega
    | delete ID =>
      rw [adds] at hwrap
      obtain ⟨hP', hcount⟩ := hdel hP (sm_of_step_delete hr')
      exact ih hP' (hops.2 r' hr') (hcount ▸ hwrap)

/-- Whatever ascending IDs give holds in every run of less than 2^32 additions. -/
theorem always_ascending {Q : Registry → Prop} {ops : List Op}
    (hQ : ∀ r l, Ascending r.sm l → Q r) (hops : Runs.StepsMeet step Admitted Registry.zero ops)
    (hwrap : adds ops < 2 ^ 32) : Runs.Always step Q Registry.zero ops := by
  apply always_of_counted (P := fun sm => ∃ l, Ascending sm l) _ _ _ ⟨[], ascending_zero⟩ hops
  · have hzero : Registry.zero.sm.stateCount.toNat = 0 := rfl
    omega
  · rintro r ⟨l, h⟩
    exact hQ r l h
  · rintro sm sm' p args ID ⟨l, h⟩ hp hwrap hadd
    exact ⟨_, h.add hp hwrap hadd⟩
  · rintro sm sm' ID ⟨l, h⟩ hdel
    obtain ⟨l', -, h', hcount⟩ := h.delete hdel
    exact ⟨⟨l', h'⟩, hcount⟩

/-- In every run of fewer than 2^32 `addState` calls: each registered state is found under its
    ID, only the last can be without one, and an ID other than zero deletes its state and
    leaves all others registered. -/
theorem ids_distinct (ops : List Op) (hops : Runs.StepsMeet step Admitted Registry.zero ops)
    (hwrap : adds ops < 2 ^ 32) :
    Runs.Always step (fun r => ∃ l, Registered r.sm l ∧
      (∀ e ∈ l, findState r.sm e.2.ID = some (some e.1)) ∧ (∀ e ∈ l.dropLast, e.2.ID ≠ 0) ∧
      ∀ e ∈ l, e.2.ID ≠ 0 → ∃ sm' front back, deleteState r.sm e.2.ID = some sm' ∧
        l = front ++ e :: back ∧ Registered sm' (front ++ back)) Registry.zero ops := by
  apply always_ascending _ hops hwrap
  intro r l h
  exact ⟨l, h.list, fun e he => h.found he, fun e he => h.ne_zero_of_mem_dropLast he,
    fun e he hID => h.deletes he hID⟩

/-- Three states, the second of them deleted again. -/
theorem ids_distinct_three :
    Runs.Always step (fun r => ∃ l, Registered r.sm l ∧
      (∀ e ∈ l, findState r.sm e.2.ID = some (some e.1)) ∧ (∀ e ∈ l.dropLast, e.2.ID ≠ 0) ∧
      ∀ e ∈ l, e.2.ID ≠ 0 → ∃ sm' front back, deleteState r.sm e.2.ID = some sm' ∧
        l = front ++ e :: back ∧ Registered sm' (front ++ back)) Registry.zero
      [.add 1 ⟨none, some 11, some 12, some 13, none⟩, .add 2 ⟨none, none, some 22, none, none⟩,
        .add 3 ⟨none, none, some 32, none, none⟩, .delete 3] := by
  apply ids_distinct
  · refine (Runs.stepsMeet_cons rfl).mpr ⟨?_, (Runs.stepsMeet_cons rfl).mpr ⟨?_,
      (Runs.stepsMeet_cons rfl).mpr ⟨?_, ?_⟩⟩⟩
    · simp only [Admitted]; decide
    · simp only [Admitted]; decide
    · simp only [Admitted]; decide
    · exact ⟨trivial, fun _ _ => trivial⟩
  · decide

/-! ## What a returned ID names -/

/-- The ID has been returned, and no state carries it but one at an address in `A`. -/
structure NamesOnly (ID : UInt32) (A : Addr → Prop) (sm : Sm) : Prop where
  pos : ID ≠ 0
  counted : ID ≤ sm.stateCount
  only : ∃ l, Ascending sm l ∧ ∀ x ∈ l, x.2.ID = ID → A x.1

/-- What is found under the ID is at one of the addresses. -/
theorem NamesOnly.found {A : Addr → Prop} {a : Addr} (h : NamesOnly ID A sm)
    (hfind : findState sm ID = some (some a)) : A a := by
  obtain ⟨l, hl, honly⟩ := h.only
  rw [findState_spec hl.list, Option.some.injEq, Option.map_eq_some_iff] at hfind
  obtain ⟨x, hx, rfl⟩ := hfind
  exact honly x (List.mem_of_find?_eq_some hx) (by simpa using List.find?_some hx)

/-- A new state is never given an ID that has been returned. -/
theorem NamesOnly.add {A : Addr → Prop} {ID' : UInt32} (h : NamesOnly ID A sm) (hp : p ∉ sm.mem)
    (hwrap : sm.stateCount.toNat + 1 < 2 ^ 32) (hadd : addState sm p args = some (ID', sm')) :
    NamesOnly ID A sm' := by
  obtain ⟨l, hl, honly⟩ := h.only
  have hl' := hl.add hp hwrap hadd
  obtain ⟨rfl, hcount⟩ := addState_count hadd
  have hlt := lt_count_succ hwrap h.counted
  refine ⟨h.pos, hcount ▸ UInt32.le_of_lt hlt, _, hl', fun x hx hID => ?_⟩
  rcases List.mem_append.mp hx with hx | hx
  · rcases named_concat hl.list (sm.stateCount + 1) with ⟨-, hnil⟩ | ⟨front, c, w, rfl, hnamed⟩
    · rw [hnil] at hx
      cases hx
    · rw [hnamed, List.mem_append, List.mem_singleton] at hx
      rcases hx with hx | rfl
      · exact honly x (List.mem_append_left _ hx) hID
      · -- the ID given away is a new one
        have hEq : sm.stateCount + 1 = ID := hID
        rw [hEq] at hlt
        exact absurd hlt (UInt32.lt_irrefl _)
  · obtain rfl := List.mem_singleton.mp hx
    exact absurd hID.symm h.pos

/-- A deletion names nothing anew. -/
theorem NamesOnly.delete {A : Addr → Prop} {ID' : UInt32} (h : NamesOnly ID A sm)
    (hdel : deleteState sm ID' = some sm') :
    NamesOnly ID A sm' ∧ sm'.stateCount = sm.stateCount := by
  obtain ⟨l, hl, honly⟩ := h.only
  obtain ⟨l', hsub, hl', hcount⟩ := hl.delete hdel
  exact ⟨⟨h.pos, hcount ▸ h.counted, l', hl', fun x hx => honly x (hsub.mem hx)⟩, hcount⟩

/-- The ID of a call goes to the state that was last before it. -/
theorem Ascending.namesOnly (h : Ascending sm l) (hp : p ∉ sm.mem)
    (hwrap : sm.stateCount.toNat + 1 < 2 ^ 32) (hadd : addState sm p args = some (ID, sm')) :
    NamesOnly ID (fun a => l ≠ [] ∧ a = lastAddr headAddr l) sm' := by
  have hl' := h.add hp hwrap hadd
  obtain ⟨rfl, hcount⟩ := addState_count hadd
  have hpos := count_succ_ne_zero hwrap
  refine ⟨hpos, hcount ▸ UInt32.le_refl _, _, hl', fun x hx hID => ?_⟩
  rcases List.mem_append.mp hx with hx | hx
  · rcases named_concat h.list (sm.stateCount + 1) with ⟨-, hnil⟩ | ⟨front, c, w, rfl, hnamed⟩
    · rw [hnil] at hx
      cases hx
    · rw [hnamed, List.mem_append, List.mem_singleton] at hx
      rcases hx with hx | rfl
      · have hlt := lt_count_succ hwrap (h.counted x (List.mem_append_left _ hx))
        rw [hID] at hlt
        exact absurd hlt (UInt32.lt_irrefl _)
      · rw [lastAddr_concat]
        exact ⟨by simp, rfl⟩
  · obtain rfl := List.mem_singleton.mp hx
    exact absurd hID.symm hpos

/-- Whatever is registered and deleted around a call of `addState`, while fewer than 2^32 states
    are registered in all: right after the call the ID it returns finds the state that was last
    before it, if there was one, and later it never finds any other. -/
theorem id_names_predecessor {ops ops' : List Op}
    (hops : Runs.StepsMeet step Admitted Registry.zero ops)
    (hrun : ops.foldlM step Registry.zero = some r) (hlist : Registered r.sm l)
    (hp : p ∉ r.sm.mem) (hadd : addState r.sm p args = some (ID, sm'))
    (hstep : step r (.add p args) = some r') (hops' : Runs.StepsMeet step Admitted r' ops')
    (hwrap : adds ops + 1 + adds ops' < 2 ^ 32) :
    findState r'.sm ID = some (if l = [] then none else some (lastAddr headAddr l)) ∧
      Runs.Always step (fun r => ∀ a, findState r.sm ID = some (some a) →
        l ≠ [] ∧ a = lastAddr headAddr l) r' ops' := by
  -- the IDs are numbers of calls, and none has come round
  have hcount : r.sm.stateCount.toNat = adds ops := by
    have hnat := stateCount_run hrun
    have hzero : Registry.zero.sm.stateCount.toNat = 0 := rfl
    omega
  have hascending : Runs.Always step (fun r => ∃ l, Ascending r.sm l) Registry.zero ops :=
    always_ascending (fun _ l h => ⟨l, h⟩) hops (by omega)
  obtain ⟨l', hl'⟩ := hascending.final hrun
  -- the list of the invariant is the one of the statement
  obtain rfl := hl'.list.unique hlist
  obtain ⟨ID', hadd'⟩ := sm_of_step_add hstep
  obtain ⟨rfl, rfl⟩ : ID = ID' ∧ sm' = r'.sm := by simpa using hadd.symm.trans hadd'
  have hID := (addState_count hadd).1
  have hnames := hl'.namesOnly hp (by omega) hadd
  refine ⟨?_, ?_⟩
  · -- no older node has the new ID
    apply findState_addState hlist hp (hID ▸ hnames.pos) _ hadd
    intro e he heq
    have hlt : e.2.ID < r.sm.stateCount + 1 := lt_count_succ (by omega) (hl'.counted e he)
    rw [heq] at hlt
    exact UInt32.lt_irrefl _ hlt
  · -- later calls give other IDs, so the ID keeps its meaning
    apply always_of_counted (P := NamesOnly ID _) _ _ _ hnames hops'
    · have hcount' := (addState_count hadd).2
      rw [hcount', toNat_count_succ (by omega)]
      omega
    · exact fun r h a hfind => h.found hfind
    · exact fun h hp hwrap hadd => h.add hp hwrap hadd
    · exact fun h hdel => h.delete hdel

/-- The arguments of a state that only runs. -/
def runs (fn : Nat) : StateArgs :=
  { init := none, enter := none, run := some fn, exit := none, data := none }

/-- The ID of the second call names the first state, until this is deleted. -/
theorem id_names_predecessor_second :
    ∃ r r', [Op.add 1 (runs 12)].foldlM step Registry.zero = some r ∧
      step r (.add 2 (runs 22)) = some r' ∧ findState r'.sm 2 = some (some 1) ∧
      Runs.Always step (fun r => ∀ a, findState r.sm 2 = some (some a) → a = 1) r'
        [.add 3 (runs 32), .delete 2] := by
  -- over variables, so that the states of the run are computed once
  have hnames : ∀ r r', [Op.add 1 (runs 12)].foldlM step Registry.zero = some r →
      step r (.add 2 (runs 22)) = some r' → Registered r.sm [(1, (runs 12).toState)] →
      2 ∉ r.sm.mem → addState r.sm 2 (runs 22) = some (2, r'.sm) →
      Runs.StepsMeet step Admitted r' [.add 3 (runs 32), .delete 2] →
      findState r'.sm 2 = some (some 1) ∧
      Runs.Always step (fun r => ∀ a, findState r.sm 2 = some (some a) → a = 1) r'
        [.add 3 (runs 32), .delete 2] := by
    intro r r' hrun hstep hlist hp hadd hops'
    have hops : Runs.StepsMeet step Admitted Registry.zero [.add 1 (runs 12)] :=
      ⟨by simp only [Admitted]; decide, fun _ _ => trivial⟩
    obtain ⟨hfind, hlater⟩ :=
      id_names_predecessor hops hrun hlist hp hadd hstep hops' (by decide)
    exact ⟨hfind, hlater.imp fun r h a hfind => (h a hfind).2⟩
  refine ⟨_, _, rfl, rfl, hnames _ _ rfl rfl ⟨rfl, rfl, rfl⟩ (by decide) rfl ?_⟩
  refine (Runs.stepsMeet_cons rfl).mpr ⟨?_, trivial, fun _ _ => trivial⟩
  simp only [Admitted]
  decide

end StateMachine.Ids
