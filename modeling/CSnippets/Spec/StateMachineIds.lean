import CSnippets.Spec.StateMachineList

/-!
# The IDs of registered states

Beside the state machine runs a registry: what every `addState` call returned,
allocated and was given, as long as its ID has not been passed to `deleteState`.
The IDs should name these states. Since `addState` stores the new ID in the node
in front of the new one, they name none: `findState` of the ID just returned
finds the state registered before it, or nothing.
-/

namespace StateMachine.Ids

open SentinelList

/-- A call of `addState`: the ID it returned, the node it allocated and its arguments. -/
structure Entry where
  ID : UInt32
  addr : Addr
  args : StateArgs

/-- The state machine, the calls whose ID is live, and the IDs deleted. -/
structure Registry where
  sm : Sm
  live : List Entry
  deleted : List UInt32

/-- Nothing is registered. -/
def Registry.zero : Registry := { sm := Sm.zero, live := [], deleted := [] }

/-- The calls that change the list. -/
inductive Op where
  | add (p : Addr) (args : StateArgs)
  | delete (ID : UInt32)

/-- The call deletes a state. -/
def Op.IsDelete : Op → Prop
  | .add _ _ => False
  | .delete _ => True

/-- A call, and what it should make of the registry. -/
def step (r : Registry) : Op → Option Registry
  | .add p args => do
    let (ID, sm) ← addState r.sm p args
    return { sm := sm, live := r.live ++ [⟨ID, p, args⟩], deleted := r.deleted.filter (· != ID) }
  | .delete ID => do
    let sm ← deleteState r.sm ID
    return { sm := sm, live := r.live.filter (·.ID != ID),
             deleted := if r.live.any (·.ID == ID) then ID :: r.deleted else r.deleted }

/-- The allocator returns an address that is not in use. -/
def Admitted (r : Registry) : Op → Prop
  | .add p _ => p ∉ r.sm.mem
  | .delete _ => True

/-- Every live ID finds the state of its own call, a deleted ID finds nothing,
    and no two live states carry the same `_ID`. -/
structure Named (r : Registry) : Prop where
  found : ∀ e ∈ r.live, findState r.sm e.ID = some (some e.addr) ∧
    ∃ s, valOf r.sm.mem e.addr = some s ∧ s.toArgs = e.args
  gone : ∀ ID ∈ r.deleted, findState r.sm ID = some none
  distinct : r.live.Pairwise fun e e' => ∀ s s', valOf r.sm.mem e.addr = some s →
    valOf r.sm.mem e'.addr = some s' → s.ID ≠ s'.ID

/-- The ID returned by `addState` finds the node in front of the new one; on an
    empty list it finds nothing. -/
theorem findState_addState {sm sm' : Sm} {l : List (Addr × SystemState)} {p : Addr}
    {args : StateArgs} {ID : UInt32} (h : Registered sm l) (hp : p ∉ sm.mem)
    (hID : sm.stateCount + 1 ≠ 0) (hfresh : ∀ e ∈ l, e.2.ID ≠ sm.stateCount + 1)
    (hadd : addState sm p args = some (ID, sm')) :
    findState sm' ID = some (if l = [] then none else some (lastAddr headAddr l)) := by
  obtain ⟨sm'', hadd', hreg, -⟩ := addState_spec h hp args
  obtain ⟨rfl, rfl⟩ : ID = sm.stateCount + 1 ∧ sm' = sm'' := by
    simpa using hadd.symm.trans hadd'
  rw [findState_spec hreg, List.find?_append]
  have hnew : ([(p, args.toState)].find? fun e => e.2.ID == sm.stateCount + 1) = none := by
    simpa [StateArgs.toState] using hID.symm
  rw [hnew, Option.or_none]
  rcases List.eq_nil_or_concat' l with rfl | ⟨l, ⟨c, w⟩, rfl⟩
  · rfl
  · -- the ID went to the last of the old nodes and to no other
    have hfront : (l.find? fun e => e.2.ID == sm.stateCount + 1) = none := by
      rw [List.find?_eq_none]
      intro e he
      simpa using hfresh e (List.mem_append_left _ he)
    have hnodup : ((l ++ [(c, w)]).map Prod.fst).Nodup := (List.nodup_cons.mp h.nodup).2
    rw [setLastID_concat hnodup, List.find?_append, hfront, Option.none_or, lastAddr_concat,
      if_neg (by simp)]
    simp

/-! ## Whole runs -/

/-- Nothing has been registered so far. -/
structure Untouched (r : Registry) : Prop where
  list : Registered r.sm []
  count : r.sm.stateCount = 0
  live : r.live = []
  deleted : r.deleted = []

/-- The machine starts with nothing registered. -/
theorem untouched_zero : Untouched Registry.zero := ⟨registered_zero, rfl, rfl, rfl⟩

/-- Where nothing is registered all IDs find their states. -/
theorem Untouched.named {r : Registry} (h : Untouched r) : Named r := by
  constructor
  · simp [h.live]
  · simp [h.deleted]
  · simp [h.live]

/-- Deleting from an empty list leaves it empty. -/
theorem Untouched.step_delete {r : Registry} (h : Untouched r) (ID : UInt32) :
    ∃ r', step r (.delete ID) = some r' ∧ Untouched r' := by
  obtain ⟨sm', hdel, hreg, hcount, -⟩ := deleteState_spec h.list ID
  rw [List.eraseP_nil, ite_self] at hreg
  refine ⟨_, by rw [step, hdel]; rfl, hreg, hcount.trans h.count, ?_, ?_⟩
  · simp [h.live]
  · simp [h.live, h.deleted]

/-- The first `addState` returns ID 1, which finds nothing. -/
theorem Untouched.step_add {r r' : Registry} (h : Untouched r) {p : Addr} {args : StateArgs}
    (hp : p ∉ r.sm.mem) (hstep : step r (.add p args) = some r') : ¬ Named r' := by
  obtain ⟨sm', hadd, -⟩ := addState_spec h.list hp args
  have hone : r.sm.stateCount + 1 ≠ 0 := by rw [h.count]; decide
  have hfind := findState_addState h.list hp hone (by simp) hadd
  simp only [step, hadd, h.live, Option.bind_eq_bind, Option.bind_some, Option.pure_def,
    Option.some.injEq, List.nil_append] at hstep
  subst hstep
  intro hnamed
  have hfound := (hnamed.found _ (List.mem_singleton_self _)).1
  rw [hfind] at hfound
  simp at hfound

/-! ## Live IDs never find their own state -/

/-- The number of `addState` calls. -/
def adds : List Op → Nat
  | [] => 0
  | .add _ _ :: ops => adds ops + 1
  | .delete _ :: ops => adds ops

/-- A node that carries a live ID is not the node registered under it; all IDs in
    use are counted. -/
structure Misnamed (r : Registry) (l : List (Addr × SystemState)) : Prop where
  list : Registered r.sm l
  listed : ∀ x ∈ l, x.2.ID ≤ r.sm.stateCount
  counted : ∀ e ∈ r.live, e.ID ≠ 0 ∧ e.ID ≤ r.sm.stateCount
  other : ∀ e ∈ r.live, ∀ x ∈ l, x.2.ID = e.ID → x.1 ≠ e.addr

/-- No live ID finds the state that was registered under it. -/
theorem Misnamed.findState_ne {r : Registry} {l : List (Addr × SystemState)} (h : Misnamed r l) :
    ∀ e ∈ r.live, findState r.sm e.ID ≠ some (some e.addr) := by
  intro e he hfound
  rw [findState_spec h.list, Option.some.injEq, Option.map_eq_some_iff] at hfound
  obtain ⟨x, hx, hxe⟩ := hfound
  have hID : x.2.ID = e.ID := by simpa using List.find?_some hx
  exact h.other e he x (List.mem_of_find?_eq_some hx) hID hxe

/-- A node of the list in which the ID has been stored is an old one or carries it. -/
private theorem mem_setLastID {ID : UInt32} {l : List (Addr × SystemState)}
    {x : Addr × SystemState} (hx : x ∈ setLastID ID l) :
    x ∈ l ∨ (x.2.ID = ID ∧ x.1 ∈ l.map Prod.fst) := by
  obtain ⟨e, he, rfl⟩ := List.mem_map.mp hx
  split
  · exact Or.inr ⟨rfl, List.mem_map.mpr ⟨e, he, rfl⟩⟩
  · exact Or.inl he

/-- `addState` gives the new ID to an old node and leaves the new one with a zero. -/
private theorem Misnamed.add {r r' : Registry} {l : List (Addr × SystemState)} {p : Addr}
    {args : StateArgs} (h : Misnamed r l) (hadm : Admitted r (.add p args))
    (hwrap : r.sm.stateCount.toNat + 1 < 2 ^ 32) (hstep : Ids.step r (.add p args) = some r') :
    (∃ l', Misnamed r' l') ∧ r'.sm.stateCount.toNat = r.sm.stateCount.toNat + 1 := by
  obtain ⟨sm', hadd, hreg, hcount, -⟩ := addState_spec h.list hadm args
  simp only [Ids.step, hadd, Option.bind_eq_bind, Option.bind_some, Option.pure_def,
    Option.some.injEq] at hstep
  subst hstep
  have hnext : (r.sm.stateCount + 1).toNat = r.sm.stateCount.toNat + 1 := by
    rw [UInt32.toNat_add, UInt32.toNat_one]
    exact Nat.mod_eq_of_lt hwrap
  have hpos : r.sm.stateCount + 1 ≠ 0 := by
    intro hzero
    have hnat := congrArg UInt32.toNat hzero
    rw [hnext, UInt32.toNat_zero] at hnat
    omega
  have hlt : ∀ ID ≤ r.sm.stateCount, ID < r.sm.stateCount + 1 := fun ID hID => by
    rw [UInt32.lt_iff_toNat_lt, hnext]
    exact Nat.lt_succ_of_le (UInt32.le_iff_toNat_le.mp hID)
  have hne : ∀ ID ≤ r.sm.stateCount, ID ≠ r.sm.stateCount + 1 :=
    fun ID hID hEq => UInt32.lt_irrefl _ (hEq ▸ hlt ID hID)
  have hp : ∀ x ∈ l, x.1 ≠ p := fun x hx hxp =>
    hadm (hxp ▸ Seg.mem h.list x.1 (List.mem_cons_of_mem _ (List.mem_map_of_mem hx)))
  refine ⟨⟨_, hreg, ?_, ?_, ?_⟩, by rw [hcount, hnext]⟩
  · -- the IDs in the nodes: old ones, the new one, and the zero of the new node
    intro x hx
    rw [hcount]
    rcases List.mem_append.mp hx with hx | hx
    · rcases mem_setLastID hx with hx | hx
      · exact UInt32.le_of_lt (hlt _ (h.listed x hx))
      · exact hx.1 ▸ UInt32.le_refl _
    · obtain rfl : x = (p, args.toState) := by simpa using hx
      exact UInt32.le_iff_toNat_le.mpr (Nat.zero_le _)
  · intro e he
    rw [hcount]
    rcases List.mem_append.mp he with he | he
    · exact ⟨(h.counted e he).1, UInt32.le_of_lt (hlt _ (h.counted e he).2)⟩
    · obtain rfl : e = ⟨r.sm.stateCount + 1, p, args⟩ := by simpa using he
      exact ⟨hpos, UInt32.le_refl _⟩
  · intro e he x hx hID
    rcases List.mem_append.mp he with he | he
    · -- an older ID: the call only stored the new ID and a zero
      rcases List.mem_append.mp hx with hx | hx
      · rcases mem_setLastID hx with hx | hx
        · exact h.other e he x hx hID
        · exact absurd (hID.symm.trans hx.1) (hne _ (h.counted e he).2)
      · obtain rfl : x = (p, args.toState) := by simpa using hx
        exact absurd hID.symm (h.counted e he).1
    · -- the new ID: it is in an old node, the registered node is new
      obtain rfl : e = ⟨r.sm.stateCount + 1, p, args⟩ := by simpa using he
      rcases List.mem_append.mp hx with hx | hx
      · obtain ⟨y, hy, hyx⟩ : ∃ y ∈ l, y.1 = x.1 := by
          rcases mem_setLastID hx with hx | hx
          · exact ⟨x, hx, rfl⟩
          · exact List.mem_map.mp hx.2
        exact hyx ▸ hp y hy
      · obtain rfl : x = (p, args.toState) := by simpa using hx
        exact absurd hID.symm hpos

/-- `deleteState` only takes away nodes and entries. -/
private theorem Misnamed.delete {r r' : Registry} {l : List (Addr × SystemState)} {ID : UInt32}
    (h : Misnamed r l) (hstep : Ids.step r (.delete ID) = some r') :
    (∃ l', Misnamed r' l') ∧ r'.sm.stateCount = r.sm.stateCount := by
  obtain ⟨sm', hdel, hreg, hcount, -⟩ := deleteState_spec h.list ID
  simp only [Ids.step, hdel, Option.bind_eq_bind, Option.bind_some, Option.pure_def,
    Option.some.injEq] at hstep
  subst hstep
  -- deleting takes away and renumbers nothing
  have hsub : ∀ x ∈ (if ID = 0 then l else l.eraseP fun e => e.2.ID == ID), x ∈ l := by
    intro x hx
    split at hx
    · exact hx
    · exact List.mem_of_mem_eraseP hx
  have hlive : ∀ e ∈ r.live.filter (·.ID != ID), e ∈ r.live :=
    fun e he => (List.mem_filter.mp he).1
  refine ⟨⟨_, hreg, ?_, ?_, ?_⟩, hcount⟩
  · exact fun x hx => hcount ▸ h.listed x (hsub x hx)
  · exact fun e he => hcount ▸ h.counted e (hlive e he)
  · exact fun e he x hx => h.other e (hlive e he) x (hsub x hx)

/-- While the counter does not wrap, a call keeps live IDs misnamed. -/
theorem Misnamed.step {r r' : Registry} {l : List (Addr × SystemState)} {op : Op}
    (h : Misnamed r l) (hadm : Admitted r op)
    (hwrap : r.sm.stateCount.toNat + adds [op] < 2 ^ 32) (hstep : Ids.step r op = some r') :
    (∃ l', Misnamed r' l') ∧
      r'.sm.stateCount.toNat = r.sm.stateCount.toNat + adds [op] := by
  cases op with
  | add p args => exact h.add hadm hwrap hstep
  | delete ID =>
    obtain ⟨hmisnamed, hcount⟩ := h.delete hstep
    exact ⟨hmisnamed, congrArg UInt32.toNat hcount⟩

/-- In a run of fewer than 2^32 `addState` calls no live ID ever finds its state. -/
theorem Misnamed.always {r : Registry} {l : List (Addr × SystemState)} {ops : List Op}
    (h : Misnamed r l) (hops : Runs.StepsMeet Ids.step Admitted r ops)
    (hwrap : r.sm.stateCount.toNat + adds ops < 2 ^ 32) :
    Runs.Always Ids.step (fun r => ∀ e ∈ r.live, findState r.sm e.ID ≠ some (some e.addr))
      r ops := by
  induction ops generalizing r l with
  | nil => exact h.findState_ne
  | cons op ops ih =>
    refine ⟨h.findState_ne, fun r' hr' => ?_⟩
    have hcons : adds (op :: ops) = adds [op] + adds ops := by
      cases op <;> simp [adds, Nat.add_comm]
    rw [hcons] at hwrap
    obtain ⟨⟨l', h'⟩, hcount⟩ := h.step hops.1 (by omega) hr'
    exact ih h' (hops.2 r' hr') (by omega)

/-- In a run of `addState` and `deleteState` calls the IDs name their states, in
    every state reached, exactly when the run registers no state at all; and in a
    run of fewer than 2^32 `addState` calls no live ID ever finds its own state. -/
theorem ids_named_iff (ops : List Op) (hops : Runs.StepsMeet step Admitted Registry.zero ops) :
    (Runs.Safe step Named Registry.zero ops ↔ ∀ op ∈ ops, op.IsDelete) ∧
      (adds ops < 2 ^ 32 → Runs.Always step
        (fun r => ∀ e ∈ r.live, findState r.sm e.ID ≠ some (some e.addr)) Registry.zero ops) := by
  have hiff : Runs.Safe step Named Registry.zero ops ↔
      Runs.StepsMeet step (fun _ op => op.IsDelete) Registry.zero ops := by
    refine Runs.safe_iff_stepsMeet (J := Untouched) (fun r op r' hr _ hop hstep => ?_)
      (fun r op hr _ hadm => ?_) untouched_zero untouched_zero.named hops
    · cases op with
      | add p args => exact hop.elim
      | delete ID =>
        obtain ⟨r'', hr'', hu⟩ := hr.step_delete ID
        obtain rfl : r'' = r' := Option.some.inj (hr''.symm.trans hstep)
        exact hu
    · cases op with
      | add p args =>
        -- the first registration already loses its ID
        refine ⟨fun h => ?_, fun h => h.elim⟩
        obtain ⟨r', hr', hnamed⟩ := h
        exact hr.step_add hadm hr' hnamed
      | delete ID =>
        obtain ⟨r', hr', hu⟩ := hr.step_delete ID
        exact ⟨fun _ => trivial, fun _ => ⟨r', hr', hu.named⟩⟩
  -- being a deletion does not depend on the state
  refine ⟨⟨fun h => h.stepsMeet_iff.mp (hiff.mp h), fun h => ?_⟩, fun hwrap => ?_⟩
  · exact hiff.mpr (Runs.stepsMeet_of_forall fun op hop _ => h op hop)
  · have hzero : Misnamed Registry.zero [] :=
      ⟨registered_zero, by simp, by simp [Registry.zero], by simp⟩
    exact hzero.always hops (by simpa [Registry.zero, Sm.zero] using hwrap)

/-- Two states registered at addresses 1 and 2. -/
theorem ids_named_iff_two_adds :
    ¬ Runs.Safe step Named Registry.zero
        [.add 1 ⟨none, some 11, some 12, some 13, none⟩, .add 2 ⟨none, none, some 22, none, none⟩] ∧
      Runs.Always step (fun r => ∀ e ∈ r.live, findState r.sm e.ID ≠ some (some e.addr))
        Registry.zero
        [.add 1 ⟨none, some 11, some 12, some 13, none⟩,
          .add 2 ⟨none, none, some 22, none, none⟩] := by
  obtain ⟨hiff, halways⟩ := ids_named_iff
    [.add 1 ⟨none, some 11, some 12, some 13, none⟩, .add 2 ⟨none, none, some 22, none, none⟩]
    ((Runs.stepsMeet_cons rfl).mpr ⟨by simp only [Admitted]; decide,
      (Runs.stepsMeet_cons rfl).mpr ⟨by simp only [Admitted]; decide, trivial⟩⟩)
  refine ⟨fun h => ?_, halways (by decide)⟩
  exact hiff.mp h _ List.mem_cons_self

/-- One `addState`: the ID it returns, 1, was stored in the sentinel, and the new
    state cannot be found under it. -/
theorem addState_id_lost :
    Runs.StepsMeet step Admitted Registry.zero
        [.add 1 ⟨some 10, some 11, some 12, some 13, none⟩] ∧
      ¬ Runs.Safe step Named Registry.zero
        [.add 1 ⟨some 10, some 11, some 12, some 13, none⟩] := by
  constructor
  · exact ⟨by simp only [Admitted]; decide, fun _ _ => trivial⟩
  · intro h
    obtain ⟨r, hr, hnamed⟩ := h.final
    obtain rfl := Option.some.inj hr
    exact absurd (hnamed.found _ (List.mem_singleton_self _)).1 (by decide)

end StateMachine.Ids
