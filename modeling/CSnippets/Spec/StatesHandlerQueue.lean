import CSnippets.Spec.StateMachineIds

/-!
# The width of a state ID

`addState` returns an `unsigned int` and `smInit` creates a queue of items of that
size, but `statesHandlerTask` receives into an `unsigned char`. No item fits it;
where the bytes behind it may be overwritten, it holds the lowest byte.
-/

namespace StateMachine

open Ids (Op Registry adds)

/-! ## The IDs returned -/

/-- IDs are counted through all `addState` calls and never reused. -/
theorem stateCount_step {r r' : Registry} {op : Op} (hstep : Ids.step r op = some r') :
    r'.sm.stateCount.toNat = (r.sm.stateCount.toNat + adds [op]) % 2 ^ 32 := by
  cases op with
  | add p args =>
    obtain ⟨⟨ID, sm'⟩, hadd, hstep⟩ := Option.bind_eq_some_iff.mp hstep
    obtain rfl := Option.some.inj hstep
    show sm'.stateCount.toNat = (r.sm.stateCount.toNat + 1) % 2 ^ 32
    rw [(addState_count hadd).2, UInt32.toNat_add, UInt32.toNat_one]
  | delete ID =>
    obtain ⟨sm', hdel, hstep⟩ := Option.bind_eq_some_iff.mp hstep
    obtain rfl := Option.some.inj hstep
    show sm'.stateCount.toNat = r.sm.stateCount.toNat % 2 ^ 32
    have hlt := r.sm.stateCount.toNat_lt
    rw [Nat.mod_eq_of_lt hlt]
    obtain rfl | ⟨-, -, -, -, -, -, -, rfl⟩ := deleteState_cases hdel
    · rfl
    · rfl

/-- The counter counts the calls of `addState`, modulo 2^32. -/
theorem stateCount_run {r r' : Registry} {ops : List Op}
    (hrun : ops.foldlM Ids.step r = some r') :
    r'.sm.stateCount.toNat = (r.sm.stateCount.toNat + adds ops) % 2 ^ 32 := by
  induction ops generalizing r with
  | nil =>
    obtain rfl := Option.some.inj hrun
    have hlt := r.sm.stateCount.toNat_lt
    show r.sm.stateCount.toNat = r.sm.stateCount.toNat % 2 ^ 32
    omega
  | cons op ops ih =>
    obtain ⟨r₁, hstep, hrest⟩ := Runs.run_cons.mp hrun
    have hfirst := stateCount_step hstep
    have hcons : adds (op :: ops) = adds [op] + adds ops := by
      cases op <;> simp [adds, Nat.add_comm]
    rw [ih hrest]
    omega

/-! ## What is received -/

/-- The variable alone has no room for an item. -/
theorem receivedState_alone (ID : UInt32) (b : UInt8) : receivedState ID [b] = none := by
  simp [receivedState, xQueueReceive, CMemory.memcpyTo, stateQueueItemSize]

/-- With the bytes behind it the variable becomes the lowest byte of the item. -/
theorem receivedState_overwriting (ID : UInt32) (b : UInt8) {others : List UInt8}
    (h : 3 ≤ others.length) : receivedState ID (b :: others) = some ID.toUInt8.toUInt32 := by
  simp [receivedState, xQueueReceive, CMemory.memcpyTo, stateQueueItemSize, itemBytes, h,
    CMemory.splice]

/-- The low byte of an ID is the ID exactly below 256. -/
theorem lowByte_eq_iff (ID : UInt32) : ID.toUInt8.toUInt32 = ID ↔ ID.toNat < 256 := by
  rw [← UInt32.toNat_inj]
  simp

/-- The IDs of a run are numbered through, and posting one never works: no item fits
    `state_in`, and even where it may overwrite the bytes behind it, the value looked up
    is the ID exactly if that is below 256. -/
theorem posted_id_never_fits (ops : List Op) (r : Registry) (p : SentinelList.Addr)
    (args : StateArgs) (ID : UInt32) (sm' : Sm) (hrun : ops.foldlM Ids.step Registry.zero = some r)
    (hadd : addState r.sm p args = some (ID, sm')) :
    ID.toNat = (adds ops + 1) % 2 ^ 32 ∧
      (∀ stateIn, receivedState ID [stateIn] ≠ some ID) ∧
      ∀ stateIn others, 3 ≤ others.length →
        (receivedState ID (stateIn :: others) = some ID ↔ ID.toNat < 256) := by
  refine ⟨?_, fun stateIn => ?_, fun stateIn others hothers => ?_⟩
  · have hcount := stateCount_run hrun
    have hzero : Registry.zero.sm.stateCount.toNat = 0 := rfl
    rw [(addState_count hadd).1, UInt32.toNat_add, UInt32.toNat_one, hcount, hzero]
    omega
  · rw [receivedState_alone]
    exact nofun
  · rw [receivedState_overwriting ID stateIn hothers, Option.some.injEq, lowByte_eq_iff]

/-- The second state registered has ID 2. -/
theorem posted_id_never_fits_second :
    (∀ stateIn, receivedState 2 [stateIn] ≠ some 2) ∧
      ∀ stateIn others, 3 ≤ others.length → receivedState 2 (stateIn :: others) = some 2 := by
  obtain ⟨-, halone, hothers⟩ := posted_id_never_fits
    [.add 1 ⟨none, none, some 12, none, none⟩] _ 2 ⟨none, none, some 22, none, none⟩ 2 _ rfl rfl
  exact ⟨halone, fun stateIn others h => (hothers stateIn others h).mpr (by decide)⟩

/-- The first ID does not fit the variable, and the 256th becomes 0. -/
theorem received_id_truncated :
    (∃ sm', addState Sm.zero 1 ⟨none, none, some 12, none, none⟩ = some (1, sm')) ∧
      receivedState 1 [0] = none ∧ receivedState 256 [0, 0, 0, 0] = some 0 :=
  ⟨⟨_, rfl⟩, rfl, rfl⟩

end StateMachine
