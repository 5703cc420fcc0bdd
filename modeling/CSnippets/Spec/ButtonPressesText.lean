import CSnippets.Spec.ButtonPresses

/-!
# The text of the presses

When the identifiers that `buttonGetPresses` reports are those of the buttons pressed.
The loop takes the identifier from the node in front of the button it checks and reports
a button without a change as well.
-/

namespace Buttons

open SentinelList

/-- The identifiers of the buttons whose state went from 0 to 1, in list order. -/
def pressedIds (l l' : List (Addr × Button)) : List UInt8 :=
  ((l.zip l').filter fun p => !p.1.2.state && p.2.2.state).map fun p => p.1.2.identifier

variable (debounceDelay : UInt32) (readings : Addr → Reading)

/-- All buttons change, and those pressed have the identifier of the node in front. -/
def InStep : UInt8 → List (Addr × Button) → Prop
  | _, [] => True
  | front, (a, b) :: l =>
    ¬ Stops debounceDelay (readings a) b ∧ Changes debounceDelay (readings a) b ∧
      (b.state = false → front = b.identifier) ∧ InStep b.identifier l

/-- The identifier `owed` of a button pressed has not been reported yet: the next button
    pressed or unchanged follows a node with this identifier. One unchanged button pays
    the debt, and behind it all is `InStep`. -/
def Behind : UInt8 → UInt8 → List (Addr × Button) → Prop
  | _, _, [] => False
  | owed, front, (a, b) :: l =>
    ¬ Stops debounceDelay (readings a) b ∧
      if Changes debounceDelay (readings a) b then
        if b.state then Behind owed b.identifier l
        else front = owed ∧ Behind b.identifier b.identifier l
      else front = owed ∧ InStep debounceDelay readings b.identifier l

/-- The buttons for which exactly the presses are reported. Without an identifier in the
    sentinel the report of the first button is lost. -/
def Reported : UInt8 → List (Addr × Button) → Prop
  | _, [] => True
  | front, (a, b) :: l =>
    if front = 0 then
      ¬ Stops debounceDelay (readings a) b ∧
        if Pressed debounceDelay (readings a) b then
          Behind debounceDelay readings b.identifier b.identifier l
        else InStep debounceDelay readings b.identifier l
    else InStep debounceDelay readings front ((a, b) :: l)

variable {debounceDelay} {readings} {a : Addr} {b : Button} {l : List (Addr × Button)}
  {front owed : UInt8}

/-! ## The presses of a list -/

/-- The first button's identifier is in the text if it was pressed. -/
theorem pressedIds_cons :
    pressedIds ((a, b) :: l) (afterAll debounceDelay readings ((a, b) :: l)) =
      (if Pressed debounceDelay (readings a) b then [b.identifier] else []) ++
        pressedIds l (afterAll debounceDelay readings l) := by
  have hpressed : (!b.state && (after debounceDelay (readings a) b).state) = true ↔
      Pressed debounceDelay (readings a) b := by
    rw [Pressed, after]
    by_cases hchanges : Changes debounceDelay (readings a) b <;> simp [hchanges]
  rw [pressedIds, afterAll, List.map_cons, List.zip_cons_cons, List.filter_cons]
  by_cases h : Pressed debounceDelay (readings a) b
  · rw [if_pos (hpressed.mpr h), if_pos h]
    rfl
  · rw [if_neg fun hstate => h (hpressed.mp hstate), if_neg h]
    rfl

/-- Behind an identifier every press is reported, as are the buttons unchanged. -/
theorem length_pressedIds_le (hfront : front ≠ 0) (hids : ∀ e ∈ l, e.2.identifier ≠ 0) :
    (pressedIds l (afterAll debounceDelay readings l)).length ≤
      (reportedAll debounceDelay readings front l).length := by
  induction l generalizing front with
  | nil => exact Nat.le_refl 0
  | cons e l ih =>
    obtain ⟨hid, hids⟩ := List.forall_mem_cons.mp hids
    have hrest := ih hid hids
    have hone : (if Pressed debounceDelay (readings e.1) e.2 then [e.2.identifier] else []).length ≤
        (reported debounceDelay front (readings e.1) e.2).length := by
      split
      · rename_i hpressed
        have hreleased : ¬ Released debounceDelay (readings e.1) e.2 := fun h =>
          Bool.false_ne_true (hpressed.2.symm.trans h.2)
        rw [reported_of_not_released hreleased hfront]
        exact Nat.le_refl 1
      · exact Nat.zero_le _
    rw [pressedIds_cons, reportedAll, List.length_append, List.length_append]
    omega

/-! ## When the report is right -/

/-- Behind an identifier other than 0, the loop reports the presses exactly if the buttons are in
    step. -/
theorem inStep_iff (hfront : front ≠ 0) (hids : ∀ e ∈ l, e.2.identifier ≠ 0) :
    ((∀ e ∈ l, ¬ Stops debounceDelay (readings e.1) e.2) ∧
      reportedAll debounceDelay readings front l =
        pressedIds l (afterAll debounceDelay readings l)) ↔
      InStep debounceDelay readings front l := by
  induction l generalizing front with
  | nil => simp [reportedAll, pressedIds, InStep]
  | cons e l ih =>
    obtain ⟨a, b⟩ := e
    obtain ⟨hid, hids⟩ := List.forall_mem_cons.mp hids
    have hlength : (pressedIds l (afterAll debounceDelay readings l)).length ≤
        (reportedAll debounceDelay readings b.identifier l).length := length_pressedIds_le hid hids
    rw [List.forall_mem_cons, reportedAll, pressedIds_cons, InStep, ← ih hid hids]
    by_cases hchanges : Changes debounceDelay (readings a) b
    · cases hstate : b.state with
      | true =>
        have hpressed : ¬ Pressed debounceDelay (readings a) b := fun h =>
          Bool.false_ne_true (h.2.symm.trans hstate)
        rw [reported_of_released ⟨hchanges, hstate⟩, if_neg hpressed]
        simp [hchanges, and_assoc]
      | false =>
        have hreleased : ¬ Released debounceDelay (readings a) b := fun h =>
          Bool.false_ne_true (hstate.symm.trans h.2)
        have hpressed : Pressed debounceDelay (readings a) b := ⟨hchanges, hstate⟩
        rw [reported_of_not_released hreleased hfront, if_pos hpressed, List.singleton_append,
          List.singleton_append, List.cons.injEq]
        constructor
        · rintro ⟨⟨hstops, hall⟩, hsame, htail⟩
          exact ⟨hstops, hchanges, fun _ => hsame, hall, htail⟩
        · rintro ⟨hstops, -, hsame, hall, htail⟩
          exact ⟨⟨hstops, hall⟩, hsame rfl, htail⟩
    · -- an unchanged button is reported and not pressed: one identifier too many
      rw [reported_of_not_released (fun h => hchanges h.1) hfront, if_neg fun h => hchanges h.1,
        List.nil_append]
      apply iff_of_false
      · rintro ⟨-, heq⟩
        have := congrArg List.length heq
        rw [List.length_append, List.length_singleton] at this
        omega
      · exact fun h => hchanges h.2.1

/-- With one identifier owed, the loop reports it and the presses exactly if the list pays the
    debt. -/
theorem behind_iff (hfront : front ≠ 0) (hids : ∀ e ∈ l, e.2.identifier ≠ 0) :
    ((∀ e ∈ l, ¬ Stops debounceDelay (readings e.1) e.2) ∧
      reportedAll debounceDelay readings front l =
        owed :: pressedIds l (afterAll debounceDelay readings l)) ↔
      Behind debounceDelay readings owed front l := by
  induction l generalizing front owed with
  | nil => simp [reportedAll, pressedIds, Behind]
  | cons e l ih =>
    obtain ⟨a, b⟩ := e
    obtain ⟨hid, hids⟩ := List.forall_mem_cons.mp hids
    rw [List.forall_mem_cons, reportedAll, pressedIds_cons, Behind]
    by_cases hchanges : Changes debounceDelay (readings a) b
    · rw [if_pos hchanges]
      cases hstate : b.state with
      | true =>
        -- nothing is reported, and the debt stays
        have hpressed : ¬ Pressed debounceDelay (readings a) b := fun h =>
          Bool.false_ne_true (h.2.symm.trans hstate)
        rw [if_pos rfl, ← ih hid hids, reported_of_released ⟨hchanges, hstate⟩, if_neg hpressed,
          and_assoc]
        rfl
      | false =>
        -- the debt is paid, and the button pressed is the next one owed
        have hreleased : ¬ Released debounceDelay (readings a) b := fun h =>
          Bool.false_ne_true (hstate.symm.trans h.2)
        have hpressed : Pressed debounceDelay (readings a) b := ⟨hchanges, hstate⟩
        rw [if_neg Bool.false_ne_true, ← ih hid hids, reported_of_not_released hreleased hfront,
          if_pos hpressed, List.singleton_append, List.singleton_append, List.cons.injEq]
        exact and_and_and_comm.trans and_assoc
    · -- the debt is paid, and nothing is owed
      rw [if_neg hchanges, ← inStep_iff hid hids,
        reported_of_not_released (fun h => hchanges h.1) hfront, if_neg fun h => hchanges h.1,
        List.nil_append, List.singleton_append, List.cons.injEq]
      exact and_and_and_comm.trans and_assoc

/-- Behind any identifier, the loop reports the presses exactly for the lists of `Reported`. -/
theorem reported_iff (hids : ∀ e ∈ l, e.2.identifier ≠ 0) :
    ((∀ e ∈ l, ¬ Stops debounceDelay (readings e.1) e.2) ∧
      reportedAll debounceDelay readings front l =
        pressedIds l (afterAll debounceDelay readings l)) ↔
      Reported debounceDelay readings front l := by
  -- an identifier 0 of the node in front ends the text before the first button
  by_cases hfront : front = 0
  · cases l with
    | nil => simp [reportedAll, pressedIds, Reported]
    | cons e l =>
      obtain ⟨a, b⟩ := e
      obtain ⟨hid, hids⟩ := List.forall_mem_cons.mp hids
      rw [List.forall_mem_cons, reportedAll, pressedIds_cons, Reported, if_pos hfront, reported,
        if_pos (Or.inr hfront), List.nil_append]
      by_cases hpressed : Pressed debounceDelay (readings a) b
      · rw [if_pos hpressed, if_pos hpressed, ← behind_iff hid hids, and_assoc]
        rfl
      · rw [if_neg hpressed, if_neg hpressed, ← inStep_iff hid hids, and_assoc]
        rfl
  · rw [inStep_iff hfront hids]
    cases l with
    | nil => simp [InStep, Reported]
    | cons e l => rw [Reported, if_neg hfront]

/-! ## The string returned -/

/-- With a block that has room for all identifiers, `buttonGetPresses` returns exactly the
    identifiers of the buttons pressed, in list order, if and only if the buttons are
    `Reported`. -/
theorem presses_text_iff (debounceDelay : UInt32) (readings : Addr → Reading) (bt : Bt)
    (hd : Button) (l : List (Addr × Button)) (hlist : Registered bt l)
    (hhead : valOf bt.mem headAddr = some hd) (hids : ∀ e ∈ l, e.2.identifier ≠ 0)
    (hroom : l.length < bt.buttonCount.toNat) :
    (∃ ret bt' l', buttonGetPresses debounceDelay true readings bt = .ok (ret, bt') ∧
      Registered bt' l' ∧ CMemory.cString ret = some (pressedIds l l')) ↔
        Reported debounceDelay readings hd.identifier l := by
  rw [← reported_iff hids]
  constructor
  · rintro ⟨ret, bt', l', hok, hlist', htext⟩
    obtain ⟨hall, ⟨n, hret⟩, hafter, -⟩ := buttonGetPresses_ok hlist hhead hok
    obtain rfl : l' = afterAll debounceDelay readings l := IsList.unique hlist' hafter
    rw [hret, CMemory.cString_zeros zero_not_mem_reportedAll] at htext
    split at htext
    · cases htext
    · exact ⟨hall, Option.some.inj htext⟩
  · rintro ⟨hall, heq⟩
    obtain ⟨ret, bt', hok, hzero⟩ := exists_buttonGetPresses hlist hhead hroom hall
    obtain ⟨-, ⟨n, hret⟩, hafter, -⟩ := buttonGetPresses_ok hlist hhead hok
    -- the terminator is one of the zeros behind the text
    have hn : n ≠ 0 := by
      rintro rfl
      rw [hret, List.replicate_zero, List.append_nil] at hzero
      exact zero_not_mem_reportedAll hzero
    exact ⟨ret, bt', _, hok, hafter, by
      rw [hret, CMemory.cString_zeros zero_not_mem_reportedAll, if_neg hn, heq]⟩

/-- A button pressed behind a node with the same identifier, and one released. -/
theorem presses_text_iff_same_identifier :
    ∃ ret bt' l', buttonGetPresses 5 true (fun a => if a = 1 then ⟨10, 1⟩ else ⟨11, 0⟩)
        { mem := ((Finmap.singleton headAddr ⟨⟨66, false, 0, some 5, 0, 0⟩, some 1⟩).insert 1
            ⟨⟨66, false, 0, some 6, 0, 0⟩, some 2⟩).insert 2 ⟨⟨67, true, 0, some 7, 0, 0⟩, none⟩,
          buttonCount := 9 } = .ok (ret, bt') ∧
      Registered bt' l' ∧ CMemory.cString ret = some (pressedIds
        [(1, ⟨66, false, 0, some 6, 0, 0⟩), (2, ⟨67, true, 0, some 7, 0, 0⟩)] l') := by
  apply (presses_text_iff 5 _ _ ⟨66, false, 0, some 5, 0, 0⟩ _ ?_ ?_ ?_ ?_).mpr
  · rw [Reported, if_neg (by decide)]
    exact ⟨by decide, by decide, fun _ => rfl, by decide, by decide, nofun, trivial⟩
  · exact ⟨rfl, rfl, rfl, rfl, rfl⟩
  · rfl
  · decide
  · decide

/-- The buttons 65 and 66 are added and the node behind them is deleted, so that button 66
    is the only one. Within its debounce window it is reported, as 65; when it is pressed,
    65 is reported as well. -/
theorem identifier_in_front_reported :
    ∃ bt, [Request.change (.add 1 ⟨65, some 5, 0, 0⟩), .change (.add 2 ⟨66, some 6, 0, 0⟩),
        .change (.delete 0)].foldlM (serve 5) Bt.zero = some bt ∧
      Registered bt [(1, ⟨66, false, 0, some 6, 0, 0⟩)] ∧
      (∃ ret bt', buttonGetPresses 5 true (fun _ => ⟨0, 0⟩) { bt with buttonCount := 9 } =
          .ok (ret, bt') ∧ Registered bt' [(1, ⟨66, false, 0, some 6, 0, 0⟩)] ∧
        CMemory.cString ret = some [65] ∧ pressedIds [(1, ⟨66, false, 0, some 6, 0, 0⟩)]
          [(1, ⟨66, false, 0, some 6, 0, 0⟩)] = []) ∧
      ∃ ret bt', buttonGetPresses 5 true (fun _ => ⟨10, 1⟩) { bt with buttonCount := 9 } =
          .ok (ret, bt') ∧ Registered bt' [(1, ⟨66, true, 0, some 6, 0, 0⟩)] ∧
        CMemory.cString ret = some [65] ∧ pressedIds [(1, ⟨66, false, 0, some 6, 0, 0⟩)]
          [(1, ⟨66, true, 0, some 6, 0, 0⟩)] = [66] :=
  ⟨_, rfl, ⟨rfl, rfl, rfl⟩, ⟨_, _, rfl, ⟨rfl, rfl, rfl⟩, rfl, rfl⟩,
    ⟨_, _, rfl, ⟨rfl, rfl, rfl⟩, rfl, rfl⟩⟩

end Buttons
