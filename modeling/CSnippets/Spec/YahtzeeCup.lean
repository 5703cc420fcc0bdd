import CSnippets.Native.Yahtzee

/-!
# Is the cup there?

`create_cup` stores the number of dice before it asks for their array, and looks at the
block of the cup only. Without the array `fill_cup` stores the first die at a null pointer;
with a negative count, for which there is never an array, it stores nothing and says that
all is well.
-/

namespace Yahtzee

/-- One of the blocks that the cup needs is not there. -/
def Failed (a : Allocations) (diceCount : Int32) : Prop :=
  a.cup = false ∨ callocDice a diceCount = none ∨ ∃ i < diceCount.toInt.toNat, a.die i = false

/-- The cup, its array and all its dice are there. -/
def Complete (diceCount : Int32) (myCup : Option Cup) : Prop :=
  ∃ (cup : Cup) (dice : List Die), myCup = some cup ∧ cup.dice = some (dice.map some) ∧
    dice.length = diceCount.toInt.toNat

/-- What `fill_cup` returns tells whether the blocks are there, and no null pointer is used
    on the way. -/
def Reports (a : Allocations) (diceCount maxValue : Int32) : Prop :=
  ∃ ret myCup, fillCup a (createCup a diceCount) maxValue = .ok (ret, myCup) ∧
    (Failed a diceCount → ret < 0) ∧ (ret = 0 → Complete diceCount myCup)

/-- A die that was not rolled yet -/
abbrev fresh (maxValue : Int32) : Option Die := some { maxValue := maxValue, currentValue := 0 }

variable {a : Allocations} {diceCount maxValue : Int32} {cup : Cup} {rounds : Nat}

/-! ## The array -/

/-- A count that is not negative is the number of items that `calloc` is asked for. -/
theorem toNat_size (h : 0 ≤ diceCount.toInt) :
    diceCount.toInt64.toUInt64.toNat = diceCount.toInt.toNat := by
  have hint : diceCount.toInt64.toInt = diceCount.toInt := Int32.toInt_toInt64 diceCount
  have hle : 0 ≤ diceCount.toInt64 := by
    rw [Int64.le_iff_toInt_le, hint]
    exact h
  rw [Int64.toNat_toUInt64_of_le hle, Int64.toNatClampNeg, hint]

/-- A negative one comes to more than half of the address space. -/
theorem le_toNat_size (h : diceCount.toInt < 0) :
    2 ^ 63 ≤ diceCount.toInt64.toUInt64.toNat := by
  have hint : diceCount.toInt64.toUInt64.toBitVec.toInt = diceCount.toInt :=
    Int32.toInt_toInt64 diceCount
  have hnat : diceCount.toInt64.toUInt64.toBitVec.toNat = diceCount.toInt64.toUInt64.toNat := rfl
  rw [BitVec.toInt_eq_toNat_cond] at hint
  split at hint <;> omega

/-- An array of the size asked for is zeroed. -/
theorem callocDice_of_nonneg (hdice : a.dice = true) (h : 0 ≤ diceCount.toInt) :
    callocDice a diceCount = some (List.replicate diceCount.toInt.toNat none) := by
  have hlt := Int32.toInt_lt diceCount
  have hfit : diceCount.toInt64.toUInt64.toNat * (8 : UInt64).toNat < UInt64.size := by
    rw [toNat_size h]
    show diceCount.toInt.toNat * 8 < 2 ^ 64
    omega
  rw [callocDice, CMemory.calloc, if_pos ⟨hdice, hfit⟩]
  rfl

/-- A negative count asks for more than there is. -/
theorem callocDice_of_neg (a : Allocations) (h : diceCount.toInt < 0) :
    callocDice a diceCount = none := by
  have hle := le_toNat_size h
  have hfit : ¬ diceCount.toInt64.toUInt64.toNat * (8 : UInt64).toNat < UInt64.size := by
    show ¬ diceCount.toInt64.toUInt64.toNat * 8 < 2 ^ 64
    omega
  rw [callocDice, CMemory.calloc, if_neg (fun hand => hfit hand.2)]
  rfl

/-- Without memory there is no array. -/
theorem callocDice_of_unavailable (diceCount : Int32) (hdice : a.dice = false) :
    callocDice a diceCount = none := by
  rw [callocDice, CMemory.calloc, hdice, if_neg (fun hand => Bool.false_ne_true hand.1)]
  rfl

/-! ## One die -/

/-- The die behind `front` -/
theorem die_append (diceCount : Int32) (front rest : List (Option Die)) (d : Die) :
    Cup.die ⟨some (front ++ some d :: rest), diceCount⟩ front.length = .ok d := by
  simp only [Cup.die, List.getElem?_append_right (Nat.le_refl _), Nat.sub_self,
    List.getElem?_cons_zero]

/-- Storing a die changes its place only. -/
theorem setDie_append (diceCount : Int32) (front rest : List (Option Die)) (e d : Option Die) :
    Cup.setDie ⟨some (front ++ e :: rest), diceCount⟩ front.length d =
      .ok ⟨some (front ++ [d] ++ rest), diceCount⟩ := by
  have hlt : front.length < (front ++ e :: rest).length := by
    rw [List.length_append, List.length_cons]
    omega
  simp only [Cup.setDie, if_pos hlt, List.set_append_right _ _ (Nat.le_refl _), Nat.sub_self,
    List.set_cons_zero, List.append_assoc, List.singleton_append]

/-! ## The loop of `fill_cup` -/

/-- One round: the loop goes on behind a die that is there, and ends at one that is not. -/
theorem fillFrom_succ (front rest : List (Option Die)) (e : Option Die) :
    fillFrom a maxValue (rounds + 1) front.length ⟨some (front ++ e :: rest), diceCount⟩ =
      if a.die front.length then
        fillFrom a maxValue rounds (front ++ [fresh maxValue]).length
          ⟨some (front ++ [fresh maxValue] ++ rest), diceCount⟩
      else .ok (-1, ⟨some (front ++ [none] ++ rest), diceCount⟩) := by
  rw [fillFrom, setDie_append, setDie_append, List.length_append, List.length_singleton]
  rfl

/-- With all dice there the rest of the places is filled with fresh ones. -/
theorem fillFrom_ok (front : List (Option Die)) (maxValue diceCount : Int32)
    (hall : ∀ i < front.length + rounds, a.die i = true) :
    fillFrom a maxValue rounds front.length
        ⟨some (front ++ List.replicate rounds none), diceCount⟩ =
      .ok (0, ⟨some (front ++ List.replicate rounds (fresh maxValue)), diceCount⟩) := by
  induction rounds generalizing front with
  | zero => rfl
  | succ rounds ih =>
    have hnext := ih (front ++ [fresh maxValue]) (by
      intro i hi
      rw [List.length_append, List.length_singleton] at hi
      exact hall i (by omega))
    rw [List.replicate_succ, fillFrom_succ, if_pos (hall front.length (by omega)), hnext,
      List.append_assoc]
    rfl

/-- With a die missing the loop returns -1. -/
theorem fillFrom_failed (front rest : List (Option Die)) (maxValue diceCount : Int32)
    (hfail : ∃ i, front.length ≤ i ∧ i < front.length + rest.length ∧ a.die i = false) :
    ∃ cup, fillFrom a maxValue rest.length front.length ⟨some (front ++ rest), diceCount⟩ =
      .ok (-1, cup) := by
  obtain ⟨i, hle, hlt, hnone⟩ := hfail
  induction rest generalizing front with
  | nil =>
    rw [List.length_nil] at hlt
    omega
  | cons e rest ih =>
    rw [List.length_cons] at hlt ⊢
    rw [fillFrom_succ]
    cases hdie : a.die front.length with
    | false => exact ⟨_, rfl⟩
    | true =>
      have hne : i ≠ front.length := by
        rintro rfl
        rw [hdie] at hnone
        cases hnone
      apply ih
      · rw [List.length_append, List.length_singleton]
        omega
      · rw [List.length_append, List.length_singleton]
        omega

/-! ## The cup -/

/-- `createCup` does not check the array it has asked for. -/
theorem createCup_of_none (hcup : a.cup = true) (hdice : callocDice a diceCount = none) :
    createCup a diceCount = some ⟨none, diceCount⟩ := by
  rw [createCup, if_pos hcup, hdice]

/-- With the array there the loop runs over fresh places. -/
theorem fillCup_of_array (hcup : a.cup = true) (hdice : a.dice = true)
    (hcount : 0 ≤ diceCount.toInt) :
    fillCup a (createCup a diceCount) maxValue =
      (fillFrom a maxValue diceCount.toInt.toNat 0
        ⟨some (List.replicate diceCount.toInt.toNat none), diceCount⟩).map
          fun r => (r.1, some r.2) := by
  rw [createCup, if_pos hcup, callocDice_of_nonneg hdice hcount, fillCup, Cup.rounds]
  cases fillFrom a maxValue diceCount.toInt.toNat 0
    ⟨some (List.replicate diceCount.toInt.toNat none), diceCount⟩ with
  | error halt => rfl
  | ok r => rfl

/-- With all blocks there the cup is filled with fresh dice. -/
theorem fillCup_ok (maxValue : Int32) (hcup : a.cup = true) (hdice : a.dice = true)
    (hcount : 0 ≤ diceCount.toInt) (hall : ∀ i < diceCount.toInt.toNat, a.die i = true) :
    fillCup a (createCup a diceCount) maxValue =
      .ok (0, some ⟨some (List.replicate diceCount.toInt.toNat (fresh maxValue)), diceCount⟩) := by
  have hfill := fillFrom_ok [] maxValue diceCount (by
    rw [List.length_nil, Nat.zero_add]
    exact hall)
  rw [List.length_nil, List.nil_append, List.nil_append] at hfill
  rw [fillCup_of_array hcup hdice hcount, hfill]
  rfl

/-- With a die missing `fillCup` returns -1. -/
theorem fillCup_failed (maxValue : Int32) (hcup : a.cup = true) (hdice : a.dice = true)
    (hcount : 0 ≤ diceCount.toInt) (hfail : ∃ i < diceCount.toInt.toNat, a.die i = false) :
    ∃ cup, fillCup a (createCup a diceCount) maxValue = .ok (-1, some cup) := by
  obtain ⟨i, hlt, hnone⟩ := hfail
  obtain ⟨cup, hfill⟩ := fillFrom_failed []
    (List.replicate diceCount.toInt.toNat none) maxValue diceCount
    ⟨i, Nat.zero_le i, by rw [List.length_nil, List.length_replicate]; omega, hnone⟩
  rw [List.length_replicate, List.length_nil, List.nil_append] at hfill
  exact ⟨cup, by rw [fillCup_of_array hcup hdice hcount, hfill]; rfl⟩

/-- Without the array and without rounds nothing is stored. -/
theorem fillCup_nothing (maxValue : Int32) (hcup : a.cup = true)
    (hdice : callocDice a diceCount = none) (hcount : diceCount.toInt ≤ 0) :
    fillCup a (createCup a diceCount) maxValue = .ok (0, some ⟨none, diceCount⟩) := by
  have hrounds : Cup.rounds ⟨none, diceCount⟩ = 0 := Int.toNat_eq_zero.mpr hcount
  rw [createCup_of_none hcup hdice, fillCup, hrounds]
  rfl

/-- Without its array a cup for dice is filled through a null pointer. -/
theorem fillCup_nullPointer (maxValue : Int32) (hcup : a.cup = true)
    (hdice : callocDice a diceCount = none) (hcount : 0 < diceCount.toInt) :
    fillCup a (createCup a diceCount) maxValue = .error .nullPointer := by
  obtain ⟨rounds, hrounds⟩ : ∃ n, Cup.rounds ⟨none, diceCount⟩ = n + 1 :=
    Nat.exists_eq_succ_of_ne_zero (by show diceCount.toInt.toNat ≠ 0; omega)
  rw [createCup_of_none hcup hdice, fillCup, hrounds, fillFrom]
  cases a.die 0 with
  | false => rfl
  | true => rfl

/-! ## What is reported -/

/-- With all blocks there nothing has failed. -/
theorem not_failed (hcup : a.cup = true) (hdice : a.dice = true) (hcount : 0 ≤ diceCount.toInt)
    (hall : ∀ i < diceCount.toInt.toNat, a.die i = true) : ¬ Failed a diceCount := by
  intro hfailed
  rw [Failed, hcup, callocDice_of_nonneg hdice hcount] at hfailed
  obtain hnone | hnone | ⟨i, hi, hnone⟩ := hfailed
  · cases hnone
  · cases hnone
  · rw [hall i hi] at hnone
    cases hnone

/-- `fill_cup` reports what is missing exactly if the cup is, or if the count is not negative
    and the array is there. -/
theorem fillCup_reports_iff (a : Allocations) (diceCount maxValue : Int32) :
    Reports a diceCount maxValue ↔ a.cup = false ∨ (0 ≤ diceCount.toInt ∧ a.dice = true) := by
  constructor
  · intro ⟨ret, myCup, hfill, hneg, _⟩
    by_contra hnot
    rw [not_or, not_and, Bool.not_eq_false, Bool.not_eq_true] at hnot
    obtain ⟨hcup, harray⟩ := hnot
    have hdice : callocDice a diceCount = none := by
      by_cases hcount : 0 ≤ diceCount.toInt
      · exact callocDice_of_unavailable diceCount (harray hcount)
      · exact callocDice_of_neg a (by omega)
    -- the first round of the loop uses the null pointer, and without one nobody looks at it
    by_cases hcount : 0 < diceCount.toInt
    · rw [fillCup_nullPointer maxValue hcup hdice hcount] at hfill
      cases hfill
    · rw [fillCup_nothing maxValue hcup hdice (by omega)] at hfill
      cases hfill
      exact absurd (hneg (.inr (.inl hdice))) (by decide)
  · intro h
    cases hcup : a.cup with
    | false =>
      have hnone : createCup a diceCount = none := by
        rw [createCup, hcup, if_neg Bool.false_ne_true]
      exact ⟨-1, none, by rw [hnone]; rfl, fun _ => by decide, fun h0 => nomatch h0⟩
    | true =>
      rw [hcup] at h
      obtain ⟨hcount, hdice⟩ := h.resolve_left (by decide)
      by_cases hfail : ∃ i < diceCount.toInt.toNat, a.die i = false
      · obtain ⟨cup, hfill⟩ := fillCup_failed maxValue hcup hdice hcount hfail
        exact ⟨-1, some cup, hfill, fun _ => by decide, fun h0 => nomatch h0⟩
      · simp only [not_exists, not_and, Bool.not_eq_false] at hfail
        refine ⟨0, _, fillCup_ok maxValue hcup hdice hcount hfail, ?_, ?_⟩
        · intro hmissing
          exact absurd hmissing (not_failed hcup hdice hcount hfail)
        · intro _
          refine ⟨_, List.replicate diceCount.toInt.toNat ⟨maxValue, 0⟩, rfl, ?_, ?_⟩
          · rw [List.map_replicate]
          · exact List.length_replicate

/-- One die, and no memory for the array: the null pointer is used. Minus one die: nothing
    is there but the cup, and zero is returned. -/
theorem fillCup_unreported :
    ¬ Reports ⟨true, false, fun _ => true⟩ 1 6 ∧ ¬ Reports ⟨true, true, fun _ => true⟩ (-1) 6 := by
  constructor
  · intro ⟨ret, myCup, hfill, _⟩
    cases hfill
  · intro ⟨ret, myCup, hfill, hneg, _⟩
    have hdice := callocDice_of_neg ⟨true, true, fun _ => true⟩ (by decide : (-1 : Int32).toInt < 0)
    rw [fillCup_nothing 6 rfl hdice (by decide)] at hfill
    cases hfill
    exact absurd (hneg (.inr (.inl hdice))) (by decide)

end Yahtzee
