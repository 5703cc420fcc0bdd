import Mathlib.Data.List.TakeWhile
import CSnippets.ForStd.Digits

/-!
# Reading a number

`scanf("%d")` passes over white space and reads the number behind it: a sign, if there is
one, and as many digits as follow. If there are none, the sign is read away all the same,
and whatever else stands there is left for the next call.
-/

namespace Scanf

/-- `isspace` -/
def isSpace (b : UInt8) : Bool := b = 32 ∨ (9 ≤ b ∧ b ≤ 13)

/-- `isdigit` -/
def isDigit (b : UInt8) : Bool := 48 ≤ b ∧ b ≤ 57

/-- `+` or `-` -/
def isSign (b : UInt8) : Bool := b = 43 ∨ b = 45

/-- What follows the sign, if there is one. -/
def unsigned : List UInt8 → List UInt8
  | [] => []
  | b :: input => if isSign b then input else b :: input

/-- The number that the digits at the front spell. -/
def magnitude (input : List UInt8) : Nat :=
  Digits.value 10 ((input.takeWhile isDigit).map fun b => b.toNat - 48)

/-- The number at the front of the input and what follows it. -/
def number (input : List UInt8) : Option (Int × List UInt8) :=
  let digits := unsigned input
  if digits.takeWhile isDigit = [] then none
  else
    let n : Int := magnitude digits
    some (if input.head? = some 45 then -n else n, digits.dropWhile isDigit)

/-- `scanf("%d")`: the number, unless the input does not fit, and what is left of the input. -/
def scanInt (input : List UInt8) : Option Int × List UInt8 :=
  let item := input.dropWhile isSpace
  match number item with
  | some (v, rest) => (some v, rest)
  | none => (none, unsigned item)

/-- A number behind blanks is converted, and the rest of the input stays. -/
theorem scanInt_number {input rest : List UInt8} {v : Int}
    (h : number (input.dropWhile isSpace) = some (v, rest)) : scanInt input = (some v, rest) := by
  rw [scanInt]
  simp only [h]

/-- Where no number starts, nothing is converted and the offending text stays unread. -/
theorem scanInt_none (input : List UInt8) (h : number (input.dropWhile isSpace) = none) :
    scanInt input = (none, unsigned (input.dropWhile isSpace)) := by
  rw [scanInt]
  simp only [h]

/-- A sign is all that a failed conversion takes from the input. -/
theorem length_unsigned_le (input : List UInt8) : (unsigned input).length ≤ input.length := by
  cases input with
  | nil => exact Nat.le_refl 0
  | cons b input =>
    rw [unsigned]
    split
    · exact Nat.le_succ _
    · exact Nat.le_refl _

/-- A number is there if there are digits, and it ends with the last of them. -/
theorem number_eq_some {input rest : List UInt8} {v : Int} (h : number input = some (v, rest)) :
    (unsigned input).takeWhile isDigit ≠ [] ∧ rest = (unsigned input).dropWhile isDigit ∧
      (v = 0 ↔ magnitude (unsigned input) = 0) := by
  simp only [number] at h
  split at h
  · cases h
  · rename_i hdigits
    simp only [Option.some.injEq, Prod.mk.injEq] at h
    refine ⟨hdigits, h.2.symm, ?_⟩
    rw [← h.1]
    split <;> omega

/-- Converting a number takes at least one byte. -/
theorem number_lt {input rest : List UInt8} {v : Int} (h : number input = some (v, rest)) :
    rest.length < input.length := by
  obtain ⟨hdigits, hrest, -⟩ := number_eq_some h
  have hsplit := congrArg List.length
    (List.takeWhile_append_dropWhile (p := isDigit) (l := unsigned input))
  have hle := length_unsigned_le input
  have hpos := List.length_pos_of_ne_nil hdigits
  rw [List.length_append] at hsplit
  rw [hrest]
  omega

/-- All numbers of a text, in the order in which they stand there. -/
def numbers : List UInt8 → List Int
  | [] => []
  | b :: input =>
    match _h : number (b :: input) with
    | some (v, rest) => v :: numbers rest
    | none => numbers input
termination_by input => input.length
decreasing_by
  · exact number_lt _h
  · exact Nat.lt_succ_self _

/-- The numbers of an input that starts with one are it and those behind it. -/
theorem numbers_number {input rest : List UInt8} {v : Int} (h : number input = some (v, rest)) :
    numbers input = v :: numbers rest := by
  cases input with
  | nil => cases h
  | cons b input =>
    rw [numbers]
    split
    · rename_i v' rest' h'
      rw [h'] at h
      cases h
      rfl
    · rename_i h'
      rw [h'] at h
      cases h

/-- A byte at which no number starts is passed over. -/
theorem numbers_none {b : UInt8} {input : List UInt8} (h : number (b :: input) = none) :
    numbers (b :: input) = numbers input := by
  rw [numbers]
  split
  · rename_i h'
    rw [h'] at h
    cases h
  · rfl

/-- A number starts with a sign or a digit. -/
theorem number_cons_none {b : UInt8} (input : List UInt8) (hsign : isSign b = false)
    (hdigit : isDigit b = false) : number (b :: input) = none := by
  have htake : (unsigned (b :: input)).takeWhile isDigit = [] := by
    rw [unsigned, hsign, if_neg Bool.false_ne_true, List.takeWhile_cons, hdigit]
    rfl
  rw [number, if_pos htake]

/-- Where no number starts and no sign stands, the byte is no digit either. -/
theorem isDigit_of_number_none {b : UInt8} {input : List UInt8}
    (h : number (b :: input) = none) (hsign : isSign b = false) : isDigit b = false := by
  cases hdigit : isDigit b with
  | false => rfl
  | true =>
    have htake : (unsigned (b :: input)).takeWhile isDigit ≠ [] := by
      rw [unsigned, hsign, if_neg Bool.false_ne_true, List.takeWhile_cons, hdigit]
      exact List.cons_ne_nil _ _
    rw [number, if_neg htake] at h
    cases h

/-- A blank is neither a sign nor a digit. -/
theorem isSpace_ne {b : UInt8} (h : isSpace b) : isSign b = false ∧ isDigit b = false := by
  simp only [isSpace, isSign, isDigit, decide_eq_true_eq, decide_eq_false_iff_not] at h ⊢
  grind

/-- A run of digits has the value zero just when all of them are the digit zero. -/
theorem magnitude_eq_zero_iff (input : List UInt8) :
    magnitude input = 0 ↔ ∀ b ∈ input.takeWhile isDigit, b = 48 := by
  rw [magnitude, Digits.value_eq_zero_iff (by decide), List.forall_mem_map]
  apply forall₂_congr
  intro b hb
  have hdigit := List.mem_takeWhile_imp hb
  simp only [isDigit, decide_eq_true_eq, UInt8.le_iff_toNat_le, UInt8.reduceToNat] at hdigit
  rw [← UInt8.toNat_inj]
  show b.toNat - 48 = 0 ↔ b.toNat = 48
  omega

/-- White space stands between numbers. -/
theorem numbers_dropWhile_isSpace (input : List UInt8) :
    numbers (input.dropWhile isSpace) = numbers input := by
  induction input with
  | nil => rfl
  | cons b input ih =>
    rw [List.dropWhile_cons]
    split
    · rename_i hspace
      obtain ⟨hsign, hdigit⟩ := isSpace_ne hspace
      rw [ih, numbers_none (number_cons_none input hsign hdigit)]
    · rfl

end Scanf
