import CSnippets.Native.Yahtzee
import Mathlib.Data.List.DropRight

/-!
# Does the prompt for a number end?

`prompt_int` does not look at what `scanf` returns. Where no number stands, `scanf` leaves
the input as it is, the variable is zero as before, and the next try meets the same input:
the prompt is repeated for ever, at the end of the input as well. So it ends only if
nothing but white space, signs and zeros stands before the digits of the number.
-/

namespace Yahtzee

open Scanf

/-- The first number of a text that is not zero and fits an `int`. -/
def firstInt (stdin : List UInt8) : Option Int :=
  (numbers stdin).find? fun v => v ≠ 0 ∧ fits v

/-- The prompt ends, and if there is a number to find the first is what it stores. -/
def Prompts (value : Int32) (stdin : List UInt8) : Prop :=
  ∃ fuel v rest, promptInt fuel value stdin = .ok (v, rest) ∧
    ∀ n, firstInt stdin = some n → v.toInt = n

/-- What the prompt passes over. -/
def idle (b : UInt8) : Bool := isSpace b ∨ isSign b ∨ b = 48

/-- Nothing stops the prompt before the first number other than zero, and that fits. -/
structure Readable (stdin : List UInt8) : Prop where
  digit : ∃ b, (stdin.dropWhile idle).head? = some b ∧ isDigit b
  fits : ∀ v, (numbers stdin).find? (· ≠ 0) = some v → fits v

variable {value : Int32} {stdin rest : List UInt8} {v : Int} {scanned : Option Int}

/-! ## What is passed over -/

/-- Blanks in front do not matter to what stops the prompt. -/
theorem dropWhile_idle_item (stdin : List UInt8) :
    (stdin.dropWhile isSpace).dropWhile idle = stdin.dropWhile idle := by
  induction stdin with
  | nil => rfl
  | cons b stdin ih =>
    rw [List.dropWhile_cons]
    split
    · rename_i hspace
      have hidle : idle b := by simp [idle, hspace]
      rw [ih, List.dropWhile_cons_of_pos hidle]
    · rfl

/-- A sign in front does not matter to what stops the prompt. -/
theorem dropWhile_idle_unsigned (stdin : List UInt8) :
    (unsigned stdin).dropWhile idle = stdin.dropWhile idle := by
  cases stdin with
  | nil => rfl
  | cons b stdin =>
    rw [unsigned]
    split
    · rename_i hsign
      have hidle : idle b := by simp [idle, hsign]
      rw [List.dropWhile_cons_of_pos hidle]
    · rfl

/-- Of the digits the prompt passes over zeros only. -/
theorem idle_of_isDigit {b : UInt8} (h : isDigit b) : idle b = true ↔ b = 48 := by
  simp only [idle, isDigit, isSpace, isSign, decide_eq_true_eq] at h ⊢
  grind

/-- A zero is passed over. -/
theorem dropWhile_idle_zero (h : number stdin = some (0, rest)) :
    rest.dropWhile idle = stdin.dropWhile idle := by
  obtain ⟨-, hrest, hzero⟩ := number_eq_some h
  have hdigits := (magnitude_eq_zero_iff _).mp (hzero.mp rfl)
  have hidle : ∀ b ∈ (unsigned stdin).takeWhile isDigit, idle b := by
    intro b hb
    exact (idle_of_isDigit (List.mem_takeWhile_imp hb)).mpr (hdigits b hb)
  calc rest.dropWhile idle
      = ((unsigned stdin).takeWhile isDigit ++ rest).dropWhile idle :=
        (List.dropWhile_append_of_pos hidle).symm
    _ = (unsigned stdin).dropWhile idle := by rw [hrest, List.takeWhile_append_dropWhile]
    _ = stdin.dropWhile idle := dropWhile_idle_unsigned stdin

/-- Another number is not. -/
theorem digit_of_ne_zero (h : number stdin = some (v, rest)) (hv : v ≠ 0) :
    ∃ b, (stdin.dropWhile idle).head? = some b ∧ isDigit b := by
  obtain ⟨-, hrest, hzero⟩ := number_eq_some h
  have hsplit := List.takeWhile_append_dropWhile (p := isDigit) (l := unsigned stdin)
  -- a digit that is not 0 stops the skipping
  have hne : ((unsigned stdin).takeWhile isDigit).dropWhile idle ≠ [] := by
    intro hnil
    apply hv
    rw [hzero, magnitude_eq_zero_iff]
    intro b hb
    exact (idle_of_isDigit (List.mem_takeWhile_imp hb)).mp (List.dropWhile_eq_nil_iff.mp hnil b hb)
  obtain ⟨b, bs, hbs⟩ := List.exists_cons_of_ne_nil hne
  have hmem : b ∈ (unsigned stdin).takeWhile isDigit := by
    apply (List.dropWhile_suffix idle).subset
    rw [hbs]
    exact List.mem_cons_self
  refine ⟨b, ?_, List.mem_takeWhile_imp hmem⟩
  rw [← dropWhile_idle_unsigned, ← hsplit, List.dropWhile_append, hbs]
  rfl

/-! ## One try -/

/-- The prompt returns the number that was stored, unless that is zero. -/
theorem promptInt_stored {value' : Int32} (fuel : Nat) (h : scanInt stdin = (scanned, rest))
    (hvalue : stored value scanned = .ok value') :
    promptInt (fuel + 1) value stdin =
      if value' = 0 then promptInt fuel value' rest else .ok (value', rest) := by
  rw [promptInt, h]
  show (stored value scanned >>= _) = _
  rw [hvalue]
  rfl

/-- The prompt accepts no zero. -/
theorem promptInt_ne_zero {fuel : Nat} {v : Int32} (h : promptInt fuel value stdin = .ok (v, rest)) :
    v ≠ 0 := by
  induction fuel generalizing value stdin with
  | zero => cases h
  | succ fuel ih =>
    rcases hscan : scanInt stdin with ⟨scanned, next⟩
    cases hstored : stored value scanned with
    | error halt =>
      rw [promptInt, hscan] at h
      replace h : (stored value scanned >>= _) = _ := h
      rw [hstored] at h
      cases h
    | ok value' =>
      rw [promptInt_stored fuel hscan hstored] at h
      split at h
      · exact ih h
      · rename_i hne
        cases h
        exact hne

/-- A try that leaves zero in the variable is followed by another one. -/
theorem prompts_again (h : scanInt stdin = (scanned, rest)) (hzero : stored value scanned = .ok 0)
    (hfirst : firstInt stdin = firstInt rest) : Prompts value stdin ↔ Prompts 0 rest := by
  rw [Prompts, Prompts, hfirst]
  constructor
  · intro ⟨fuel, v, rest', hok, hv⟩
    cases fuel with
    | zero => cases hok
    | succ fuel =>
      rw [promptInt_stored fuel h hzero, if_pos rfl] at hok
      exact ⟨fuel, v, rest', hok, hv⟩
  · intro ⟨fuel, v, rest', hok, hv⟩
    refine ⟨fuel + 1, v, rest', ?_, hv⟩
    rw [promptInt_stored fuel h hzero, if_pos rfl]
    exact hok

/-- A try that reads nothing is repeated for ever. -/
theorem not_prompts_of_stuck (h : scanInt stdin = (none, stdin)) : ¬ Prompts 0 stdin := by
  intro ⟨fuel, v, rest, hok, _⟩
  induction fuel with
  | zero => cases hok
  | succ fuel ih =>
    apply ih
    rw [promptInt_stored fuel h rfl, if_pos rfl] at hok
    exact hok

/-! ## Readable inputs -/

/-- What is readable depends on what stops the prompt and on the first number that counts. -/
theorem readable_congr (hidle : rest.dropWhile idle = stdin.dropWhile idle)
    (hfind : (numbers rest).find? (· ≠ 0) = (numbers stdin).find? (· ≠ 0)) :
    Readable stdin ↔ Readable rest := by
  constructor
  · intro hr
    exact ⟨hidle ▸ hr.digit, hfind ▸ hr.fits⟩
  · intro hr
    exact ⟨hidle ▸ hr.digit, hfind ▸ hr.fits⟩

/-- The number behind the blanks is the first one. -/
theorem numbers_item (h : number (stdin.dropWhile isSpace) = some (v, rest)) :
    numbers stdin = v :: numbers rest := by
  rw [← numbers_dropWhile_isSpace, numbers_number h]

/-- A first number that is not zero is stored, if it fits. -/
theorem prompts_number (value : Int32) (h : number (stdin.dropWhile isSpace) = some (v, rest))
    (hv : v ≠ 0) : Prompts value stdin ↔ Readable stdin := by
  have hdigit := digit_of_ne_zero h hv
  rw [dropWhile_idle_item] at hdigit
  have hfind : (numbers stdin).find? (· ≠ 0) = some v := by
    rw [numbers_item h, List.find?_cons_of_pos (by simpa using hv)]
  -- a number that fits is returned at once; one that does not is undefined
  by_cases hfits : fits v
  · -- then both sides hold
    have hstored : stored value (some v) = .ok (Int32.ofInt v) := if_pos hfits
    have hint : (Int32.ofInt v).toInt = v := Int32.toInt_ofInt_of_le hfits.1 hfits.2
    have hne : Int32.ofInt v ≠ 0 := by
      intro h0
      rw [h0] at hint
      exact hv hint.symm
    have hfirst : firstInt stdin = some v := by
      rw [firstInt, numbers_item h, List.find?_cons_of_pos (by simp [hv, hfits])]
    apply iff_of_true
    · refine ⟨1, Int32.ofInt v, rest, ?_, ?_⟩
      · rw [promptInt_stored 0 (scanInt_number h) hstored, if_neg hne]
      · intro n hn
        rw [hfirst] at hn
        rw [hint, Option.some.inj hn]
    · refine ⟨hdigit, ?_⟩
      intro w hw
      rw [hfind] at hw
      rw [← Option.some.inj hw]
      exact hfits
  · apply iff_of_false
    · -- and here neither does
      intro ⟨fuel, w, rest', hok, _⟩
      cases fuel with
      | zero => cases hok
      | succ fuel =>
        rw [promptInt, scanInt_number h] at hok
        simp only [stored, if_neg hfits] at hok
        cases hok
    · intro hr
      exact hfits (hr.fits v hfind)

/-- Behind a zero the prompt goes on, with zero in the variable. -/
theorem prompts_zero (value : Int32) (h : number (stdin.dropWhile isSpace) = some (0, rest)) :
    (Prompts value stdin ↔ Prompts 0 rest) ∧ (Readable stdin ↔ Readable rest) := by
  have hidle := dropWhile_idle_zero h
  rw [dropWhile_idle_item] at hidle
  have hfind : (numbers rest).find? (· ≠ 0) = (numbers stdin).find? (· ≠ 0) := by
    rw [numbers_item h]
    rfl
  have hfirst : firstInt stdin = firstInt rest := by
    rw [firstInt, numbers_item h]
    rfl
  exact ⟨prompts_again (scanInt_number h) rfl hfirst, readable_congr hidle hfind⟩

/-- A sign without digits is passed over. -/
theorem prompts_sign {b : UInt8} (hitem : stdin.dropWhile isSpace = b :: rest)
    (h : number (b :: rest) = none) (hsign : isSign b) :
    (Prompts 0 stdin ↔ Prompts 0 rest) ∧ (Readable stdin ↔ Readable rest) := by
  have hscan : scanInt stdin = (none, rest) := by
    rw [scanInt_none stdin (by rw [hitem, h]), hitem, unsigned, if_pos hsign]
  have hnumbers : numbers stdin = numbers rest := by
    rw [← numbers_dropWhile_isSpace, hitem, numbers_none h]
  have hidle : rest.dropWhile idle = stdin.dropWhile idle := by
    have hb : idle b := by simp [idle, hsign]
    rw [← dropWhile_idle_item stdin, hitem, List.dropWhile_cons_of_pos hb]
  exact ⟨prompts_again hscan rfl (by rw [firstInt, firstInt, hnumbers]),
    readable_congr hidle (by rw [hnumbers])⟩

/-- Where neither a sign nor a number stands, the prompt is repeated for ever. -/
theorem not_prompts (h : number (stdin.dropWhile isSpace) = none)
    (hitem : unsigned (stdin.dropWhile isSpace) = stdin.dropWhile isSpace) :
    ¬ Prompts 0 stdin := by
  have hscan := scanInt_none stdin h
  rw [hitem] at hscan
  rw [prompts_again hscan rfl (by rw [firstInt, firstInt, numbers_dropWhile_isSpace])]
  -- the next try starts where this one has stopped
  apply not_prompts_of_stuck
  have hspace := List.dropWhile_idempotent isSpace stdin
  have hnext := scanInt_none (stdin.dropWhile isSpace) (by rw [hspace, h])
  rw [hspace, hitem] at hnext
  exact hnext

/-- Blanks alone are not readable. -/
theorem not_readable_nil (hitem : stdin.dropWhile isSpace = []) : ¬ Readable stdin := by
  intro hr
  obtain ⟨b, hhead, -⟩ := hr.digit
  rw [← dropWhile_idle_item, hitem] at hhead
  cases hhead

/-- A byte that starts no number stops the prompt. -/
theorem not_readable_cons {b : UInt8} (hitem : stdin.dropWhile isSpace = b :: rest)
    (h : number (b :: rest) = none) (hsign : isSign b = false) : ¬ Readable stdin := by
  intro hr
  obtain ⟨c, hhead, hdigit⟩ := hr.digit
  have hb := isDigit_of_number_none h hsign
  have hspace : isSpace b = false := by
    have hself := List.dropWhile_idempotent isSpace stdin
    rw [hitem, List.dropWhile_eq_self_iff] at hself
    simpa using hself (Nat.succ_pos _)
  have hzero : b ≠ 48 := by
    intro h48
    rw [h48] at hb
    cases hb
  have hidle : ¬ idle b := by simp [idle, hspace, hsign, hzero]
  rw [← dropWhile_idle_item, hitem, List.dropWhile_cons_of_neg hidle] at hhead
  rw [← Option.some.inj hhead, hb] at hdigit
  cases hdigit

/-! ## The prompt -/

/-- `main` calls the prompt with zero in the variable. -/
theorem prompts_zero_iff (stdin : List UInt8) : Prompts 0 stdin ↔ Readable stdin := by
  -- a try that reads a zero or a lone sign leaves a shorter input
  induction hn : stdin.length using Nat.strong_induction_on generalizing stdin with
  | _ n ih =>
    have hle := List.length_dropWhile_le isSpace stdin
    cases hnum : number (stdin.dropWhile isSpace) with
    | some r =>
      obtain ⟨v, rest⟩ := r
      by_cases hv : v = 0
      · subst hv
        have hlt := number_lt hnum
        obtain ⟨hprompts, hreadable⟩ := prompts_zero 0 hnum
        rw [hprompts, hreadable]
        exact ih rest.length (by omega) rest rfl
      · exact prompts_number 0 hnum hv
    | none =>
      cases hitem : stdin.dropWhile isSpace with
      | nil => exact iff_of_false (not_prompts hnum (by rw [hitem]; rfl)) (not_readable_nil hitem)
      | cons b rest =>
        have hnone := hnum
        rw [hitem] at hnone hle
        rw [List.length_cons] at hle
        cases hsign : isSign b with
        | true =>
          obtain ⟨hprompts, hreadable⟩ := prompts_sign hitem hnone hsign
          rw [hprompts, hreadable]
          exact ih rest.length (by omega) rest rfl
        | false =>
          have hunsigned : unsigned (b :: rest) = b :: rest := by
            rw [unsigned, hsign, if_neg Bool.false_ne_true]
          exact iff_of_false (not_prompts hnum (by rw [hitem, hunsigned]))
            (not_readable_cons hitem hnone hsign)

/-- With another value in the variable a first try that reads nothing is the last one. -/
theorem prompts_unread (hvalue : value ≠ 0) (h : number (stdin.dropWhile isSpace) = none) :
    Prompts value stdin ↔ ∀ n, firstInt stdin = some n → value.toInt = n := by
  have htry (fuel : Nat) : promptInt (fuel + 1) value stdin =
      .ok (value, unsigned (stdin.dropWhile isSpace)) := by
    rw [promptInt_stored fuel (scanInt_none stdin h) rfl, if_neg hvalue]
  constructor
  · intro ⟨fuel, v, rest, hok, hv⟩
    cases fuel with
    | zero => cases hok
    | succ fuel =>
      rw [htry] at hok
      cases hok
      exact hv
  · intro hv
    exact ⟨1, value, _, htry 0, hv⟩

/-- The prompt does what it should exactly for the readable inputs; if the variable is not
    zero before, and no number stands at the front, it keeps its value. -/
theorem promptInt_prompts_iff (value : Int32) (stdin : List UInt8) :
    Prompts value stdin ↔
      if value ≠ 0 ∧ number (stdin.dropWhile isSpace) = none then
        ∀ n, firstInt stdin = some n → value.toInt = n
      else Readable stdin := by
  by_cases hvalue : value = 0
  · rw [if_neg (fun h => h.1 hvalue), hvalue]
    exact prompts_zero_iff stdin
  · cases hnum : number (stdin.dropWhile isSpace) with
    | none =>
      rw [if_pos ⟨hvalue, rfl⟩]
      exact prompts_unread hvalue hnum
    | some r =>
      rw [if_neg (fun h => nomatch h.2)]
      obtain ⟨v, rest⟩ := r
      by_cases hv : v = 0
      · subst hv
        obtain ⟨hprompts, hreadable⟩ := prompts_zero value hnum
        rw [hprompts, hreadable]
        exact prompts_zero_iff rest
      · exact prompts_number value hnum hv

/-- "abc 5", and no input at all: neither prompt ends. -/
theorem promptInt_never_ends :
    ¬ Prompts 0 [97, 98, 99, 32, 53, 10] ∧ ¬ Prompts 0 [] :=
  ⟨not_prompts_of_stuck (by decide), not_prompts_of_stuck (by decide)⟩

end Yahtzee
