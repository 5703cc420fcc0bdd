import CSnippets.ForStd.Digits
import CSnippets.Native.AnyBase

/-!
# Written numbers are read back

`anybase` appends the digits of `n` to an empty string, most significant first. Three
entries of `selection` are wrong: 'E' and 'D' are the wrong way round, and a 'G' stands
in the place of the 'J'. So the string spells `n` only without the digits 13, 14 and 19,
and from base 20 on different numbers are written alike. Zero is written as the empty
string.

For a negative `n` the remainder is negative, and the pointer is in front of the table.
-/

namespace AnyBase

/-- The sign that `selection` has for the digit `d`. -/
def sign (d : Nat) : UInt8 := selection.getD d 0

/-- The value of a sign: 0 to 9, then 10 for A up to 35 for Z. -/
def signValue (c : UInt8) : Option Nat :=
  if 48 ≤ c ∧ c ≤ 57 then some (c.toNat - 48)
  else if 65 ≤ c ∧ c ≤ 90 then some (c.toNat - 55)
  else none

/-- Read a number from the left. -/
def decode (b : Nat) (text : List UInt8) : Option Nat :=
  (text.mapM signValue).map (Digits.value b)

/-- The digits `ds` are written behind `text`, with `rest` behind its terminator before. -/
structure Appended (text rest : List UInt8) (ds : List Nat) (st : State) : Prop where
  s : st.s = text ++ ds.map sign ++ 0 :: rest.drop ds.length
  indices : st.indices = ds.map Int.ofNat

/-- No sign of the table is the terminator. -/
theorem sign_ne_zero : ∀ d < 36, sign d ≠ 0 := by decide

/-- The terminator of the table. -/
theorem zero_mem_drop_selection : ∀ d < 36, 0 ∈ selection.drop d := by decide

/-- No text of signs has a terminator in it. -/
theorem zero_not_mem_signs {ds : List Nat} (hds : ∀ d ∈ ds, d < 36) : 0 ∉ ds.map sign := by
  rw [List.mem_map]
  rintro ⟨d, hd, hzero⟩
  exact sign_ne_zero d (hds d hd) hzero

/-- The one byte that `strncat` appends. -/
theorem take_selection :
    ∀ d < 36, ((selection.drop d).take 1).takeWhile (· != 0) = [sign d] := by decide

/-- One call of `append` writes one more sign and moves the terminator behind it. -/
theorem Appended.append {text rest : List UInt8} {ds : List Nat} {st : State} {n b : Int} {d : Nat}
    (h : Appended text rest ds st) (htext : 0 ∉ text) (hds : ∀ e ∈ ds, e < 36) (hd : d < 36)
    (hn : n.tmod b = d) (hroom : ds.length < rest.length) :
    ∃ st', append n b st = .ok st' ∧ Appended text rest (ds ++ [d]) st' := by
  have hfront : 0 ∉ text ++ ds.map sign := by
    rw [List.mem_append, not_or]
    exact ⟨htext, zero_not_mem_signs hds⟩
  -- the sign comes with the rest of the table behind it, and `strncat` takes one byte
  have hlen : selection.length = 37 := by decide
  have hcat := CMemory.strncat_text (rest.drop ds.length) 1 hfront
    (.inr (zero_mem_drop_selection d hd))
  rw [take_selection d hd, List.length_singleton, List.length_drop, if_pos (by omega)] at hcat
  -- the new text ends where `strncat` puts its terminator
  have hnul : 0 ∉ text ++ ds.map sign ++ [sign d] := by
    rw [List.mem_append, List.mem_singleton, not_or]
    exact ⟨hfront, Ne.symm (sign_ne_zero d hd)⟩
  have hread : CMemory.cString
      (text ++ ds.map sign ++ [sign d] ++ 0 :: (rest.drop ds.length).drop 1) =
      some (text ++ ds.map sign ++ [sign d]) :=
    CMemory.cString_eq_some.mpr ⟨hnul, _, rfl⟩
  rw [AnyBase.append, hn, if_pos (by omega), Int.toNat_natCast, h.s, hcat]
  simp only [hread]
  refine ⟨_, rfl, ?_, ?_⟩
  · rw [List.map_append, List.length_append, List.length_singleton, List.drop_drop,
      List.append_assoc text]
    rfl
  · rw [h.indices, List.map_append]
    rfl

/-- The digits of the quotient come in front of the last one. -/
theorem reverse_digits {b n : Nat} (hb : 2 ≤ b) (hn : 0 < n) :
    (Nat.digits b n).reverse = (Nat.digits b (n / b)).reverse ++ [n % b] := by
  rw [Nat.digits_def' (by omega) hn, List.reverse_cons]

/-- The recursion ends at zero, with nothing written. -/
theorem anybase_zero (fuel : Nat) (b : Int) (st : State) : anybase (fuel + 1) 0 b st = .ok st := by
  rw [anybase, if_neg (not_not_intro rfl)]

/-- Otherwise the digits of the quotient are written first, then that of the remainder. -/
theorem anybase_succ {fuel : Nat} {n b : Int} {st : State} (hn : n ≠ 0) (hb : b ≠ 0) :
    anybase (fuel + 1) n b st =
      match anybase fuel (n.tdiv b) b st with
      | .error halt => .error halt
      | .ok st => append n b st := by
  rw [anybase]
  exact (if_pos hn).trans (if_neg hb)

/-- With room for the digits of `n`, a recursion that is deep enough writes them behind the
    string that is there. -/
theorem anybase_appends {b : Nat} (hb : 2 ≤ b) (hb' : b ≤ 36) {text rest : List UInt8}
    (htext : 0 ∉ text) (fuel n : Nat) (hroom : (Nat.digits b n).length ≤ rest.length) :
    if (Nat.digits b n).length < fuel then
      ∃ st, anybase fuel n b (start (text ++ 0 :: rest)) = .ok st ∧
        Appended text rest (Nat.digits b n).reverse st
    else anybase fuel n b (start (text ++ 0 :: rest)) = .error .endless := by
  induction fuel generalizing n with
  | zero => rfl
  | succ fuel ih =>
    rcases Nat.eq_zero_or_pos n with rfl | hn
    · rw [Nat.digits_zero, List.length_nil, if_pos (Nat.succ_pos fuel), Nat.cast_zero,
        anybase_zero]
      refine ⟨_, rfl, ?_, rfl⟩
      rw [List.reverse_nil, List.map_nil, List.append_nil]
      rfl
    · have hlen : (Nat.digits b n).length = (Nat.digits b (n / b)).length + 1 := by
        rw [Nat.digits_def' (by omega) hn, List.length_cons]
      -- the inner call writes the digits of the quotient
      have hstep := ih (n / b) (by omega)
      rw [anybase_succ (by omega) (by omega), ← Int.ofNat_tdiv]
      by_cases hfuel : (Nat.digits b n).length < fuel + 1
      · rw [if_pos (by omega)] at hstep
        rw [if_pos hfuel]
        obtain ⟨st, hst, hw⟩ := hstep
        have hds : ∀ e ∈ (Nat.digits b (n / b)).reverse, e < 36 := by
          intro e he
          have := Nat.digits_lt_base (by omega) (List.mem_reverse.mp he)
          omega
        have hmod : n % b < b := Nat.mod_lt n (by omega)
        have hlast : (n : Int).tmod b = (n % b : Nat) := (Int.ofNat_tmod n b).symm
        have hroom' : (Nat.digits b (n / b)).reverse.length < rest.length := by
          rw [List.length_reverse]
          omega
        have happend := hw.append htext hds (by omega) hlast hroom'
        rw [hst, reverse_digits hb hn]
        exact happend
      · rw [if_neg (by omega)] at hstep
        rw [if_neg hfuel, hstep]

/-- The same behind the empty string. -/
theorem anybase_digits {b : Nat} (hb : 2 ≤ b) (hb' : b ≤ 36) {rest : List UInt8} (fuel n : Nat)
    (hroom : (Nat.digits b n).length ≤ rest.length) :
    if (Nat.digits b n).length < fuel then
      ∃ st, anybase fuel n b (start (0 :: rest)) = .ok st ∧
        Appended [] rest (Nat.digits b n).reverse st
    else anybase fuel n b (start (0 :: rest)) = .error .endless :=
  anybase_appends hb hb' (List.not_mem_nil : 0 ∉ ([] : List UInt8)) fuel n hroom

/-- An `int` has at most 31 digits. -/
theorem length_digits_int {b n : Nat} (hb : 2 ≤ b) (hn : n < 2 ^ 31) :
    (Nat.digits b n).length ≤ 31 := by
  rw [Nat.digits_length_le_iff (by omega)]
  exact lt_of_lt_of_le hn (Nat.pow_le_pow_left hb 31)

/-! ## Behind a string -/

/-- In a buffer with room for its digits, a number is written behind the string that is there,
    with one sign of `selection` for each of its canonical digits. -/
theorem anybase_appends_digits (n b : Nat) (hn : 1 ≤ n) (hb : 2 ≤ b) (hb' : b ≤ 36)
    (text rest : List UInt8) (htext : 0 ∉ text) (hroom : Nat.log b n + 1 ≤ rest.length) :
    ∃ fuel st ds, anybase fuel n b (start (text ++ 0 :: rest)) = .ok st ∧
      st.indices = ds.map Int.ofNat ∧ CMemory.cString st.s = some (text ++ ds.map sign) ∧
      Digits.Canonical b n ds := by
  have hcanonical := Digits.canonical_digits (show 1 < b by omega) (show n ≠ 0 by omega)
  have hlen : (Nat.digits b n).length = Nat.log b n + 1 := by
    rw [← List.length_reverse, hcanonical.length]
  have hfits : (Nat.digits b n).length ≤ rest.length := by omega
  have hrun := anybase_appends hb hb' htext ((Nat.digits b n).length + 1) n hfits
  rw [if_pos (Nat.lt_succ_self _)] at hrun
  obtain ⟨st, hst, happended⟩ := hrun
  have hnul : 0 ∉ text ++ (Nat.digits b n).reverse.map sign := by
    rw [List.mem_append, not_or]
    refine ⟨htext, zero_not_mem_signs ?_⟩
    intro d hd
    have := hcanonical.lt d hd
    omega
  exact ⟨_, st, _, hst, happended.indices, CMemory.cString_eq_some.mpr ⟨hnul, _, happended.s⟩,
    hcanonical⟩

/-- 255 in base 16 behind "0x". -/
theorem anybase_appends_digits_255 :
    ∃ fuel st ds, anybase fuel 255 16 (start ([48, 120] ++ 0 :: List.replicate 4 0)) = .ok st ∧
      st.indices = ds.map Int.ofNat ∧ CMemory.cString st.s = some ([48, 120] ++ ds.map sign) ∧
      Digits.Canonical 16 255 ds :=
  anybase_appends_digits 255 16 (by omega) (by omega) (by omega) [48, 120] _ (by decide)
    (by decide)

/-! ## Reading back -/

/-- `text` is the string that `anybase` makes of the empty one in `s`. -/
def Writes (n b : Int) (s text : List UInt8) : Prop :=
  ∃ fuel st, anybase fuel n b (start s) = .ok st ∧ CMemory.cString st.s = some text

/-- The value that is read for the sign written for `d`. -/
def spelled (d : Nat) : Nat := (signValue (sign d)).getD 0

/-- What is written into an empty buffer is the text of the digits, and nothing else. -/
theorem writes_iff {b n : Nat} (hb : 2 ≤ b) (hb' : b ≤ 36) {rest text : List UInt8}
    (hroom : (Nat.digits b n).length ≤ rest.length) :
    Writes n b (0 :: rest) text ↔ text = (Nat.digits b n).reverse.map sign := by
  have hnul : 0 ∉ (Nat.digits b n).reverse.map sign := by
    apply zero_not_mem_signs
    intro d hd
    have := Nat.digits_lt_base (by omega) (List.mem_reverse.mp hd)
    omega
  have hread {st : State} (hw : Appended [] rest (Nat.digits b n).reverse st) :
      CMemory.cString st.s = some ((Nat.digits b n).reverse.map sign) :=
    CMemory.cString_eq_some.mpr ⟨hnul, _, hw.s⟩
  constructor
  · -- whatever the fuel, a run that returns has written these digits
    rintro ⟨fuel, st, hst, htext⟩
    have hrun := anybase_digits hb hb' fuel n hroom
    split at hrun
    · obtain ⟨st', hst', hw⟩ := hrun
      rw [hst, Except.ok.injEq] at hst'
      subst hst'
      rw [hread hw, Option.some.injEq] at htext
      exact htext.symm
    · rw [hrun] at hst
      cases hst
  · -- fuel for each digit is enough
    rintro rfl
    have hrun := anybase_digits hb hb' ((Nat.digits b n).length + 1) n hroom
    rw [if_pos (Nat.lt_succ_self _)] at hrun
    obtain ⟨st, hst, hw⟩ := hrun
    exact ⟨_, st, hst, hread hw⟩

/-- The value at which a sign is found is the one of the first place it has in the table. -/
theorem signValue_sign : ∀ d < 36, signValue (sign d) = some (spelled d) := by decide

/-- Three signs are found at another place: those the table misspells. -/
theorem spelled_eq_iff : ∀ d < 36, spelled d = d ↔ d ≠ 13 ∧ d ≠ 14 ∧ d ≠ 19 := by decide

/-- Up to base 19 no two digits share a sign. -/
theorem sign_injective : ∀ d < 19, ∀ e < 19, sign d = sign e → d = e := by decide

/-- The wrong signs are no multiple of the base away from the right ones. -/
theorem spelled_mod {b d : Nat} (hb : b ≤ 36) (hd : d < b) (h : spelled d % b = d % b) :
    spelled d = d := by
  by_contra hne
  rw [spelled_eq_iff d (by omega)] at hne
  have h13 : spelled 13 = 14 := by decide
  have h14 : spelled 14 = 13 := by decide
  have h19 : spelled 19 = 16 := by decide
  have hcases : d = 13 ∨ d = 14 ∨ d = 19 := by omega
  rw [Nat.mod_eq_of_lt hd] at h
  rcases hcases with rfl | rfl | rfl
  · rw [h13] at h
    -- in base 14 the sign of 14 stands for no digit, but its residue is 0
    rcases Nat.lt_or_ge 14 b with hlt | hge
    · rw [Nat.mod_eq_of_lt hlt] at h
      omega
    · obtain rfl : b = 14 := by omega
      omega
  · rw [h14, Nat.mod_eq_of_lt (by omega)] at h
    omega
  · rw [h19, Nat.mod_eq_of_lt (by omega)] at h
    omega

/-- Every sign of the text is found in the table. -/
theorem mapM_signValue {ds : List Nat} (hds : ∀ d ∈ ds, d < 36) :
    (ds.map sign).mapM signValue = some (ds.map spelled) := by
  induction ds with
  | nil => rfl
  | cons d ds ih =>
    rw [List.forall_mem_cons] at hds
    rw [List.map_cons, List.mapM_cons, signValue_sign d hds.1, ih hds.2]
    rfl

/-- A written number reads back exactly if none of its digits is misspelled. -/
theorem decode_digits {b n : Nat} (hb : 2 ≤ b) (hb' : b ≤ 36) :
    decode b ((Nat.digits b n).reverse.map sign) = some n ↔
      ∀ d ∈ Nat.digits b n, d ≠ 13 ∧ d ≠ 14 ∧ d ≠ 19 := by
  have hlt {d : Nat} (hd : d ∈ Nat.digits b n) : d < b := Nat.digits_lt_base (by omega) hd
  have hds : ∀ d ∈ (Nat.digits b n).reverse, d < 36 := by
    intro d hd
    have := hlt (List.mem_reverse.mp hd)
    omega
  rw [decode, mapM_signValue hds, Option.map_some, Option.some.injEq, List.map_reverse,
    Digits.value_reverse]
  -- the value is right exactly if every digit is spelled as itself
  calc Nat.ofDigits b ((Nat.digits b n).map spelled) = n
      ↔ Nat.ofDigits b ((Nat.digits b n).map spelled) = Nat.ofDigits b (Nat.digits b n) := by
        rw [Nat.ofDigits_digits]
    _ ↔ ∀ d ∈ Nat.digits b n, spelled d = d :=
        Digits.ofDigits_map_eq_iff (by omega) (fun d hd => spelled_mod hb' (hlt hd))
    _ ↔ ∀ d ∈ Nat.digits b n, d ≠ 13 ∧ d ≠ 14 ∧ d ≠ 19 := by
        apply forall₂_congr
        intro d hd
        have := hlt hd
        exact spelled_eq_iff d (by omega)

/-- In a buffer of at least 32 bytes that holds the empty string, a number is written as a
    non-empty string that spells it if and only if it is not zero and has no digit 13, 14
    or 19; and in one base different numbers are written differently if and only if the
    base is at most 19. -/
theorem anybase_reads_back_iff (rest : List UInt8) (hrest : 31 ≤ rest.length) :
    (∀ n b : Nat, n < 2 ^ 31 → 2 ≤ b → b ≤ 36 →
      ((∃ text, Writes n b (0 :: rest) text ∧ text ≠ [] ∧ decode b text = some n) ↔
        n ≠ 0 ∧ ∀ d ∈ Nat.digits b n, d ≠ 13 ∧ d ≠ 14 ∧ d ≠ 19)) ∧
    ∀ b : Nat, 2 ≤ b → b ≤ 36 →
      ((∀ m n : Nat, m < 2 ^ 31 → n < 2 ^ 31 →
        ∀ text, Writes m b (0 :: rest) text → Writes n b (0 :: rest) text → m = n) ↔ b ≤ 19) := by
  have hwrites {b n : Nat} (hb : 2 ≤ b) (hb' : b ≤ 36) (hn : n < 2 ^ 31) (text : List UInt8) :
      Writes n b (0 :: rest) text ↔ text = (Nat.digits b n).reverse.map sign :=
    writes_iff hb hb' ((length_digits_int hb hn).trans hrest)
  constructor
  · intro n b hn hb hb'
    simp only [hwrites hb hb' hn, exists_eq_left, decode_digits hb hb', ne_eq, List.map_eq_nil_iff,
      List.reverse_eq_nil_iff, Nat.digits_eq_nil_iff_eq_zero]
  · intro b hb hb'
    constructor
    · intro hdistinct
      by_contra hlarge
      -- 16 and 19 are both written as "G"
      have hone (d : Nat) (hd : 0 < d) (hdb : d < b) : Nat.digits b d = [d] :=
        Nat.digits_of_lt b d (by omega) hdb
      have h16 := (hwrites hb hb' (n := 16) (by omega) [71]).mpr
        (by rw [hone 16 (by omega) (by omega)]; decide)
      have h19 := (hwrites hb hb' (n := 19) (by omega) [71]).mpr
        (by rw [hone 19 (by omega) (by omega)]; decide)
      have := hdistinct 16 19 (by omega) (by omega) [71] h16 h19
      omega
    · intro hsmall m n hm hn text htm htn
      rw [hwrites hb hb' hm] at htm
      rw [hwrites hb hb' hn, htm, List.map_reverse, List.map_reverse, List.reverse_inj] at htn
      apply Digits.eq_of_map_digits_eq (by omega) _ htn
      intro d hd e he
      exact sign_injective d (by omega) e (by omega)

/-- 255 in base 16 is written with the digit 15 only, and reads back. -/
theorem anybase_reads_back_255 :
    ∃ text, Writes 255 16 (0 :: List.replicate 199 0) text ∧ text ≠ [] ∧
      decode 16 text = some 255 := by
  have hroom : 31 ≤ (List.replicate 199 (0 : UInt8)).length := by
    rw [List.length_replicate]
    omega
  apply ((anybase_reads_back_iff _ hroom).1 255 16 (by omega) (by omega) (by omega)).mpr
  exact ⟨by omega, by decide⟩

/-- The call of `main` writes "8A5D0" for 900000 in base 18, which reads 899982. -/
theorem anybase_misspelled :
    ¬ ∃ text, Writes 900000 18 (0 :: List.replicate 199 0) text ∧ text ≠ [] ∧
      decode 18 text = some 900000 := by
  rintro ⟨text, hwrites, -, hdecode⟩
  have hroom : (Nat.digits 18 900000).length ≤ (List.replicate 199 (0 : UInt8)).length := by
    rw [List.length_replicate]
    exact (length_digits_int (by omega) (by omega)).trans (by omega)
  have htext := (writes_iff (n := 900000) (b := 18) (by omega) (by omega) hroom).mp hwrites
  rw [htext, decode_digits (by omega) (by omega)] at hdecode
  have h14 : 14 ∈ Nat.digits 18 900000 := by decide
  exact (hdecode 14 h14).2.1 rfl

/-! ## Bounds -/

/-- `append` itself always returns. -/
theorem append_ends (n b : Int) (st : State) : append n b st ≠ .error .endless := by
  rw [append]
  split
  · split
    · exact fun h => by cases h
    · split
      · exact fun h => by cases h
      · exact fun h => by cases h
  · exact fun h => by cases h

/-- The recursion ends, for both signs. -/
theorem anybase_ends {n b : Int} {k fuel : Nat} (hb : 2 ≤ b) (hn : n.natAbs < 2 ^ k)
    (hfuel : k < fuel) (st : State) : anybase fuel n b st ≠ .error .endless := by
  induction fuel generalizing n k with
  | zero => omega
  | succ fuel ih =>
    by_cases hzero : n = 0
    · rw [hzero, anybase_zero]
      exact fun h => by cases h
    · obtain ⟨k, rfl⟩ : ∃ j, k = j + 1 := by
        cases k with
        | zero => rw [pow_zero] at hn; omega
        | succ j => exact ⟨j, rfl⟩
      -- whatever its sign, the quotient is at most half as far from zero
      have hquot : (n.tdiv b).natAbs < 2 ^ k := by
        rw [Int.natAbs_tdiv]
        apply Nat.div_lt_of_lt_mul
        calc n.natAbs < 2 * 2 ^ k := by rw [← pow_succ']; exact hn
          _ ≤ b.natAbs * 2 ^ k := Nat.mul_le_mul_right _ (by omega)
      have hrec := ih hquot (by omega)
      rw [anybase_succ hzero (by omega)]
      cases hres : anybase fuel (n.tdiv b) b st with
      | error halt =>
        rw [hres] at hrec
        exact hrec
      | ok st' => exact append_ends n b st'

/-- Below zero the last quotient that is not zero is its own remainder, which is in front of
    the table. -/
theorem anybase_neg {n b : Int} (hb : 2 ≤ b) (hn : n < 0) (fuel : Nat) (st : State) :
    anybase fuel n b st = .error .endless ∨ anybase fuel n b st = .error .outOfTable := by
  induction fuel generalizing n with
  | zero => exact .inl rfl
  | succ fuel ih =>
    rw [anybase_succ (by omega) (by omega)]
    have hquot : n.tdiv b ≤ 0 := by
      rw [← neg_neg n, Int.neg_tdiv]
      have := Int.tdiv_nonneg (a := -n) (b := b) (by omega) (by omega)
      omega
    rcases Int.lt_or_eq_of_le hquot with hlt | hzero
    · -- the inner call does not return
      rcases ih hlt with hrec | hrec
      · exact .inl (by rw [hrec])
      · exact .inr (by rw [hrec])
    · have hmod : n.tmod b = n := by
        have := Int.tmod_add_mul_tdiv n b
        rw [hzero, mul_zero] at this
        omega
      rw [hzero]
      cases fuel with
      | zero => exact .inl rfl
      | succ fuel =>
        rw [anybase_zero]
        simp only [append, hmod]
        exact .inr (if_neg (by omega))

/-- A negative number has a digit for which the table has no sign. -/
theorem anybase_outOfTable {n b : Int} {k fuel : Nat} (hb : 2 ≤ b) (hn : n < 0)
    (hmin : n.natAbs < 2 ^ k) (hfuel : k < fuel) (st : State) :
    anybase fuel n b st = .error .outOfTable :=
  (anybase_neg hb hn fuel st).resolve_left (anybase_ends hb hmin hfuel st)

/-- The call returns, with every index into `selection` between 0 and 35 and the string
    and its terminator inside `buf`. -/
def InBounds (n b : Int) (s : List UInt8) : Prop :=
  ∃ fuel st, anybase fuel n b (start s) = .ok st ∧ (∀ i ∈ st.indices, 0 ≤ i ∧ i ≤ 35) ∧
    ∃ text, CMemory.cString st.s = some text ∧ text.length + 1 ≤ bufferSize

/-- So no negative number is written within bounds. -/
theorem not_inBounds_neg {n b : Int} (hb : 2 ≤ b) (hn : n < 0) (s : List UInt8) :
    ¬ InBounds n b s := by
  intro ⟨fuel, st, hst, _⟩
  cases anybase_neg hb hn fuel (start s) with
  | inl h => rw [h] at hst; cases hst
  | inr h => rw [h] at hst; cases hst

/-- From the empty string in `buf` on, the recursion ends for every `int` and every base
    from 2 to 36, and stays inside `selection` and `buf` if and only if the number is not
    negative. -/
theorem anybase_in_bounds_iff (n b : Int) (hmin : -2 ^ 31 ≤ n) (hmax : n < 2 ^ 31) (hb : 2 ≤ b)
    (hb' : b ≤ 36) (rest : List UInt8) (hrest : rest.length + 1 = bufferSize) :
    (∃ fuel, anybase fuel n b (start (0 :: rest)) ≠ .error .endless) ∧
      (InBounds n b (0 :: rest) ↔ 0 ≤ n) := by
  have hsize : bufferSize = 200 := rfl
  constructor
  · -- at most 32 divisions lead to zero
    exact ⟨33, anybase_ends (k := 32) hb (by omega) (by omega) _⟩
  · constructor
    · intro hbounds
      by_contra hn
      exact not_inBounds_neg hb (by omega) _ hbounds
    · intro hn
      -- 31 digits and their terminator fit, and each digit has a sign
      lift n to Nat using hn
      lift b to Nat using (by omega)
      have hlen : (Nat.digits b n).length ≤ 31 := length_digits_int (by omega) (by omega)
      have hroom : (Nat.digits b n).length ≤ rest.length := by omega
      have hrun := anybase_digits (by omega) (by omega) 32 n hroom
      rw [if_pos (by omega)] at hrun
      obtain ⟨st, hst, hw⟩ := hrun
      have hlt : ∀ d ∈ (Nat.digits b n).reverse, d < 36 := by
        intro d hd
        have := Nat.digits_lt_base (by omega) (List.mem_reverse.mp hd)
        omega
      have htext := CMemory.cString_eq_some.mpr ⟨zero_not_mem_signs hlt, _, hw.s⟩
      refine ⟨32, st, hst, ?_, _, htext, ?_⟩
      · rw [hw.indices, List.forall_mem_map]
        intro d hd
        have := hlt d hd
        exact ⟨Int.natCast_nonneg d, by simp only [Int.ofNat_eq_natCast]; omega⟩
      · rw [List.length_map, List.length_reverse]
        omega

/-- The longest text, the 31 binary digits of `INT_MAX`, fits the buffer. -/
theorem anybase_in_bounds_most_digits : InBounds 2147483647 2 (0 :: List.replicate 199 0) := by
  have hsize : (List.replicate 199 (0 : UInt8)).length + 1 = bufferSize := by
    rw [List.length_replicate]
    rfl
  exact (anybase_in_bounds_iff 2147483647 2 (by omega) (by omega) (by omega) (by omega) _
    hsize).2.mpr (by omega)

/-- For -1 in base 10 the remainder is -1, and `&selection[-1]` is in front of the table. -/
theorem anybase_below_table :
    anybase 2 (-1) 10 (start (0 :: List.replicate 199 0)) = .error .outOfTable ∧
      ¬ InBounds (-1) 10 (0 :: List.replicate 199 0) :=
  ⟨anybase_outOfTable (k := 1) (by omega) (by omega) (by omega) (by omega) _,
    not_inBounds_neg (by omega) (by omega) _⟩

end AnyBase
