import Mathlib.Data.Nat.Digits.Lemmas

/-!
# Written numbers

`Nat.digits` lists the digits of a number with the least significant first. A written
number starts with the most significant one, and its value is folded from the left.
-/

namespace Digits

/-- The number that `ds` spells in base `b`, most significant digit first. -/
def value (b : Nat) (ds : List Nat) : Nat := ds.foldl (fun v d => v * b + d) 0

/-- Written with the most significant digit first, digits have the value of `Nat.ofDigits`. -/
theorem value_reverse (b : Nat) (ds : List Nat) : value b ds.reverse = Nat.ofDigits b ds := by
  rw [value, List.foldl_reverse, Nat.ofDigits_eq_foldr]
  congr 1
  funext d v
  rw [Nat.cast_id, Nat.mul_comm, Nat.add_comm]

/-- Only zeros spell zero. -/
theorem value_eq_zero_iff {b : Nat} (hb : 0 < b) (ds : List Nat) :
    value b ds = 0 ↔ ∀ d ∈ ds, d = 0 := by
  have hfold (v : Nat) : ds.foldl (fun v d => v * b + d) v = 0 ↔ v = 0 ∧ ∀ d ∈ ds, d = 0 := by
    induction ds generalizing v with
    | nil => simp
    | cons d ds ih =>
      rw [List.foldl_cons, ih, List.forall_mem_cons, Nat.add_eq_zero_iff, Nat.mul_eq_zero]
      have hne : b ≠ 0 := Nat.ne_of_gt hb
      tauto
  rw [value, hfold]
  exact and_iff_right rfl

/-- The digits of `n` in base `b`, most significant digit first. -/
structure Canonical (b n : Nat) (ds : List Nat) : Prop where
  length : ds.length = Nat.log b n + 1
  lt : ∀ d ∈ ds, d < b
  head : ds.head? ≠ some 0
  value : value b ds = n

/-- The digits of a positive number, most significant first, are its canonical ones. -/
theorem canonical_digits {b n : Nat} (hb : 1 < b) (hn : n ≠ 0) :
    Canonical b n (Nat.digits b n).reverse where
  length := by rw [List.length_reverse, Nat.length_digits b n hb hn]
  lt := by
    intro d hd
    exact Nat.digits_lt_base hb (List.mem_reverse.mp hd)
  head := by
    have hne : Nat.digits b n ≠ [] := Nat.digits_ne_nil_iff_ne_zero.mpr hn
    rw [List.head?_reverse, List.getLast?_eq_some_getLast hne]
    intro h
    exact Nat.getLast_digit_ne_zero b hn (Option.some.inj h)
  value := by rw [value_reverse, Nat.ofDigits_digits]

/-- Digits that are replaced by others of a different residue change the number. -/
theorem ofDigits_map_eq_iff {b : Nat} {f : Nat → Nat} {ds : List Nat} (hb : 0 < b)
    (hf : ∀ d ∈ ds, f d % b = d % b → f d = d) :
    Nat.ofDigits b (ds.map f) = Nat.ofDigits b ds ↔ ∀ d ∈ ds, f d = d := by
  induction ds with
  | nil => simp
  | cons d ds ih =>
    rw [List.map_cons, Nat.ofDigits_cons, Nat.ofDigits_cons, List.forall_mem_cons]
    rw [List.forall_mem_cons] at hf
    constructor
    · intro h
      -- the last digits agree, and then so do the numbers without them
      have hlast : f d = d := by
        apply hf.1
        have hmod := congrArg (· % b) h
        simpa only [Nat.add_mul_mod_self_left] using hmod
      rw [hlast] at h
      have hrest := Nat.eq_of_mul_eq_mul_left hb (Nat.add_left_cancel h)
      exact ⟨hlast, (ih hf.2).mp hrest⟩
    · rintro ⟨hlast, hrest⟩
      rw [hlast, (ih hf.2).mpr hrest]

/-- A map that tells the members of two lists apart tells the lists apart. -/
theorem eq_of_map_eq {α β : Type} {f : α → β} {as bs : List α}
    (hf : ∀ a ∈ as, ∀ b ∈ bs, f a = f b → a = b) (h : as.map f = bs.map f) : as = bs := by
  induction as generalizing bs with
  | nil =>
    cases bs with
    | nil => rfl
    | cons b bs => cases h
  | cons a as ih =>
    cases bs with
    | nil => cases h
    | cons b bs =>
      rw [List.map_cons, List.map_cons, List.cons.injEq] at h
      have hhead := hf a List.mem_cons_self b List.mem_cons_self h.1
      have htail := ih (fun x hx y hy => hf x (.tail _ hx) y (.tail _ hy)) h.2
      rw [hhead, htail]

/-- Signs that tell the digits below `b` apart tell the numbers written with them apart. -/
theorem eq_of_map_digits_eq {α : Type} {b m n : Nat} {sign : Nat → α} (hb : 1 < b)
    (hsign : ∀ d < b, ∀ e < b, sign d = sign e → d = e)
    (h : (Nat.digits b m).map sign = (Nat.digits b n).map sign) : m = n := by
  apply Nat.digits.injective b
  apply eq_of_map_eq _ h
  intro d hd e he
  exact hsign d (Nat.digits_lt_base hb hd) e (Nat.digits_lt_base hb he)

end Digits
