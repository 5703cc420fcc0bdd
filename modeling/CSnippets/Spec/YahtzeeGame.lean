import CSnippets.Spec.YahtzeeRolls

/-!
# What a game shows

The results of `rand` are dealt out in casts, one result for each die. A roll takes the casts
in turn, up to the first one in which all dice agree, and its count is the number of casts
passed over. With dice that have a positive highest value the whole game is described so,
without a cup (`Plays`).
-/

namespace Yahtzee

/-- The `k`-th cast. -/
def cast (rand : Nat → Fin (2 ^ 31)) (maxValue : Int32) (n k : Nat) : List Int32 :=
  valuesAt rand maxValue n (k * n)

/-- All values agree. -/
def Uniform (values : List Int32) : Prop := ∀ v ∈ values, ∀ w ∈ values, v = w

instance (values : List Int32) : Decidable (Uniform values) :=
  inferInstanceAs (Decidable (∀ v ∈ values, ∀ w ∈ values, v = w))

/-- The cast `k` is the first one from `first` on in which all dice agree. -/
structure Settles (rand : Nat → Fin (2 ^ 31)) (maxValue : Int32) (n first k : Nat) : Prop where
  le : first ≤ k
  uniform : Uniform (cast rand maxValue n k)
  least : ∀ j, first ≤ j → j < k → ¬ Uniform (cast rand maxValue n j)

/-- The game from the cast `first` on, the dice showing `values`: what is printed and how it
    ends. -/
inductive Plays (rand : Nat → Fin (2 ^ 31)) (maxValue : Int32) (n : Nat) :
    Nat → List Int32 → List UInt8 → List Print → Outcome → Prop
  | roll {first k : Nat} {values : List Int32} {stdin rest : List UInt8} {prints : List Print}
      {outcome : Outcome} (hprompt : promptContPrint stdin = (.roll, rest))
      (hsettles : Settles rand maxValue n first k)
      (hrest : Plays rand maxValue n (k + 1) (cast rand maxValue n k) rest prints outcome) :
      Plays rand maxValue n first values stdin
        ({ count := some (UInt32.ofNat (k - first)), values := cast rand maxValue n k } :: prints)
        outcome
  | print {first : Nat} {values : List Int32} {stdin rest : List UInt8} {prints : List Print}
      {outcome : Outcome} (hprompt : promptContPrint stdin = (.print, rest))
      (hrest : Plays rand maxValue n first values rest prints outcome) :
      Plays rand maxValue n first values stdin ({ count := none, values := values } :: prints)
        outcome
  | exit {first : Nat} {values : List Int32} {stdin rest : List UInt8}
      (hprompt : promptContPrint stdin = (.exit, rest)) :
      Plays rand maxValue n first values stdin [] .success
  | invalid {first : Nat} {values : List Int32} {stdin rest : List UInt8}
      (hprompt : promptContPrint stdin = (.invalid, rest)) :
      Plays rand maxValue n first values stdin [] .failure

variable {rand : Nat → Fin (2 ^ 31)} {maxValue diceCount : Int32} {n : Nat} {cup : Cup}
  {ds : List Die} {stdin rest : List UInt8} {fuel pos first k : Nat}

/-! ## One cast -/

/-- The dice that show some values show them. -/
theorem map_currentValue_diceOf (values : List Int32) :
    (diceOf maxValue values).map Die.currentValue = values := by
  rw [diceOf, List.map_map]
  exact List.map_id values

/-- Dice are the same exactly if their values are. -/
theorem allSame_diceOf (values : List Int32) :
    AllSame (diceOf maxValue values) ↔ Uniform values := by
  simp [AllSame, Uniform, diceOf]

/-- With a positive highest value nothing overflows: every roll of the cup shows the next
    results of `rand`. -/
theorem rollCup_eq (rand : Nat → Fin (2 ^ 31)) (hmax : 0 < maxValue.toInt)
    (h : Filled maxValue n cup ds) (pos : Nat) :
    ∃ cup', rollCup rand cup pos = .ok (cup', pos + n) ∧
      Showing maxValue n cup' (valuesAt rand maxValue n pos) := by
  obtain ⟨⟨cup', pos'⟩, hroll, hpos, hshowing, -⟩ :=
    (rollCup_post rand h pos).exists_ok fun _ hopeless => absurd hopeless.1 (not_le.mpr hmax)
  obtain rfl : pos + n = pos' := hpos
  exact ⟨cup', hroll, hshowing⟩

/-- `checkCup` tells whether the values in the cup are all the same. -/
theorem Showing.check {values : List Int32} (h : Showing maxValue n cup values) :
    checkCup cup = .ok (decide (Uniform values)) := by
  rw [checkCup_eq h]
  simp only [allSame_diceOf]

/-- `printCup` prints the values in the cup. -/
theorem Showing.print {values : List Int32} (h : Showing maxValue n cup values)
    (count : Option UInt32) : printCup cup count = .ok { count := count, values := values } := by
  rw [printCup_eq h, map_currentValue_diceOf]

/-! ## One roll -/

/-- The next cast begins where one ends. -/
theorem cast_next (k n : Nat) : (k + 1) * n = k * n + n := Nat.succ_mul k n

/-- A cast in which all dice agree settles at once. -/
theorem Settles.of_uniform (h : Uniform (cast rand maxValue n k)) :
    Settles rand maxValue n k k :=
  ⟨Nat.le_refl k, h, fun j hle hlt => absurd hle (by omega)⟩

/-- A cast that does not agree is passed over. -/
theorem settles_succ_iff (h : ¬ Uniform (cast rand maxValue n first)) :
    Settles rand maxValue n (first + 1) k ↔ Settles rand maxValue n first k := by
  constructor
  · intro ⟨hle, huniform, hleast⟩
    refine ⟨by omega, huniform, fun j hj hlt => ?_⟩
    by_cases hfirst : j = first
    · rw [hfirst]
      exact h
    · exact hleast j (by omega) hlt
  · intro ⟨hle, huniform, hleast⟩
    have hne : k ≠ first := by
      rintro rfl
      exact h huniform
    exact ⟨by omega, huniform, fun j hj hlt => hleast j (by omega) hlt⟩

/-- A cast more is one more in the count. -/
theorem count_succ (count : UInt32) (h : first < k) :
    count + 1 + UInt32.ofNat (k - (first + 1)) = count + UInt32.ofNat (k - first) := by
  rw [show k - first = 1 + (k - (first + 1)) by omega, UInt32.ofNat_add, UInt32.add_assoc]
  rfl

/-- The rest of a roll: the cup shows the cast `first`. -/
theorem reroll_inv (hmax : 0 < maxValue.toInt) (fuel : Nat) {count : UInt32} {cup' : Cup}
    {pos' : Nat} {count' : UInt32} (h : Showing maxValue n cup (cast rand maxValue n first))
    (hreroll : reroll rand fuel cup ((first + 1) * n) count = .ok (cup', pos', count')) :
    ∃ k, Settles rand maxValue n first k ∧ pos' = (k + 1) * n ∧
      count' = count + UInt32.ofNat (k - first) ∧
      Showing maxValue n cup' (cast rand maxValue n k) := by
  induction fuel generalizing cup first count with
  | zero => cases hreroll
  | succ fuel ih =>
    rw [reroll, h.check] at hreroll
    by_cases huniform : Uniform (cast rand maxValue n first)
    · rw [decide_eq_true huniform] at hreroll
      cases hreroll
      exact ⟨first, .of_uniform huniform, rfl, by simp, h⟩
    · rw [decide_eq_false huniform] at hreroll
      obtain ⟨cup₁, hroll, hshowing⟩ := rollCup_eq rand hmax h ((first + 1) * n)
      -- not uniform: the source counts and rolls once more
      replace hreroll : (rollCup rand cup ((first + 1) * n) >>= fun r =>
        reroll rand fuel r.1 r.2 (count + 1)) = .ok (cup', pos', count') := hreroll
      rw [hroll, ← cast_next] at hreroll
      obtain ⟨k, hsettles, hpos, hcount, hcup⟩ := ih hshowing hreroll
      have hlt := hsettles.le
      refine ⟨k, (settles_succ_iff huniform).mp hsettles, hpos, ?_, hcup⟩
      rw [hcount, count_succ count (by omega)]

/-- It ends within as many rounds as there are casts to pass over. -/
theorem reroll_ok (hmax : 0 < maxValue.toInt) {fuel : Nat} (count : UInt32)
    (h : Showing maxValue n cup (cast rand maxValue n first))
    (hsettles : Settles rand maxValue n first k) (hfuel : k - first < fuel) :
    ∃ cup', reroll rand fuel cup ((first + 1) * n) count =
        .ok (cup', (k + 1) * n, count + UInt32.ofNat (k - first)) ∧
      Showing maxValue n cup' (cast rand maxValue n k) := by
  induction fuel generalizing cup first count with
  | zero => exact absurd hfuel (Nat.not_lt_zero _)
  | succ fuel ih =>
    have hle := hsettles.le
    rw [reroll, h.check]
    by_cases huniform : Uniform (cast rand maxValue n first)
    · -- the least cast that agrees is this one
      have hk : k = first := by
        by_contra hne
        exact hsettles.least first (Nat.le_refl first) (by omega) huniform
      subst hk
      rw [decide_eq_true huniform]
      exact ⟨cup, by simp; rfl, h⟩
    · have hnext := (settles_succ_iff huniform).mpr hsettles
      have hlt := hnext.le
      obtain ⟨cup₁, hroll, hshowing⟩ := rollCup_eq rand hmax h ((first + 1) * n)
      obtain ⟨cup', hreroll, hcup⟩ := ih (count + 1) hshowing hnext (by omega)
      refine ⟨cup', ?_, hcup⟩
      rw [decide_eq_false huniform]
      show (rollCup rand cup ((first + 1) * n) >>= fun r => reroll rand fuel r.1 r.2 (count + 1)) = _
      rw [hroll, ← cast_next]
      show reroll rand fuel cup₁ _ _ = _
      rw [hreroll, count_succ count (by omega)]

/-- A roll that ends shows the first cast that agrees and says how many it passed over. -/
theorem roll_inv (hmax : 0 < maxValue.toInt) {cup' : Cup} {pos' : Nat} {shown : Print}
    (h : Filled maxValue n cup ds)
    (hroll : roll rand fuel cup (first * n) = .ok (cup', pos', shown)) :
    ∃ k, Settles rand maxValue n first k ∧ pos' = (k + 1) * n ∧
      shown = { count := some (UInt32.ofNat (k - first)), values := cast rand maxValue n k } ∧
      Showing maxValue n cup' (cast rand maxValue n k) := by
  obtain ⟨cup₁, hfirst, hshowing⟩ := rollCup_eq rand hmax h (first * n)
  rw [roll, hfirst, ← cast_next] at hroll
  replace hroll : (reroll rand fuel cup₁ ((first + 1) * n) 0 >>= fun r =>
    printCup r.1 (some r.2.2) >>= fun shown => .ok (r.1, r.2.1, shown)) =
      .ok (cup', pos', shown) := hroll
  cases hreroll : reroll rand fuel cup₁ ((first + 1) * n) 0 with
  | error halt => rw [hreroll] at hroll; cases hroll
  | ok r =>
    obtain ⟨cup₂, pos₂, count⟩ := r
    obtain ⟨k, hsettles, hpos, hcount, hcup⟩ := reroll_inv hmax fuel hshowing hreroll
    rw [hreroll] at hroll
    replace hroll : (printCup cup₂ (some count) >>= fun shown => .ok (cup₂, pos₂, shown)) =
      .ok (cup', pos', shown) := hroll
    rw [hcup.print] at hroll
    cases hroll
    exact ⟨k, hsettles, hpos, by rw [hcount, UInt32.zero_add], hcup⟩

/-- With fuel for the casts up to the one that settles, the roll ends with it and prints it. -/
theorem roll_ok (hmax : 0 < maxValue.toInt) (h : Filled maxValue n cup ds)
    (hsettles : Settles rand maxValue n first k) (hfuel : k - first < fuel) :
    ∃ cup', roll rand fuel cup (first * n) = .ok (cup', (k + 1) * n,
        { count := some (UInt32.ofNat (k - first)), values := cast rand maxValue n k }) ∧
      Showing maxValue n cup' (cast rand maxValue n k) := by
  obtain ⟨cup₁, hfirst, hshowing⟩ := rollCup_eq rand hmax h (first * n)
  obtain ⟨cup', hreroll, hcup⟩ := reroll_ok hmax 0 hshowing hsettles hfuel
  refine ⟨cup', ?_, hcup⟩
  rw [roll, hfirst, ← cast_next]
  show (reroll rand fuel cup₁ ((first + 1) * n) 0 >>= fun r =>
    printCup r.1 (some r.2.2) >>= fun shown => .ok (r.1, r.2.1, shown)) = _
  rw [hreroll]
  show (printCup cup' _ >>= _) = _
  rw [hcup.print, UInt32.zero_add]
  rfl

/-! ## The game -/

/-- A game that ends is one of those described. -/
theorem rollAgain_inv (hmax : 0 < maxValue.toInt) (fuel : Nat) {values : List Int32}
    {prints : List Print} {outcome : Outcome} (h : Showing maxValue n cup values)
    (hgame : rollAgain rand fuel cup (first * n) stdin = { prints := prints, ended := .ok outcome }) :
    Plays rand maxValue n first values stdin prints outcome := by
  -- each answer of the player takes one unit of fuel
  induction fuel generalizing cup first values stdin prints with
  | zero => cases hgame
  | succ fuel ih =>
    rcases hprompt : promptContPrint stdin with ⟨ret, rest⟩
    rw [rollAgain, hprompt] at hgame
    cases ret with
    | roll =>
      -- a throw that does not settle would have ended the game with an error
      cases hroll : roll rand fuel cup (first * n) with
      | error halt => simp only [hroll] at hgame; cases hgame
      | ok r =>
        obtain ⟨cup', pos', shown⟩ := r
        obtain ⟨k, hsettles, rfl, rfl, hcup⟩ := roll_inv hmax h hroll
        simp only [hroll] at hgame
        cases hrest : rollAgain rand fuel cup' ((k + 1) * n) rest with
        | mk prints' ended =>
          rw [hrest] at hgame
          cases hgame
          exact .roll hprompt hsettles (ih hcup hrest)
    | print =>
      -- printing throws nothing, and the dice stay as they are
      simp only [h.print] at hgame
      cases hrest : rollAgain rand fuel cup (first * n) rest with
      | mk prints' ended =>
        rw [hrest] at hgame
        cases hgame
        exact .print hprompt (ih h hrest)
    | exit => cases hgame; exact .exit hprompt
    | invalid => cases hgame; exact .invalid hprompt

/-- A game that is described ends, and so. -/
theorem Plays.rollAgain_eq (hmax : 0 < maxValue.toInt) {values : List Int32} {prints : List Print}
    {outcome : Outcome} (h : Plays rand maxValue n first values stdin prints outcome) :
    ∃ enough, ∀ fuel, enough ≤ fuel → ∀ cup, Showing maxValue n cup values →
      rollAgain rand fuel cup (first * n) stdin = { prints := prints, ended := .ok outcome } := by
  induction h with
  | @roll first k values stdin rest prints outcome hprompt hsettles hrest ih =>
    -- one round for the menu, and as many as the roll needs
    obtain ⟨enough, hgame⟩ := ih
    refine ⟨enough + (k - first) + 2, fun fuel hfuel cup h => ?_⟩
    obtain ⟨fuel, rfl⟩ := Nat.exists_eq_add_of_lt (show 0 < fuel by omega)
    rw [Nat.zero_add] at hfuel ⊢
    obtain ⟨cup', hroll, hcup⟩ := roll_ok hmax h hsettles (show k - first < fuel by omega)
    rw [rollAgain, hprompt]
    simp only [hroll, hgame fuel (by omega) cup' hcup]
    rfl
  | @print first values stdin rest prints outcome hprompt hrest ih =>
    obtain ⟨enough, hgame⟩ := ih
    refine ⟨enough + 1, fun fuel hfuel cup h => ?_⟩
    obtain ⟨fuel, rfl⟩ := Nat.exists_eq_add_of_lt (show 0 < fuel by omega)
    rw [Nat.zero_add] at hfuel ⊢
    rw [rollAgain, hprompt]
    simp only [h.print, hgame fuel (by omega) cup h]
    rfl
  | exit hprompt =>
    refine ⟨1, fun fuel hfuel cup _ => ?_⟩
    obtain ⟨fuel, rfl⟩ := Nat.exists_eq_add_of_lt (show 0 < fuel by omega)
    rw [Nat.zero_add, rollAgain, hprompt]
  | invalid hprompt =>
    refine ⟨1, fun fuel hfuel cup _ => ?_⟩
    obtain ⟨fuel, rfl⟩ := Nat.exists_eq_add_of_lt (show 0 < fuel by omega)
    rw [Nat.zero_add, rollAgain, hprompt]

/-! ## Games that end -/

/-- The rest of a line is dropped up to its end, which is a newline or a byte 255. -/
theorem skipLine_eq (stdin : List UInt8) :
    skipLine stdin = (stdin.dropWhile fun b => b ≠ 10 ∧ b ≠ 255).tail := by
  induction stdin with
  | nil => rfl
  | cons b stdin ih =>
    rw [skipLine]
    by_cases hend : b = 10 ∨ b = 255
    · rw [if_pos hend, List.dropWhile_cons_of_neg (by simpa [← not_or] using hend), List.tail_cons]
    · rw [if_neg hend, List.dropWhile_cons_of_pos (by simpa [not_or] using hend), ih]

/-- What is dropped of the input makes it no longer. -/
theorem length_skipLine_le (stdin : List UInt8) : (skipLine stdin).length ≤ stdin.length := by
  have hle := List.length_dropWhile_le (fun b => decide (b ≠ 10 ∧ b ≠ 255)) stdin
  rw [skipLine_eq, List.length_tail]
  omega

/-- The letters of the commands -/
def letters : List UInt8 := [114, 82, 112, 80, 101, 69]

/-- The input begins with a line that is no command, and goes on with `rest`: nothing at all, an
    empty line, or another letter and the rest of its line. -/
inductive InvalidLine : List UInt8 → List UInt8 → Prop
  | endOfInput : InvalidLine [] []
  | empty (rest : List UInt8) : InvalidLine (10 :: rest) rest
  | other {b : UInt8} (line : List UInt8) (hletter : b ∉ letters) (hline : b ≠ 10) :
      InvalidLine (b :: line) (line.dropWhile fun b => b ≠ 10 ∧ b ≠ 255).tail

/-- So many lines in a row are no commands. -/
inductive InvalidLines : Nat → List UInt8 → List UInt8 → Prop
  | done (stdin : List UInt8) : InvalidLines 0 stdin stdin
  | line {n : Nat} {stdin next rest : List UInt8} (hfirst : InvalidLine stdin next)
      (hrest : InvalidLines n next rest) : InvalidLines (n + 1) stdin rest

/-- A letter of a command is read at once. -/
theorem promptFrom_letter {b : UInt8} (tries : Nat) (line : List UInt8) (h : b ∈ letters) :
    ∃ ret, promptFrom (tries + 1) (b :: line) = (ret, line.tail) ∧ ret ≠ .invalid := by
  rw [promptFrom]
  simp only [letters, List.mem_cons, List.not_mem_nil, or_false] at h
  rcases h with rfl | rfl | rfl | rfl | rfl | rfl
  · exact ⟨.roll, rfl, by decide⟩
  · exact ⟨.roll, rfl, by decide⟩
  · exact ⟨.print, rfl, by decide⟩
  · exact ⟨.print, rfl, by decide⟩
  · exact ⟨.exit, rfl, by decide⟩
  · exact ⟨.exit, rfl, by decide⟩

/-- A line that is no command uses up one try. -/
theorem InvalidLine.promptFrom_eq {next : List UInt8} (h : InvalidLine stdin next) (tries : Nat) :
    promptFrom (tries + 1) stdin = promptFrom tries next := by
  cases h with
  | endOfInput => rfl
  | empty rest => rfl
  | @other b line hletter hline =>
    simp only [letters, List.mem_cons, List.not_mem_nil, or_false, not_or] at hletter
    obtain ⟨h₁, h₂, h₃, h₄, h₅, h₆⟩ := hletter
    rw [promptFrom, ← skipLine_eq]
    simp [h₁, h₂, h₃, h₄, h₅, h₆, hline]

/-- Every input begins with a command or with a line that is none. -/
theorem letter_or_invalidLine (stdin : List UInt8) :
    (∃ b line, stdin = b :: line ∧ b ∈ letters) ∨ ∃ next, InvalidLine stdin next := by
  cases stdin with
  | nil => exact .inr ⟨[], .endOfInput⟩
  | cons b line =>
    by_cases hletter : b ∈ letters
    · exact .inl ⟨b, line, rfl, hletter⟩
    · by_cases hline : b = 10
      · exact .inr ⟨line, hline ▸ .empty line⟩
      · exact .inr ⟨_, .other line hletter hline⟩

/-- The tries run out exactly when each of them meets a line that is no command. -/
theorem promptFrom_invalid_iff (tries : Nat) (stdin rest : List UInt8) :
    promptFrom tries stdin = (.invalid, rest) ↔ InvalidLines tries stdin rest := by
  -- each invalid line uses up one try
  induction tries generalizing stdin with
  | zero =>
    constructor
    · intro h
      cases h
      exact .done _
    · intro h
      cases h
      rfl
  | succ tries ih =>
    constructor
    · intro h
      -- a line is one of the letters asked for, or invalid
      obtain ⟨b, line, rfl, hletter⟩ | ⟨next, hinvalid⟩ := letter_or_invalidLine stdin
      · obtain ⟨ret, hread, hne⟩ := promptFrom_letter tries line hletter
        rw [hread] at h
        exact absurd (Prod.mk.inj h).1 hne
      · rw [hinvalid.promptFrom_eq] at h
        exact .line hinvalid ((ih next).mp h)
    · intro h
      cases h with
      | line hfirst hrest =>
        rw [hfirst.promptFrom_eq]
        exact (ih _).mpr hrest

/-- The prompt gives up after three lines that are no commands, and only then. -/
theorem promptContPrint_invalid_iff (stdin rest : List UInt8) :
    promptContPrint stdin = (.invalid, rest) ↔ InvalidLines 3 stdin rest :=
  promptFrom_invalid_iff 3 stdin rest

/-- A line that is no command leaves no longer an input. -/
theorem InvalidLine.length_le {next : List UInt8} (h : InvalidLine stdin next) :
    next.length ≤ stdin.length := by
  cases h with
  | endOfInput => exact Nat.le_refl 0
  | empty rest => exact Nat.le_succ _
  | other line hletter hline =>
    have hskip := length_skipLine_le line
    rw [← skipLine_eq, List.length_cons]
    omega

/-- A command that is read leaves a shorter input. -/
theorem promptFrom_shorter {tries : Nat} {ret : Command}
    (h : promptFrom tries stdin = (ret, rest)) (hret : ret ≠ .invalid) :
    rest.length < stdin.length := by
  induction tries generalizing stdin with
  | zero =>
    cases h
    exact absurd rfl hret
  | succ tries ih =>
    obtain ⟨b, line, rfl, hletter⟩ | ⟨next, hinvalid⟩ := letter_or_invalidLine stdin
    · obtain ⟨ret', hread, -⟩ := promptFrom_letter tries line hletter
      obtain ⟨-, rfl⟩ := Prod.mk.inj (hread.symm.trans h)
      rw [List.length_tail, List.length_cons]
      omega
    · rw [hinvalid.promptFrom_eq] at h
      have hnext := ih h
      have hle := hinvalid.length_le
      omega

/-- If some later cast agrees there is a first one. -/
theorem exists_settles (h : ∃ k, first ≤ k ∧ Uniform (cast rand maxValue n k)) :
    ∃ k, Settles rand maxValue n first k := by
  obtain ⟨hle, huniform⟩ := Nat.find_spec h
  exact ⟨Nat.find h, hle, huniform, fun j hj hlt hj' => Nat.find_min h hlt ⟨hj, hj'⟩⟩

/-- If the dice agree again and again, every input makes a game. -/
theorem exists_plays (h : ∀ first, ∃ k, first ≤ k ∧ Uniform (cast rand maxValue n k))
    (first : Nat) (values : List Int32) (stdin : List UInt8) :
    ∃ prints outcome, Plays rand maxValue n first values stdin prints outcome := by
  -- on the length of the input: every prompt reads something
  induction hlength : stdin.length using Nat.strong_induction_on generalizing first values stdin with
  | _ length ih =>
    rcases hprompt : promptContPrint stdin with ⟨ret, rest⟩
    cases ret with
    | roll =>
      have hshorter : rest.length < stdin.length := promptFrom_shorter hprompt nofun
      obtain ⟨k, hsettles⟩ := exists_settles (h first)
      obtain ⟨prints, outcome, hrest⟩ := ih rest.length (by omega) (k + 1)
        (cast rand maxValue n k) rest rfl
      exact ⟨_, outcome, .roll hprompt hsettles hrest⟩
    | print =>
      have hshorter : rest.length < stdin.length := promptFrom_shorter hprompt nofun
      obtain ⟨prints, outcome, hrest⟩ := ih rest.length (by omega) first values rest rfl
      exact ⟨_, outcome, .print hprompt hrest⟩
    | exit => exact ⟨[], .success, .exit hprompt⟩
    | invalid => exact ⟨[], .failure, .invalid hprompt⟩

/-- A game ends exactly as it is described. -/
theorem play_iff_plays (rand : Nat → Fin (2 ^ 31)) (diceCount : Int32) (stdin : List UInt8)
    (hmax : 0 < maxValue.toInt) (prints : List Print) (outcome : Outcome) :
    (∃ fuel, play rand fuel available maxValue diceCount stdin =
      { prints := prints, ended := .ok outcome }) ↔
    Plays rand maxValue diceCount.toInt.toNat 0 (List.replicate diceCount.toInt.toNat 0)
      stdin.tail prints outcome := by
  have hzero : 0 * diceCount.toInt.toNat = 0 := Nat.zero_mul _
  constructor
  · rintro ⟨fuel, hgame⟩
    obtain ⟨cup, hcup, hplay⟩ := play_start rand fuel maxValue diceCount stdin
    rw [hplay] at hgame
    apply rollAgain_inv hmax fuel hcup
    rw [hzero]
    exact hgame
  · intro h
    -- the derivation tells how much fuel the game needs
    obtain ⟨enough, hgame⟩ := h.rollAgain_eq hmax
    obtain ⟨cup, hcup, hplay⟩ := play_start rand enough maxValue diceCount stdin
    refine ⟨enough, ?_⟩
    rw [hplay, ← hgame enough (Nat.le_refl enough) cup hcup, hzero]

/-- With a positive highest value a game that ends shows at each roll the first cast from
    there on in which all dice agree, with the number of casts passed over, and at each print
    the dice as they were left. Every such game is played to its end, and if the dice agree
    again and again all inputs make one. -/
theorem play_casts (rand : Nat → Fin (2 ^ 31)) (maxValue diceCount : Int32) (stdin : List UInt8)
    (hmax : 0 < maxValue.toInt) :
    (∀ prints outcome,
      (∃ fuel, play rand fuel available maxValue diceCount stdin =
        { prints := prints, ended := .ok outcome }) ↔
      Plays rand maxValue diceCount.toInt.toNat 0 (List.replicate diceCount.toInt.toNat 0)
        stdin.tail prints outcome) ∧
    ((∀ first, ∃ k, first ≤ k ∧ Uniform (cast rand maxValue diceCount.toInt.toNat k)) →
      ∃ fuel prints outcome, play rand fuel available maxValue diceCount stdin =
        { prints := prints, ended := .ok outcome }) := by
  refine ⟨play_iff_plays rand diceCount stdin hmax, fun hagain => ?_⟩
  obtain ⟨prints, outcome, h⟩ := exists_plays hagain 0
    (List.replicate diceCount.toInt.toNat 0) stdin.tail
  obtain ⟨fuel, hgame⟩ := (play_iff_plays rand diceCount stdin hmax prints outcome).mpr h
  exact ⟨fuel, prints, outcome, hgame⟩

/-- Two dice of six that always show four: "r", "p", "e". -/
theorem play_casts_two_dice :
    Plays (fun _ => 3) 6 2 0 [0, 0] [114, 10, 112, 10, 101, 10]
      [{ count := some 0, values := [4, 4] }, { count := none, values := [4, 4] }] .success :=
  ((play_casts (fun _ => 3) 6 2 [10, 114, 10, 112, 10, 101, 10] (by decide)).1 _ _).mp
    ⟨4, by decide⟩

/-! ## The program -/

/-- A prompt that has ended needs no more tries. -/
theorem promptInt_add {fuel : Nat} {value v : Int32} (h : promptInt fuel value stdin = .ok (v, rest))
    (more : Nat) : promptInt (fuel + more) value stdin = .ok (v, rest) := by
  induction fuel generalizing value stdin with
  | zero => cases h
  | succ fuel ih =>
    rw [Nat.succ_add]
    rcases hscan : Scanf.scanInt stdin with ⟨scanned, next⟩
    cases hstored : stored value scanned with
    | error halt =>
      rw [promptInt, hscan] at h
      replace h : (stored value scanned >>= _) = _ := h
      rw [hstored] at h
      cases h
    | ok value' =>
      rw [promptInt_stored fuel hscan hstored] at h
      rw [promptInt_stored (fuel + more) hscan hstored]
      by_cases hzero : value' = 0
      · rw [if_pos hzero] at h ⊢
        exact ih h
      · rw [if_neg hzero] at h ⊢
        exact h

/-- The whole program, once it has read a positive highest value and a number of dice: it ends
    exactly as the game with these numbers is described. -/
theorem main_iff_plays (rand : Nat → Fin (2 ^ 31)) {fuel : Nat} {stdin' : List UInt8}
    (hmaxValue : promptInt fuel 0 stdin = .ok (maxValue, rest))
    (hdiceCount : promptInt fuel 0 rest = .ok (diceCount, stdin')) (hmax : 0 < maxValue.toInt)
    (prints : List Print) (outcome : Outcome) :
    (∃ more, main rand (fuel + more) available stdin =
      { prints := prints, ended := .ok outcome }) ↔
    Plays rand maxValue diceCount.toInt.toNat 0 (List.replicate diceCount.toInt.toNat 0)
      stdin'.tail prints outcome := by
  have hmain (more : Nat) : main rand (fuel + more) available stdin =
      play rand (fuel + more) available maxValue diceCount stdin' :=
    (main_eq_play rand available (promptInt_add hmaxValue more) (promptInt_add hdiceCount more)).2.2
  constructor
  · rintro ⟨more, hgame⟩
    rw [hmain] at hgame
    exact (play_iff_plays rand diceCount stdin' hmax prints outcome).mp ⟨fuel + more, hgame⟩
  · intro h
    -- the fuel of the prompts and of the game are added up
    obtain ⟨enough, hgame⟩ := h.rollAgain_eq hmax
    obtain ⟨cup, hcup, hplay⟩ :=
      play_start rand (fuel + enough) maxValue diceCount stdin'
    refine ⟨enough, ?_⟩
    rw [hmain, hplay, ← hgame (fuel + enough) (Nat.le_add_left enough fuel) cup hcup, Nat.zero_mul]

end Yahtzee
