import CSnippets.ForStd.Faults
import CSnippets.Spec.YahtzeeCup
import CSnippets.Spec.YahtzeePrompt

/-!
# Five of a kind

A roll gives every die a value from one on, and up to its highest value if that is
positive. The loop behind it ends when neighbours agree, and then all dice do. But
`prompt_int` refuses nothing except zero, and no value from one on is at most a negative
one.
-/

namespace Yahtzee

open Faults

/-- The die has been rolled. -/
def Rolled (d : Die) : Prop :=
  1 ≤ d.currentValue.toInt ∧ (0 < d.maxValue.toInt → d.currentValue.toInt ≤ d.maxValue.toInt)

/-- All dice show the same value. -/
def AllSame (ds : List Die) : Prop := ∀ d ∈ ds, ∀ e ∈ ds, d.currentValue = e.currentValue

instance (ds : List Die) : Decidable (AllSame ds) :=
  inferInstanceAs (Decidable (∀ d ∈ ds, ∀ e ∈ ds, d.currentValue = e.currentValue))

/-- The dice of a cup -/
structure Filled (maxValue : Int32) (n : Nat) (cup : Cup) (ds : List Die) : Prop where
  rounds : cup.rounds = n
  length : ds.length = n
  dice : ds = [] ∨ cup.dice = some (ds.map some)
  maxValue : ∀ d ∈ ds, d.maxValue = maxValue

/-- What a die shows for a result of `rand`. -/
def face (maxValue : Int32) (r : Fin (2 ^ 31)) : Int32 :=
  Int32.ofInt ((r.val : Int) % maxValue.toInt + 1)

/-- The values of `n` dice from the `pos`-th result of `rand` on. -/
def valuesAt (rand : Nat → Fin (2 ^ 31)) (maxValue : Int32) (n pos : Nat) : List Int32 :=
  (List.range n).map fun i => face maxValue (rand (pos + i))

/-- The dice that show a list of values. -/
def diceOf (maxValue : Int32) (values : List Int32) : List Die :=
  values.map fun v => { maxValue := maxValue, currentValue := v }

/-- The cup holds dice that show these values. -/
def Showing (maxValue : Int32) (n : Nat) (cup : Cup) (values : List Int32) : Prop :=
  Filled maxValue n cup (diceOf maxValue values)

/-- A roll that cannot go right -/
def Hopeless (maxValue : Int32) (n : Nat) : Prop := maxValue.toInt ≤ 0 ∧ 0 < n

/-- The faults of a game: a loop that goes on, or that of a roll. -/
def Fault (hopeless : Prop) (halt : Halt) : Prop := halt = .endless ∨ hopeless

/-- A cup that the loop is done with -/
def Settled (maxValue : Int32) (n : Nat) (cup : Cup) : Prop :=
  ∃ ds, Filled maxValue n cup ds ∧ (∀ d ∈ ds, Rolled d) ∧ AllSame ds

/-- What was printed of such a cup -/
def Cast (maxValue : Int32) (n : Nat) (shown : Print) : Prop :=
  ∃ cup ds, Filled maxValue n cup ds ∧ (∀ d ∈ ds, Rolled d) ∧ AllSame ds ∧
    shown.values = ds.map Die.currentValue

/-- The user asks for a roll before anything that ends the game. -/
inductive AsksRoll : List UInt8 → Prop
  | roll {stdin rest : List UInt8} : promptContPrint stdin = (.roll, rest) → AsksRoll stdin
  | print {stdin rest : List UInt8} :
      promptContPrint stdin = (.print, rest) → AsksRoll rest → AsksRoll stdin

/-- What was printed from the first roll on; a print on request has no count. -/
def fromRoll (prints : List Print) : List Print := prints.dropWhile fun p => p.count.isNone

/-- All blocks are there. -/
def available : Allocations := { cup := true, dice := true, die := fun _ => true }

/-- Every die shows a value between one and the highest one, and all show the same. -/
structure Shows (maxValue : Int32) (n : Nat) (shown : Print) : Prop where
  length : shown.values.length = n
  range : ∀ v ∈ shown.values, 1 ≤ v.toInt ∧ v.toInt ≤ maxValue.toInt
  same : ∀ v ∈ shown.values, ∀ w ∈ shown.values, v = w

/-- All cups printed from the first roll on show the dice as they should, and no fault ends
    the game. -/
structure Fair (maxValue diceCount : Int32) (game : Game) : Prop where
  shows : ∀ p ∈ fromRoll game.prints, Shows maxValue diceCount.toInt.toNat p
  faultless : ∀ halt, game.ended = .error halt → halt = .endless

/-- The game ends, or at least the loop behind its first roll. -/
def LoopEnds (game : Game) : Prop := game.ended ≠ .error .endless ∨ fromRoll game.prints ≠ []

variable {rand : Nat → Fin (2 ^ 31)} {maxValue diceCount : Int32} {n : Nat} {cup : Cup}
  {ds : List Die} {stdin rest : List UInt8} {ret : Command} {fuel pos : Nat}

/-! ## One roll -/

/-- A cast has a value for each die. -/
theorem length_valuesAt (rand : Nat → Fin (2 ^ 31)) (maxValue : Int32) (n pos : Nat) :
    (valuesAt rand maxValue n pos).length = n := by
  rw [valuesAt, List.length_map, List.length_range]

/-- The first die, and the others from the next result on. -/
theorem valuesAt_succ (rand : Nat → Fin (2 ^ 31)) (maxValue : Int32) (n pos : Nat) :
    valuesAt rand maxValue (n + 1) pos =
      face maxValue (rand pos) :: valuesAt rand maxValue n (pos + 1) := by
  rw [valuesAt, valuesAt, List.range_succ_eq_map, List.map_cons, List.map_map]
  congr 1
  apply List.map_congr_left
  intro i _
  show face maxValue (rand (pos + (i + 1))) = face maxValue (rand (pos + 1 + i))
  rw [show pos + (i + 1) = pos + 1 + i by omega]

/-- The die of the first value, and the others. -/
theorem diceOf_cons (maxValue v : Int32) (values : List Int32) :
    diceOf maxValue (v :: values) =
      { maxValue := maxValue, currentValue := v } :: diceOf maxValue values := rfl

/-- A die that is rolled shows its face; only a highest value that is not positive makes the
    roll fail. -/
theorem rollDie_post (r : Fin (2 ^ 31)) (d : Die) :
    Post (fun _ => d.maxValue.toInt ≤ 0)
      (fun d' => d' = { d with currentValue := face d.maxValue r } ∧ Rolled d') (rollDie r d) := by
  have hmod : (r.val : Int).tmod d.maxValue.toInt = (r.val : Int) % d.maxValue.toInt :=
    Int.tmod_eq_emod_of_nonneg (Int.natCast_nonneg _)
  have hnonneg : 0 ≤ (r.val : Int).tmod d.maxValue.toInt :=
    Int.tmod_nonneg _ (Int.natCast_nonneg _)
  have hlt : 0 < d.maxValue.toInt → (r.val : Int).tmod d.maxValue.toInt < d.maxValue.toInt :=
    fun hpos => Int.tmod_lt_of_pos _ hpos
  have hmax := Int32.toInt_lt d.maxValue
  rw [rollDie]
  by_cases hzero : d.maxValue = 0
  · rw [if_pos hzero, hzero]
    exact Int.le_refl 0
  · rw [if_neg hzero, face, ← hmod]
    by_cases hfits : fits ((r.val : Int).tmod d.maxValue.toInt + 1)
    · have hint := Int32.toInt_ofInt_of_le hfits.1 hfits.2
      simp only [if_pos hfits]
      refine ⟨rfl, ?_, ?_⟩
      · show 1 ≤ (Int32.ofInt _).toInt
        omega
      · show 0 < d.maxValue.toInt → (Int32.ofInt _).toInt ≤ d.maxValue.toInt
        omega
    · simp only [if_neg hfits]
      show d.maxValue.toInt ≤ 0
      -- with a positive highest value the number would fit
      by_contra hpos
      apply hfits
      rw [fits]
      omega

/-- The die behind `front`, with all places filled. -/
theorem die_of_map (diceCount : Int32) (front rest : List Die) (d : Die) :
    Cup.die ⟨some ((front ++ d :: rest).map some), diceCount⟩ front.length = .ok d := by
  have hdie := die_append diceCount (front.map some) (rest.map some) d
  rw [List.length_map] at hdie
  rw [List.map_append]
  exact hdie

/-- Storing a die behind `front`, with all places filled. -/
theorem setDie_of_map (diceCount : Int32) (front rest : List Die) (e d : Die) :
    Cup.setDie ⟨some ((front ++ e :: rest).map some), diceCount⟩ front.length (some d) =
      .ok ⟨some ((front ++ [d] ++ rest).map some), diceCount⟩ := by
  have hset := setDie_append diceCount (front.map some) (rest.map some) (some e)
    (some d)
  rw [List.length_map] at hset
  rw [List.map_append, List.map_append, List.map_append]
  exact hset

/-- One round: the die behind `front` is rolled, and the loop goes on behind it. -/
theorem rollFrom_succ (rand : Nat → Fin (2 ^ 31)) (diceCount : Int32) (front rest : List Die)
    (d : Die) (rounds pos : Nat) :
    rollFrom rand (rounds + 1) front.length ⟨some ((front ++ d :: rest).map some), diceCount⟩ pos =
      rollDie (rand pos) d >>= fun d' =>
        rollFrom rand rounds (front ++ [d']).length
          ⟨some ((front ++ [d'] ++ rest).map some), diceCount⟩ (pos + 1) := by
  rw [rollFrom, die_of_map]
  show (rollDie (rand pos) d >>= _) = _
  apply bind_congr
  intro d'
  rw [setDie_of_map, List.length_append, List.length_singleton]
  rfl

/-- The dice of `front` have been rolled, and the others are by the next results of `rand`. -/
theorem rollFrom_post (rand : Nat → Fin (2 ^ 31)) (diceCount : Int32) (front rest : List Die)
    (hrest : ∀ d ∈ rest, d.maxValue = maxValue) (pos : Nat) :
    Post (fun _ => maxValue.toInt ≤ 0)
      (fun r => r = (⟨some ((front ++ diceOf maxValue
          (valuesAt rand maxValue rest.length pos)).map some), diceCount⟩, pos + rest.length) ∧
        ∀ d ∈ diceOf maxValue (valuesAt rand maxValue rest.length pos), Rolled d)
      (rollFrom rand rest.length front.length ⟨some ((front ++ rest).map some), diceCount⟩ pos) := by
  -- the dice in front have been rolled, each with its own random number
  induction rest generalizing front pos with
  | nil => exact ⟨rfl, fun d hd => nomatch hd⟩
  | cons d rest ih =>
    rw [List.forall_mem_cons] at hrest
    obtain ⟨hd, hrest⟩ := hrest
    have hroll := rollDie_post (rand pos) d
    rw [hd] at hroll
    rw [List.length_cons, rollFrom_succ]
    apply hroll.bind
    rintro d' ⟨hd', hrolled⟩
    -- the die shows what its random number gives
    have hface : d' = { maxValue := maxValue, currentValue := face maxValue (rand pos) } := by
      rw [hd', ← hd]
    apply (ih (front ++ [d']) hrest (pos + 1)).mono (fun _ h => h)
    rintro r ⟨rfl, hall⟩
    rw [valuesAt_succ, diceOf_cons, ← hface]
    constructor
    · rw [List.append_assoc, List.singleton_append, Nat.add_right_comm, Nat.add_assoc]
    · exact List.forall_mem_cons.mpr ⟨hrolled, hall⟩

/-- A cup has no dice, or it is its array. -/
theorem Filled.cases (h : Filled maxValue n cup ds) :
    ds = [] ∧ n = 0 ∨ 0 < n ∧ cup = ⟨some (ds.map some), cup.diceCount⟩ := by
  have hlen := h.length
  by_cases hnil : ds = []
  · rw [hnil, List.length_nil] at hlen
    exact .inl ⟨hnil, hlen.symm⟩
  · have hpos := List.length_pos_of_ne_nil hnil
    rw [← h.dice.resolve_left hnil]
    exact .inr ⟨by omega, rfl⟩

/-- An array of so many dice fills a cup. -/
theorem Filled.of_array (hlen : ds.length = n) (hcount : diceCount.toInt.toNat = n)
    (hmax : ∀ d ∈ ds, d.maxValue = maxValue) :
    Filled maxValue n ⟨some (ds.map some), diceCount⟩ ds :=
  ⟨hcount, hlen, .inr rfl, hmax⟩

/-- So does one of dice that show so many values. -/
theorem Showing.of_array {values : List Int32} (hlen : values.length = n)
    (hcount : diceCount.toInt.toNat = n) :
    Showing maxValue n ⟨some ((diceOf maxValue values).map some), diceCount⟩ values := by
  refine Filled.of_array (by rw [diceOf, List.length_map, hlen]) hcount fun d hd => ?_
  obtain ⟨v, -, rfl⟩ := List.mem_map.mp hd
  rfl

/-- A roll of the cup. -/
theorem rollCup_post (rand : Nat → Fin (2 ^ 31)) (h : Filled maxValue n cup ds) (pos : Nat) :
    Post (fun _ => Hopeless maxValue n)
      (fun r => pos + n = r.2 ∧ Showing maxValue n r.1 (valuesAt rand maxValue n pos) ∧
        ∀ d ∈ diceOf maxValue (valuesAt rand maxValue n pos), Rolled d)
      (rollCup rand cup pos) := by
  have hrounds := h.rounds
  rw [rollCup, hrounds]
  rcases h.cases with ⟨rfl, rfl⟩ | ⟨hpos, hcup⟩
  · exact ⟨rfl, h, fun d hd => nomatch hd⟩
  · have hroll := rollFrom_post rand cup.diceCount [] ds h.maxValue pos
    rw [List.nil_append, List.nil_append, List.length_nil, h.length, ← hcup] at hroll
    apply hroll.mono (fun _ hle => ⟨hle, hpos⟩)
    rintro r ⟨rfl, hall⟩
    exact ⟨rfl, .of_array (length_valuesAt ..) hrounds, hall⟩

/-! ## Reading the dice -/

/-- The loop compares neighbours: the dice behind `d` show what it shows. -/
theorem checkFrom_eq (diceCount : Int32) (front rest : List Die) (d : Die) :
    checkFrom ⟨some ((front ++ d :: rest).map some), diceCount⟩ rest.length (front.length + 1) =
      .ok (decide (∀ e ∈ rest, e.currentValue = d.currentValue)) := by
  -- on the dice behind `d`, each compared with the one in front of it
  induction rest generalizing front d with
  | nil => rfl
  | cons e rest ih =>
    have hd := die_of_map diceCount front (e :: rest) d
    have he := die_of_map diceCount (front ++ [d]) rest e
    have hnext := ih (front ++ [d]) e
    rw [List.length_append, List.length_singleton, List.append_assoc, List.singleton_append]
      at he hnext
    rw [List.length_cons, checkFrom, he, Nat.add_sub_cancel]
    show (Cup.die _ _ >>= _) = _
    rw [hd]
    show (if e.currentValue ≠ d.currentValue then .ok false else checkFrom _ _ _) = _
    by_cases heq : e.currentValue = d.currentValue
    · rw [if_neg (not_not.mpr heq), hnext]
      simp [heq]
    · rw [if_pos heq]
      simp [heq]

/-- The values of the cup are those of its dice. -/
theorem valuesFrom_eq (diceCount : Int32) (front rest : List Die) :
    valuesFrom ⟨some ((front ++ rest).map some), diceCount⟩ rest.length front.length =
      .ok (rest.map Die.currentValue) := by
  induction rest generalizing front with
  | nil => rfl
  | cons d rest ih =>
    have hnext := ih (front ++ [d])
    rw [List.length_append, List.length_singleton, List.append_assoc, List.singleton_append]
      at hnext
    rw [List.length_cons, valuesFrom, die_of_map]
    show (valuesFrom _ _ _ >>= _) = _
    rw [hnext]
    rfl

/-- Dice are the same if the others are like the first. -/
theorem allSame_cons_iff (d : Die) (rest : List Die) :
    AllSame (d :: rest) ↔ ∀ e ∈ rest, e.currentValue = d.currentValue := by
  constructor
  · intro h e he
    exact h e (.tail d he) d (.head rest)
  · intro h
    have hall : ∀ e ∈ d :: rest, e.currentValue = d.currentValue :=
      List.forall_mem_cons.mpr ⟨rfl, h⟩
    intro e he e' he'
    rw [hall e he, hall e' he']

/-- `checkCup` tells whether all dice are the same. -/
theorem checkCup_eq (h : Filled maxValue n cup ds) : checkCup cup = .ok (decide (AllSame ds)) := by
  rw [checkCup, h.rounds, ← h.length]
  cases ds with
  | nil => rfl
  | cons d rest =>
    obtain ⟨-, hcup⟩ := h.cases.resolve_left fun hnil => nomatch hnil.1
    have hcheck := checkFrom_eq cup.diceCount [] rest d
    rw [List.nil_append, ← hcup] at hcheck
    simp only [allSame_cons_iff]
    exact hcheck

/-- `printCup` prints the values of all dice. -/
theorem printCup_eq (h : Filled maxValue n cup ds) (count : Option UInt32) :
    printCup cup count = .ok { count := count, values := ds.map Die.currentValue } := by
  rw [printCup, h.rounds]
  rcases h.cases with ⟨rfl, rfl⟩ | ⟨-, hcup⟩
  · rfl
  · have hvalues := valuesFrom_eq cup.diceCount [] ds
    rw [List.nil_append, List.length_nil, h.length, ← hcup] at hvalues
    rw [hvalues]
    rfl

/-! ## The game -/

/-- The loop ends with a settled cup, or with one of the faults of a game. -/
theorem reroll_post (rand : Nat → Fin (2 ^ 31)) (fuel : Nat) (h : Filled maxValue n cup ds)
    (hrolled : ∀ d ∈ ds, Rolled d) (pos : Nat) (rollCount : UInt32) :
    Post (Fault (Hopeless maxValue n)) (fun r => Settled maxValue n r.1)
      (reroll rand fuel cup pos rollCount) := by
  induction fuel generalizing cup ds pos rollCount with
  | zero => exact .inl rfl
  | succ fuel ih =>
    rw [reroll, checkCup_eq h]
    show Post _ _ (if decide (AllSame ds) = true then _ else _)
    by_cases hsame : AllSame ds
    · rw [if_pos (decide_eq_true hsame)]
      exact ⟨ds, h, hrolled, hsame⟩
    · rw [if_neg (by simpa using hsame)]
      apply ((rollCup_post rand h pos).mono (fun _ => .inr) (fun _ hr => hr)).bind
      rintro r ⟨-, hfilled, hrolled'⟩
      exact ih hfilled hrolled' r.2 (rollCount + 1)

/-- A roll ends with a settled cup, and prints it with its count. -/
theorem roll_post (rand : Nat → Fin (2 ^ 31)) (fuel : Nat) (h : Filled maxValue n cup ds)
    (pos : Nat) :
    Post (Fault (Hopeless maxValue n))
      (fun r => Settled maxValue n r.1 ∧ Cast maxValue n r.2.2 ∧ r.2.2.count.isNone = false)
      (roll rand fuel cup pos) := by
  apply ((rollCup_post rand h pos).mono (fun _ => .inr) (fun _ hr => hr)).bind
  rintro r ⟨-, hfilled, hrolled⟩
  apply (reroll_post rand fuel hfilled hrolled r.2 0).bind
  intro ⟨cup', pos', rollCount⟩ ⟨ds, hq, hdice, hsame⟩
  have hprint := printCup_eq hq (some rollCount)
  show Post _ _ (printCup cup' (some rollCount) >>= _)
  rw [hprint]
  exact ⟨⟨ds, hq, hdice, hsame⟩, ⟨cup', ds, hq, hdice, hsame, rfl⟩, rfl⟩

/-- What one turn at the menu does with a cup of dice. -/
inductive Turn (rand : Nat → Fin (2 ^ 31)) (fuel : Nat) (maxValue : Int32) (n : Nat) (cup : Cup)
    (ds : List Die) (pos : Nat) (stdin : List UInt8) : Game → Prop
  | rolled {rest : List UInt8} {cup' : Cup} {pos' : Nat} {shown : Print}
      (hprompt : promptContPrint stdin = (.roll, rest)) (hsettled : Settled maxValue n cup')
      (hcast : Cast maxValue n shown) (hcount : shown.count.isNone = false) :
      Turn rand fuel maxValue n cup ds pos stdin
        ((rollAgain rand fuel cup' pos' rest).after shown)
  | fault {rest : List UInt8} {halt : Halt} (hprompt : promptContPrint stdin = (.roll, rest))
      (hfault : Fault (Hopeless maxValue n) halt) :
      Turn rand fuel maxValue n cup ds pos stdin { prints := [], ended := .error halt }
  | printed {rest : List UInt8} (hprompt : promptContPrint stdin = (.print, rest)) :
      Turn rand fuel maxValue n cup ds pos stdin ((rollAgain rand fuel cup pos rest).after
        { count := none, values := ds.map Die.currentValue })
  | quit {rest : List UInt8} {ret : Command} {outcome : Outcome}
      (hprompt : promptContPrint stdin = (ret, rest)) (hroll : ret ≠ .roll)
      (hprint : ret ≠ .print) :
      Turn rand fuel maxValue n cup ds pos stdin { prints := [], ended := .ok outcome }

/-- Every turn at the menu is one of these. -/
theorem rollAgain_turn (rand : Nat → Fin (2 ^ 31)) (fuel : Nat) (h : Filled maxValue n cup ds)
    (pos : Nat) (stdin : List UInt8) :
    Turn rand fuel maxValue n cup ds pos stdin (rollAgain rand (fuel + 1) cup pos stdin) := by
  rcases hprompt : promptContPrint stdin with ⟨ret, rest⟩
  rw [rollAgain, hprompt]
  cases ret with
  | roll =>
    have hpost := roll_post rand fuel h pos
    cases hroll : roll rand fuel cup pos with
    | error halt =>
      rw [hroll] at hpost
      exact .fault hprompt hpost
    | ok r =>
      rw [hroll] at hpost
      exact .rolled hprompt hpost.1 hpost.2.1 hpost.2.2
  | print =>
    simp only [printCup_eq h none]
    exact .printed hprompt
  | exit => exact .quit hprompt (by decide) (by decide)
  | invalid => exact .quit hprompt (by decide) (by decide)

/-- Once the cup is settled it is so at each print. -/
theorem rollAgain_settled (rand : Nat → Fin (2 ^ 31)) (fuel : Nat) (h : Settled maxValue n cup)
    (pos : Nat) (stdin : List UInt8) :
    (∀ p ∈ (rollAgain rand fuel cup pos stdin).prints, Cast maxValue n p) ∧
      Post (Fault (Hopeless maxValue n)) (fun _ => True)
        (rollAgain rand fuel cup pos stdin).ended := by
  induction fuel generalizing cup pos stdin with
  | zero => exact ⟨fun p hp => (nomatch hp), .inl rfl⟩
  | succ fuel ih =>
    obtain ⟨ds, hfilled, hrolled, hsame⟩ := h
    have hturn := rollAgain_turn rand fuel hfilled pos stdin
    generalize rollAgain rand (fuel + 1) cup pos stdin = game at hturn ⊢
    cases hturn with
    | @rolled rest cup' pos' shown hprompt hsettled hcast hcount =>
      obtain ⟨hcasts, hended⟩ := ih hsettled pos' rest
      exact ⟨List.forall_mem_cons.mpr ⟨hcast, hcasts⟩, hended⟩
    | fault hprompt hfault => exact ⟨fun p hp => (nomatch hp), hfault⟩
    | @printed rest hprompt =>
      -- the cup is printed as the last roll has left it
      obtain ⟨hcasts, hended⟩ := ih ⟨ds, hfilled, hrolled, hsame⟩ pos rest
      have hcast : Cast maxValue n ⟨none, ds.map Die.currentValue⟩ :=
        ⟨cup, ds, hfilled, hrolled, hsame, rfl⟩
      exact ⟨List.forall_mem_cons.mpr ⟨hcast, hcasts⟩, hended⟩
    | quit => exact ⟨fun p hp => (nomatch hp), trivial⟩

/-- The user asks for a roll now, or has the cup printed and asks later. -/
theorem asksRoll_iff (hprompt : promptContPrint stdin = (ret, rest)) :
    AsksRoll stdin ↔ ret = .roll ∨ ret = .print ∧ AsksRoll rest := by
  constructor
  · intro h
    cases h with
    | roll hroll =>
      rw [hprompt] at hroll
      exact .inl (Prod.mk.inj hroll).1
    | print hprint hrest =>
      rw [hprompt] at hprint
      cases hprint
      exact .inr ⟨rfl, hrest⟩
  · rintro (rfl | ⟨rfl, hrest⟩)
    · exact .roll hprompt
    · exact .print hprompt hrest

/-- What a game with a cup like this comes to, `asks` for a roll or not -/
structure Round (maxValue : Int32) (n : Nat) (asks : Prop) (game : Game) : Prop where
  casts : ∀ p ∈ fromRoll game.prints, Cast maxValue n p
  ended : Post (Fault (Hopeless maxValue n ∧ asks)) (fun _ => asks → fromRoll game.prints ≠ [])
    game.ended
  asked : fromRoll game.prints ≠ [] → asks

/-- A print with a count starts what is printed from the first roll on. -/
theorem fromRoll_cons {shown : Print} (h : shown.count.isNone = false) (prints : List Print) :
    fromRoll (shown :: prints) = shown :: prints :=
  List.dropWhile_cons_of_neg (by rw [h]; exact Bool.false_ne_true)

/-- A game with a filled cup, from the menu on. -/
theorem rollAgain_round (rand : Nat → Fin (2 ^ 31)) (fuel : Nat) (h : Filled maxValue n cup ds)
    (pos : Nat) (stdin : List UInt8) :
    Round maxValue n (AsksRoll stdin) (rollAgain rand fuel cup pos stdin) := by
  induction fuel generalizing stdin with
  | zero => exact ⟨fun p hp => (nomatch hp), .inl rfl, fun hne => absurd rfl hne⟩
  | succ fuel ih =>
    have hturn := rollAgain_turn rand fuel h pos stdin
    generalize rollAgain rand (fuel + 1) cup pos stdin = game at hturn ⊢
    cases hturn with
    | @rolled rest cup' pos' shown hprompt hsettled hcast hcount =>
      have hasks : AsksRoll stdin := .roll hprompt
      obtain ⟨hcasts, hended⟩ := rollAgain_settled rand fuel hsettled pos' rest
      have hfrom := fromRoll_cons hcount (rollAgain rand fuel cup' pos' rest).prints
      constructor
      · rw [Game.after, hfrom]
        exact List.forall_mem_cons.mpr ⟨hcast, hcasts⟩
      · apply hended.mono
        · intro halt hfault
          exact hfault.imp_right fun hh => ⟨hh, hasks⟩
        · intro _ _ _
          rw [Game.after, hfrom]
          exact List.cons_ne_nil _ _
      · exact fun _ => hasks
    | fault hprompt hfault =>
      exact ⟨fun p hp => (nomatch hp), hfault.imp_right fun hh => ⟨hh, .roll hprompt⟩,
        fun hne => absurd rfl hne⟩
    | @printed rest hprompt =>
      have hrest : AsksRoll stdin ↔ AsksRoll rest := by simp [asksRoll_iff hprompt]
      rw [hrest]
      -- a print on request does not count
      exact ⟨(ih rest).casts, (ih rest).ended, (ih rest).asked⟩
    | quit hprompt hroll hprint =>
      have hnot : ¬ AsksRoll stdin := by simp [asksRoll_iff hprompt, hroll, hprint]
      exact ⟨fun p hp => (nomatch hp), fun h => absurd h hnot, fun hne => absurd rfl hne⟩

/-! ## Fair games -/

/-- A fresh cup shows zeros. -/
theorem play_start (rand : Nat → Fin (2 ^ 31)) (fuel : Nat) (maxValue diceCount : Int32)
    (stdin : List UInt8) :
    ∃ cup, Showing maxValue diceCount.toInt.toNat cup
        (List.replicate diceCount.toInt.toNat 0) ∧
      play rand fuel available maxValue diceCount stdin = rollAgain rand fuel cup 0 stdin.tail := by
  by_cases hcount : 0 ≤ diceCount.toInt
  · have hfill := fillCup_ok (a := available) maxValue rfl rfl hcount fun _ _ => rfl
    have hdice : List.replicate diceCount.toInt.toNat (fresh maxValue) =
        (diceOf maxValue (List.replicate diceCount.toInt.toNat 0)).map some := by
      rw [diceOf, List.map_replicate, List.map_replicate]
    rw [hdice] at hfill
    refine ⟨⟨_, diceCount⟩, .of_array List.length_replicate rfl, ?_⟩
    rw [play, hfill]
    rfl
  · -- a negative count: calloc asks for nothing and the cup has no dice
    have hcalloc := callocDice_of_neg available (not_le.mp hcount)
    have hfill := fillCup_nothing maxValue rfl hcalloc (by omega)
    have hzero : diceCount.toInt.toNat = 0 := by omega
    refine ⟨⟨none, diceCount⟩, ?_, ?_⟩
    · rw [hzero]
      exact ⟨hzero, rfl, .inl rfl, fun d hd => nomatch hd⟩
    · rw [play, hfill]
      rfl

/-- What a game with all blocks there comes to. -/
theorem play_round (rand : Nat → Fin (2 ^ 31)) (fuel : Nat) (maxValue diceCount : Int32)
    (stdin : List UInt8) :
    Round maxValue diceCount.toInt.toNat (AsksRoll stdin.tail)
      (play rand fuel available maxValue diceCount stdin) := by
  obtain ⟨cup, hfilled, hplay⟩ := play_start rand fuel maxValue diceCount stdin
  rw [hplay]
  exact rollAgain_round rand fuel hfilled 0 stdin.tail

/-- Unless the roll is hopeless, what is printed of a settled cup is what it should show. -/
theorem Cast.shows {shown : Print} (h : Cast maxValue n shown) (hgood : ¬ Hopeless maxValue n) :
    Shows maxValue n shown := by
  obtain ⟨cup, ds, hfilled, hrolled, hsame, hvalues⟩ := h
  constructor
  · rw [hvalues, List.length_map, hfilled.length]
  · rw [hvalues]
    intro v hv
    obtain ⟨d, hd, rfl⟩ := List.mem_map.mp hv
    have hn : 0 < n := hfilled.length ▸ List.length_pos_of_mem hd
    -- a cup with a die in it was not hopeless, so its sides are positive
    have hpos : 0 < d.maxValue.toInt := by
      rw [hfilled.maxValue d hd]
      by_contra hle
      exact hgood ⟨by omega, hn⟩
    rw [← hfilled.maxValue d hd]
    exact ⟨(hrolled d hd).1, (hrolled d hd).2 hpos⟩
  · rw [hvalues]
    intro v hv w hw
    obtain ⟨d, hd, rfl⟩ := List.mem_map.mp hv
    obtain ⟨e, he, rfl⟩ := List.mem_map.mp hw
    exact hsame d hd e he

/-- No value from one on is at most a highest value that is not positive. -/
theorem Cast.not_shows {shown : Print} (h : Cast maxValue n shown) (hbad : Hopeless maxValue n) :
    ¬ Shows maxValue n shown := by
  obtain ⟨cup, ds, hfilled, hrolled, -, hvalues⟩ := h
  intro hshows
  obtain ⟨hmax, hn⟩ := hbad
  obtain ⟨d, hd⟩ := List.exists_mem_of_length_pos (hfilled.length.symm ▸ hn)
  have hrange := hshows.range d.currentValue (hvalues ▸ List.mem_map_of_mem hd)
  omega

/-- A game that is not hopeless is fair. -/
theorem Round.fair {game : Game} {asks : Prop} (h : Round maxValue diceCount.toInt.toNat asks game)
    (hgood : ¬ (Hopeless maxValue diceCount.toInt.toNat ∧ asks)) :
    Fair maxValue diceCount game := by
  constructor
  · intro p hp
    apply (h.casts p hp).shows
    intro hbad
    exact hgood ⟨hbad, h.asked (List.ne_nil_of_mem hp)⟩
  · intro halt hhalt
    have hended := h.ended
    rw [hhalt] at hended
    exact hended.resolve_right hgood

/-- A hopeless game that comes to an end is not fair. -/
theorem Round.not_fair {game : Game} {asks : Prop}
    (h : Round maxValue diceCount.toInt.toNat asks game) (hends : LoopEnds game)
    (hbad : Hopeless maxValue diceCount.toInt.toNat) (hasks : asks) :
    ¬ Fair maxValue diceCount game := by
  intro hfair
  -- a game that ends without a fault has printed the cup of its roll
  have hsome : fromRoll game.prints ≠ [] := by
    apply hends.elim
    · intro hne
      have hended := h.ended
      cases hcase : game.ended with
      | error halt =>
        rw [hcase] at hne
        exact absurd (hfair.faultless halt hcase) fun h' => hne (congrArg _ h')
      | ok outcome =>
        rw [hcase] at hended
        exact hended hasks
    · exact id
  obtain ⟨p, hp⟩ := List.exists_mem_of_ne_nil _ hsome
  exact (h.casts p hp).not_shows hbad (hfair.shows p hp)

/-- A game whose loop ends is fair exactly if no roll that cannot go right is asked for. -/
theorem Round.fair_iff {game : Game} {asks : Prop}
    (h : Round maxValue diceCount.toInt.toNat asks game) (hends : LoopEnds game) :
    Fair maxValue diceCount game ↔ diceCount.toInt ≤ 0 ∨ 0 < maxValue.toInt ∨ ¬ asks := by
  constructor
  · intro hfair
    by_contra hnot
    simp only [not_or, not_le, not_lt, not_not] at hnot
    obtain ⟨hcount, hmax, hasks⟩ := hnot
    exact h.not_fair hends ⟨hmax, by omega⟩ hasks hfair
  · intro hcond
    apply h.fair
    rintro ⟨⟨hmax, hcount⟩, hasks⟩
    rcases hcond with hle | hpos | hnot
    · omega
    · omega
    · exact hnot hasks

/-- A game whose loop ends is fair exactly if there are no dice, the highest value is
    positive, or no roll is asked for. -/
theorem play_fair_iff (rand : Nat → Fin (2 ^ 31)) (fuel : Nat) (maxValue diceCount : Int32)
    (stdin : List UInt8)
    (hends : LoopEnds (play rand fuel available maxValue diceCount stdin)) :
    Fair maxValue diceCount (play rand fuel available maxValue diceCount stdin) ↔
      diceCount.toInt ≤ 0 ∨ 0 < maxValue.toInt ∨ ¬ AsksRoll stdin.tail :=
  (play_round rand fuel maxValue diceCount stdin).fair_iff hends

/-- `main` plays with the two numbers it was told, neither of them zero. -/
theorem main_eq_play {fuel : Nat} {stdin' : List UInt8} (rand : Nat → Fin (2 ^ 31))
    (a : Allocations) (hmax : promptInt fuel 0 stdin = .ok (maxValue, rest))
    (hcount : promptInt fuel 0 rest = .ok (diceCount, stdin')) :
    maxValue ≠ 0 ∧ diceCount ≠ 0 ∧
      main rand fuel a stdin = play rand fuel a maxValue diceCount stdin' := by
  refine ⟨promptInt_ne_zero hmax, promptInt_ne_zero hcount, ?_⟩
  rw [main]
  simp only [hmax, hcount]

/-- The whole program: when both numbers have been read and the loop of the game ends, it is
    fair exactly if the number of dice is negative, the highest value is positive, or no roll is
    asked for. -/
theorem main_fair_iff {fuel : Nat} {stdin' : List UInt8} (rand : Nat → Fin (2 ^ 31))
    (hmax : promptInt fuel 0 stdin = .ok (maxValue, rest))
    (hcount : promptInt fuel 0 rest = .ok (diceCount, stdin'))
    (hends : LoopEnds (main rand fuel available stdin)) :
    Fair maxValue diceCount (main rand fuel available stdin) ↔
      diceCount.toInt < 0 ∨ 0 < maxValue.toInt ∨ ¬ AsksRoll stdin'.tail := by
  obtain ⟨-, hne, hmain⟩ := main_eq_play rand available hmax hcount
  rw [hmain] at hends ⊢
  rw [(play_round rand fuel maxValue diceCount stdin').fair_iff hends]
  -- the prompt takes no zero
  have hnonzero : diceCount.toInt ≠ 0 := fun h0 => hne (Int32.toInt_inj.mp h0)
  have hle : diceCount.toInt ≤ 0 ↔ diceCount.toInt < 0 := by omega
  rw [hle]

/-- Two dice of six: "r", then "e". -/
theorem play_fair_two_dice :
    Fair 6 2 (play (fun _ => 3) 3 available 6 2 [10, 114, 10, 101, 10]) :=
  (play_fair_iff (fun _ => 3) 3 6 2 [10, 114, 10, 101, 10] (.inl (by decide))).mpr
    (.inr (.inl (by decide)))

/-- A die with the highest value -6 shows 1, and one with the lowest `int` overflows when
    `rand` returns its greatest value. -/
theorem play_unfair :
    LoopEnds (play (fun _ => 0) 3 available (-6) 1 [10, 114, 10, 101, 10]) ∧
      ¬ Fair (-6) 1 (play (fun _ => 0) 3 available (-6) 1 [10, 114, 10, 101, 10]) ∧
      (play (fun _ => 2147483647) 3 available (-2147483648) 1 [10, 114, 10, 101, 10]).ended =
        .error .overflow := by
  refine ⟨.inl (by decide), ?_, by decide⟩
  intro hfair
  have hshows := hfair.shows { count := some 0, values := [1] } (by decide)
  exact absurd (hshows.range 1 (by decide)).2 (by decide)

end Yahtzee
