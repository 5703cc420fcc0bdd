import CSnippets.ForStd.CMemory
import CSnippets.ForStd.Scanf

/-!
# Yahtzee

`yahtzee`: `main` asks for the highest value of a die and for the number of dice, fills a
cup with them, and rolls it until all dice show the same value. `rand` is a stream of its
results, and the allocator says of each block that the program asks for whether it is
there. The prompts and messages that are printed are left out, but for the cups.
-/

namespace Yahtzee

/-- Why a call has no result. -/
inductive Halt where
  /-- the loop does not end within the number of rounds given -/
  | endless
  /-- a number that an `int` cannot hold -/
  | overflow
  | divideByZero
  | nullPointer
  | outOfBounds
deriving Repr, DecidableEq

/-- `struct die` -/
structure Die where
  maxValue : Int32
  currentValue : Int32
deriving Repr, DecidableEq

/-- `struct cup`: the array, unless it is `NULL`, of pointers to dice. -/
structure Cup where
  dice : Option (List (Option Die))
  diceCount : Int32
deriving Repr, DecidableEq

/-- Which of the blocks asked for the allocator has: the cup, the array, and each die. -/
structure Allocations where
  cup : Bool
  dice : Bool
  die : Nat → Bool

/-- `cup->dice[i]` -/
def Cup.die (cup : Cup) (i : Nat) : Except Halt Die :=
  match cup.dice with
  | none => .error .nullPointer
  | some dice =>
    match dice[i]? with
    | none => .error .outOfBounds
    | some none => .error .nullPointer
    | some (some d) => .ok d

/-- `cup->dice[i] = d` -/
def Cup.setDie (cup : Cup) (i : Nat) (d : Option Die) : Except Halt Cup :=
  match cup.dice with
  | none => .error .nullPointer
  | some dice =>
    if i < dice.length then .ok { cup with dice := some (dice.set i d) } else .error .outOfBounds

/-- How often `for (int i = 0; i < cup->dice_count; i++)` goes round -/
def Cup.rounds (cup : Cup) : Nat := cup.diceCount.toInt.toNat

/-- Whether an `int` holds the number. -/
def fits (v : Int) : Prop := -2 ^ 31 ≤ v ∧ v < 2 ^ 31

instance (v : Int) : Decidable (fits v) := inferInstanceAs (Decidable (_ ∧ _))

/-- `calloc(dice_count, sizeof(struct cup *))`: a negative count becomes a huge size. -/
def callocDice (a : Allocations) (diceCount : Int32) : Option (List (Option Die)) :=
  (CMemory.calloc a.dice diceCount.toInt64.toUInt64 8).map fun _ =>
    List.replicate diceCount.toInt.toNat none

/-- `createCup` -/
def createCup (a : Allocations) (diceCount : Int32) : Option Cup :=
  if a.cup then some { dice := callocDice a diceCount, diceCount := diceCount } else none

/-- The loop of `fill_cup` from the `i`-th die on: what is returned and the cup -/
def fillFrom (a : Allocations) (maxValue : Int32) : Nat → Nat → Cup → Except Halt (Int × Cup)
  | 0, _, cup => .ok (0, cup)
  | rounds + 1, i, cup => do
    if a.die i then
      let cup ← cup.setDie i (some { maxValue := maxValue, currentValue := 0 })
      fillFrom a maxValue rounds (i + 1) cup
    else
      -- `calloc` fails: the null pointer is stored all the same
      let cup ← cup.setDie i none
      return (-1, cup)

/-- `fillCup` -/
def fillCup (a : Allocations) (cupToFill : Option Cup) (maxValue : Int32) :
    Except Halt (Int × Option Cup) :=
  match cupToFill with
  | none => .ok (-1, none)
  | some cup => do
    let (ret, cup) ← fillFrom a maxValue cup.rounds 0 cup
    return (ret, some cup)

/-- `r` is what `rand` returns -/
def rollDie (r : Fin (2 ^ 31)) (curDie : Die) : Except Halt Die :=
  if curDie.maxValue = 0 then .error .divideByZero
  else
    -- `%` takes the sign of `rand()`, also when `max_value` is negative
    let v := (r.val : Int).tmod curDie.maxValue.toInt + 1
    if fits v then .ok { curDie with currentValue := Int32.ofInt v } else .error .overflow

variable (rand : Nat → Fin (2 ^ 31))

/-- The loop of `roll_cup` from the `i`-th die on, after `pos` calls of `rand` -/
def rollFrom : Nat → Nat → Cup → Nat → Except Halt (Cup × Nat)
  | 0, _, cup, pos => .ok (cup, pos)
  | rounds + 1, i, cup, pos => do
    let d ← cup.die i
    let d ← rollDie (rand pos) d
    let cup ← cup.setDie i (some d)
    rollFrom rounds (i + 1) cup (pos + 1)

/-- `rollCup` -/
def rollCup (currentCup : Cup) (pos : Nat) : Except Halt (Cup × Nat) :=
  rollFrom rand currentCup.rounds 0 currentCup pos

/-- The loop of `check_cup` from the `i`-th die on -/
def checkFrom (myCup : Cup) : Nat → Nat → Except Halt Bool
  | 0, _ => .ok true
  | rounds + 1, i => do
    let d ← myCup.die i
    -- each die is compared with the one before it
    let e ← myCup.die (i - 1)
    if d.currentValue ≠ e.currentValue then return false
    else checkFrom myCup rounds (i + 1)

/-- The loop starts with the second die. -/
def checkCup (myCup : Cup) : Except Halt Bool := checkFrom myCup (myCup.rounds - 1) 1

/-- What `print_cup` prints: the count, if there is one, and the values of the dice -/
structure Print where
  count : Option UInt32
  values : List Int32
deriving Repr, DecidableEq

/-- The loop of `print_cup` from the `i`-th die on -/
def valuesFrom (currentCup : Cup) : Nat → Nat → Except Halt (List Int32)
  | 0, _ => .ok []
  | rounds + 1, i => do
    let d ← currentCup.die i
    let values ← valuesFrom currentCup rounds (i + 1)
    return d.currentValue :: values

/-- `printCup` -/
def printCup (currentCup : Cup) (count : Option UInt32) : Except Halt Print := do
  let values ← valuesFrom currentCup currentCup.rounds 0
  return { count := count, values := values }

/-- `while(!check_cup(my_cup))`, with `fuel` for its rounds -/
def reroll : Nat → Cup → Nat → UInt32 → Except Halt (Cup × Nat × UInt32)
  | 0, _, _, _ => .error .endless
  | fuel + 1, myCup, pos, rollCount => do
    -- the cup has been rolled once before the loop
    if ← checkCup myCup then return (myCup, pos, rollCount)
    else
      let (myCup, pos) ← rollCup rand myCup pos
      reroll fuel myCup pos (rollCount + 1)

/-- What `prompt_cont_print` returns; `invalid` is its zero. -/
inductive Command where
  | roll
  | print
  | exit
  | invalid
deriving Repr, DecidableEq

/-- `while ((input = getchar()) != '\n' && input != EOF)`: the byte 255 looks like `EOF` in a
    `char`. -/
def skipLine : List UInt8 → List UInt8
  | [] => []
  | b :: stdin => if b = 10 ∨ b = 255 then stdin else skipLine stdin

/-- `prompt_cont_print` with so many tries left, until `error_count` is 3 -/
def promptFrom : Nat → List UInt8 → Command × List UInt8
  | 0, stdin => (.invalid, stdin)
  | tries + 1, stdin =>
    -- one `getchar` for the letter, one for what follows it
    let input := stdin.head?
    let stdin := stdin.tail
    if input = some 114 ∨ input = some 82 then (.roll, stdin.tail)
    else if input = some 112 ∨ input = some 80 then (.print, stdin.tail)
    else if input = some 101 ∨ input = some 69 then (.exit, stdin.tail)
    -- an empty line is an error like any other
    else if input = some 10 then promptFrom tries stdin
    else promptFrom tries (skipLine stdin)

/-- `promptContPrint`, with the three lines that it allows. -/
def promptContPrint (stdin : List UInt8) : Command × List UInt8 := promptFrom 3 stdin

/-- What the `int` holds after `scanf("%d")`. -/
def stored (value : Int32) : Option Int → Except Halt Int32
  | none => .ok value
  | some v => if fits v then .ok (Int32.ofInt v) else .error .overflow

/-- `prompt_int`, with `fuel` for its tries: the value and what is left of the input -/
def promptInt : Nat → Int32 → List UInt8 → Except Halt (Int32 × List UInt8)
  | 0, _, _ => .error .endless
  | fuel + 1, value, stdin => do
    let (scanned, stdin) := Scanf.scanInt stdin
    let value ← stored value scanned
    -- 0 stands for an error, also when it was typed
    if value = 0 then promptInt fuel value stdin else return (value, stdin)

/-- How the program ends. -/
inductive Outcome where
  /-- `exit(EXIT_SUCCESS)` -/
  | success
  /-- `exit(EXIT_FAILURE)` -/
  | failure
deriving Repr, DecidableEq

/-- What is printed of the cup, and how the program ends. -/
structure Game where
  prints : List Print
  ended : Except Halt Outcome
deriving DecidableEq

/-- The game that begins with a print. -/
def Game.after (game : Game) (shown : Print) : Game := { game with prints := shown :: game.prints }

/-- The branch of `ROLL` -/
def roll (fuel : Nat) (myCup : Cup) (pos : Nat) : Except Halt (Cup × Nat × Print) := do
  let (myCup, pos) ← rollCup rand myCup pos
  let (myCup, pos, rollCount) ← reroll rand fuel myCup pos 0
  let shown ← printCup myCup (some rollCount)
  return (myCup, pos, shown)

/-- `main` from `roll_again` on -/
def rollAgain : Nat → Cup → Nat → List UInt8 → Game
  | 0, _, _, _ => { prints := [], ended := .error .endless }
  | fuel + 1, myCup, pos, stdin =>
    let (ret, stdin) := promptContPrint stdin
    match ret with
    | .roll =>
      match roll rand fuel myCup pos with
      | .error halt => { prints := [], ended := .error halt }
      | .ok (myCup, pos, shown) => (rollAgain fuel myCup pos stdin).after shown
    | .print =>
      match printCup myCup none with
      | .error halt => { prints := [], ended := .error halt }
      | .ok shown => (rollAgain fuel myCup pos stdin).after shown
    | .exit => { prints := [], ended := .ok .success }
    -- after three invalid lines
    | .invalid => { prints := [], ended := .ok .failure }

/-- `main` behind the two prompts -/
def play (fuel : Nat) (a : Allocations) (maxValue diceCount : Int32) (stdin : List UInt8) : Game :=
  match fillCup a (createCup a diceCount) maxValue with
  | .error halt => { prints := [], ended := .error halt }
  | .ok (ret, myCup) =>
    -- also for a cup that could not be allocated
    if ret ≠ 0 then { prints := [], ended := .ok .failure }
    else
      match myCup with
      | none => { prints := [], ended := .error .nullPointer }
      | some myCup => rollAgain rand fuel myCup 0 stdin.tail

/-- `main` -/
def main (fuel : Nat) (a : Allocations) (stdin : List UInt8) : Game :=
  match promptInt fuel 0 stdin with
  | .error halt => { prints := [], ended := .error halt }
  | .ok (maxValue, stdin) =>
    match promptInt fuel 0 stdin with
    | .error halt => { prints := [], ended := .error halt }
    | .ok (diceCount, stdin) => play rand fuel a maxValue diceCount stdin

end Yahtzee
