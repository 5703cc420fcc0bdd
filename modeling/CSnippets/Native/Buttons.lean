import CSnippets.ForStd.CMemory
import CSnippets.ForStd.SentinelList

/-!
# Button checker (`embedded_button_checker/src/buttons.c`)

The registered buttons hang off the sentinel `bt.head`. This module has the
functions as one task runs them on its own, when taking and giving `bt.lock`
changes nothing; `CSnippets.Native.ButtonTasks` has the tasks and the lock.
A poll function is named by a number, `none` is `NULL`.
-/

namespace Buttons

open SentinelList

/-- `button_t` without its `next` -/
structure Button where
  identifier : UInt8
  state : Bool
  previousPressTime : UInt32
  poll : Option Nat
  portArg : Int
  pinArg : Int
deriving Repr, DecidableEq

/-- A zeroed `button_t`, as `calloc` returns it. -/
def Button.zero : Button :=
  { identifier := 0, state := false, previousPressTime := 0, poll := none, portArg := 0,
    pinArg := 0 }

/-- The arguments of `buttonAdd`; `identifier` as the `unsigned char` it is stored in. -/
structure ButtonArgs where
  identifier : UInt8
  poll : Option Nat
  portArg : Int
  pinArg : Int
deriving Repr, DecidableEq

/-- `struct buttons` without its lock; the sentinel is the object at `headAddr`. -/
structure Bt where
  mem : Memory Button
  buttonCount : UInt32

/-- `&bt.head` -/
def headAddr : Addr := 0

/-- `bt = { 0 }` -/
def Bt.zero : Bt :=
  { mem := (∅ : Memory Button).insert headAddr ⟨Button.zero, none⟩, buttonCount := 0 }

/-- `checkButton` with the tick count and the result of the poll function, and the
    button afterwards; `none` when a null poll function is called. The source
    leaves the macro `DEBOUNCE_DELAY` empty; its value is a parameter here. -/
def checkButton (debounceDelay ticks : UInt32) (polled : Int) (but : Button) :
    Option (Int × Button) :=
  -- the difference is unsigned; `previous_press_time` is never written
  if ticks - but.previousPressTime > debounceDelay then
    match but.poll with
    | none => none
    | some _ =>
      -- a `bool` is compared as 0 or 1
      if polled ≠ (if but.state then 1 else 0) then
        if but.state then some (0, { but with state := false })
        else some (1, { but with state := true })
      else some (-1, but)
  else some (-1, but)

/-- `buttonFind` -/
def buttonFind (bt : Bt) (identifier : UInt8) : Option (Option Addr) := do
  let iterator ←
    -- it stops in front of the button, or at the last node
    seek bt.mem (fun b => b.identifier != identifier) bt.mem.keys.card headAddr
  nextOf bt.mem iterator

/-- `buttonAdd`; `p` is the address `calloc` returns. The arguments are stored in
    `iterator`, the node in front of the new one. -/
def buttonAdd (bt : Bt) (p : Addr) (args : ButtonArgs) : Option Bt := do
  let iterator ← seek bt.mem (fun _ => true) bt.mem.keys.card headAddr
  let mem ← alloc bt.mem p Button.zero
  let mem ← setNext mem iterator (some p)
  let mem ← setVal mem iterator fun b =>
    { b with poll := args.poll, portArg := args.portArg, pinArg := args.pinArg,
             identifier := args.identifier }
  return { mem := mem, buttonCount := bt.buttonCount + 1 }

/-- `buttonDelete` -/
def buttonDelete (bt : Bt) (identifier : UInt8) : Option Bt := do
  let iterator ←
    seek bt.mem (fun b => b.identifier != identifier) bt.mem.keys.card headAddr
  match ← nextOf bt.mem iterator with
  | none => return bt
  | some delete => do
    let b ← valOf bt.mem delete
    -- the loop has compared the same two already
    if b.identifier == identifier then do
      let next ← nextOf bt.mem delete
      -- both branches of the source's test store `delete->next`
      let mem ←
        if next.isNone then setNext bt.mem iterator none else setNext bt.mem iterator next
      let mem ← free mem delete
      return { mem := mem, buttonCount := bt.buttonCount - 1 }
    else return bt

/-! ## The presses -/

/-- Why `buttonGetPresses` does not return; `outOfBounds` is a byte written outside the
    block that `ret` points to. -/
inductive Halt where
  | badMemory
  | outOfBounds
  | nullPointer
  | exitFailure
deriving Repr, DecidableEq

/-- What a button meets when it is polled: the tick count and the result of its poll
    function. -/
structure Reading where
  ticks : UInt32
  polled : Int
deriving Repr, DecidableEq

/-- What is read at an address, if it is there. -/
def access {α : Type} (why : Halt) : Option α → Except Halt α
  | none => .error why
  | some x => .ok x

/-- The loop of `buttonGetPresses`; a button reads what `readings` gives for its
    address. -/
def pressesLoop (debounceDelay : UInt32) (readings : Addr → Reading) :
    Nat → Memory Button → Addr → List UInt8 → Except Halt (List UInt8 × Memory Button)
  | 0, _, _, _ => .error .badMemory
  | fuel + 1, mem, iterator, ret => do
    let next ← access .badMemory (nextOf mem iterator)
    match next with
    | none => return (ret, mem)
    | some b => do
      let v ← access .badMemory (valOf mem b)
      let (result, v) ← access .nullPointer
        (checkButton debounceDelay (readings b).ticks (readings b).polled v)
      let mem ← access .badMemory (setVal mem b fun _ => v)
      let w ← access .badMemory (valOf mem iterator)
      -- the button polled is `iterator->next`, the identifier that of `iterator`
      let src := if result ≠ 0 then [w.identifier] else [0]
      let ret ← access .outOfBounds (CMemory.strncat ret src 1)
      pressesLoop debounceDelay readings fuel mem b ret

/-- `buttonGetPresses`; `avail` says whether `calloc` has the memory. -/
def buttonGetPresses (debounceDelay : UInt32) (avail : Bool) (readings : Addr → Reading)
    (bt : Bt) : Except Halt (List UInt8 × Bt) := do
  -- a byte for each button, and none for the terminator
  let ret ← access .exitFailure (CMemory.calloc avail bt.buttonCount.toUInt64 1)
  let (ret, mem) ← pressesLoop debounceDelay readings bt.mem.keys.card bt.mem headAddr ret
  return (ret, { bt with mem := mem })

end Buttons
