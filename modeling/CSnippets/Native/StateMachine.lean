import CSnippets.ForStd.CMemory
import CSnippets.ForStd.SentinelList

/-!
# State machine (`state_machine/src/sm.c`)

The registered states hang off the sentinel `sm.head`; all `system_state_t`
objects, the sentinel included, live in one memory. A callback or a data pointer
is named by a number, `none` is `NULL`.

The list functions are in `Option`: `none` when they touch freed memory. The
handler task is in `Except Halt`, which also says why it stops.
-/

namespace StateMachine

open SentinelList

/-- A pointer to a function, or null. -/
abbrev Callback := Option Nat
/-- A pointer to data, or null. -/
abbrev VoidPtr := Option Nat

/-- `system_state_t` without its `next`; `_initialized` is never used. -/
structure SystemState where
  ID : UInt32
  data : VoidPtr
  init : Callback
  enter : Callback
  run : Callback
  exit : Callback
deriving Repr, DecidableEq

/-- A zeroed `system_state_t`, as `calloc` returns it. -/
def SystemState.zero : SystemState :=
  { ID := 0, data := none, init := none, enter := none, run := none, exit := none }

/-- `struct state_machine`; the sentinel `head` is the object at `headAddr`. -/
structure Sm where
  mem : Memory SystemState
  stateCount : UInt32
  current : Option Addr
  next : Option Addr
  initialized : Bool

/-- `&sm.head` -/
def headAddr : Addr := 0

/-- `sm = { 0 }` -/
def Sm.zero : Sm :=
  { mem := (∅ : Memory SystemState).insert headAddr ⟨SystemState.zero, none⟩,
    stateCount := 0, current := none, next := none, initialized := false }

/-! ## The list of states -/

/-- The arguments of `addState`. -/
structure StateArgs where
  init : Callback
  enter : Callback
  run : Callback
  exit : Callback
  data : VoidPtr
deriving Repr, DecidableEq

/-- `addState`; `p` is the address `calloc` returns. The new ID is stored in
    `iterator`, the node in front of the new one. -/
def addState (sm : Sm) (p : Addr) (args : StateArgs) : Option (UInt32 × Sm) := do
  -- the loop walks to the last node
  let iterator ← seek sm.mem (fun _ => true) sm.mem.keys.card headAddr
  let mem ← alloc sm.mem p SystemState.zero
  let mem ← setNext mem iterator (some p)
  let mem ← setVal mem p fun s =>
    { s with init := args.init, enter := args.enter, run := args.run, exit := args.exit,
             data := args.data }
  -- IDs are given from 1 on, and wrap
  let stateCount := sm.stateCount + 1
  let mem ← setVal mem iterator fun s => { s with ID := stateCount }
  return (stateCount, { sm with mem := mem, stateCount := stateCount })

/-- `findState` -/
def findState (sm : Sm) (ID : UInt32) : Option (Option Addr) := do
  -- it stops in front of the node that has the ID, or at the last one
  let iterator ← seek sm.mem (fun s => s.ID != ID) sm.mem.keys.card headAddr
  nextOf sm.mem iterator

/-- `deleteState` -/
def deleteState (sm : Sm) (ID : UInt32) : Option Sm := do
  let iterator ← seek sm.mem (fun s => s.ID != ID) sm.mem.keys.card headAddr
  match ← nextOf sm.mem iterator with
  | none => return sm
  | some delete => do
    let s ← valOf sm.mem delete
    -- the source tests the ID for truth, not against its argument
    if s.ID != 0 then do
      let next ← nextOf sm.mem delete
      -- both branches of the source's test store `delete->next`
      let mem ←
        if next.isNone then setNext sm.mem iterator none else setNext sm.mem iterator next
      let mem ← free mem delete
      return { sm with mem := mem }
    else return sm

/-! ## The handler task -/

/-- Which of a state's callbacks is called. -/
inductive Kind where
  | enter
  | run
  | exit
deriving Repr, DecidableEq

/-- A call of the `kind` callback of the state at `state`: `fn(data)`. -/
structure Call where
  kind : Kind
  state : Addr
  fn : Nat
  data : VoidPtr
deriving Repr, DecidableEq

/-- Why the handler task stops. -/
inductive Halt where
  | nullPointer
  | badMemory
  | exitFailure
deriving Repr, DecidableEq

/-- Follow a state pointer to the state. -/
def deref (sm : Sm) : Option Addr → Except Halt (Addr × SystemState)
  | none => .error .nullPointer
  | some a =>
    match valOf sm.mem a with
    | none => .error .badMemory
    | some s => .ok (a, s)

/-- Call `fn`, if there is one, with the data of the state `s` at `a`. -/
def callback (kind : Kind) (a : Addr) (s : SystemState) (fn : Callback) : List Call :=
  match fn with
  | none => []
  | some f => [⟨kind, a, f, s.data⟩]

/-- A call `init(data)` of the state at `state`. -/
structure InitCall where
  state : Addr
  fn : Nat
  data : VoidPtr
deriving Repr, DecidableEq

/-- Call the `init` of the state `s` at `a`, if there is one. -/
def initCallback (a : Addr) (s : SystemState) : List InitCall :=
  match s.init with
  | none => []
  | some f => [⟨a, f, s.data⟩]

/-- The loop of `smInit`: it tests `iterator->next` and acts on `iterator`. -/
def initLoop (mem : Memory SystemState) : Nat → Addr → Except Halt (List InitCall)
  | 0, _ => .error .badMemory
  | fuel + 1, iterator =>
    match nextOf mem iterator with
    | none => .error .badMemory
    | some none => .ok []
    | some (some next) =>
      match valOf mem iterator with
      | none => .error .badMemory
      | some s => do
        let calls ← initLoop mem fuel next
        return initCallback iterator s ++ calls

/-- `smInit`; the flag says whether `xQueueCreate` succeeds. -/
def smInit (queueCreated : Bool) (sm : Sm) : Except Halt (List InitCall) :=
  if queueCreated then initLoop sm.mem sm.mem.keys.card headAddr else .error .exitFailure

/-- `sizeof(unsigned int)`, the item size of the queue that `smInit` creates. -/
def stateQueueItemSize : Nat := 4

/-- The bytes of an item of the queue, lowest first. -/
def itemBytes (ID : UInt32) : List UInt8 :=
  [ID.toUInt8, (ID >>> 8).toUInt8, (ID >>> 16).toUInt8, (ID >>> 24).toUInt8]

/-- `xQueueReceive` copies a whole item to the memory that starts at `dst`. -/
def xQueueReceive (item : UInt32) (dst : List UInt8) : Option (List UInt8) :=
  CMemory.memcpyTo dst 0 (itemBytes item) stateQueueItemSize

/-- What `statesHandlerTask` passes to `findState` when it receives `item`; `memory`
    are the bytes it may write from `&state_in` on. -/
def receivedState (item : UInt32) (memory : List UInt8) : Option UInt32 := do
  let memory ← xQueueReceive item memory
  let stateIn ← memory.head?
  return stateIn.toUInt32

/-- One iteration of the loop of `statesHandlerTask`; `msg` is the item received
    from the queue, if any. The item is copied into a variable of type
    `unsigned char`, which then holds its low byte. -/
def taskIteration (sm : Sm) (msg : Option UInt32) : Except Halt (List Call × Sm) := do
  let sm ←
    match msg with
    -- the queue is empty, and `xQueueReceive` does not wait
    | none => pure sm
    | some item =>
      let stateIn : UInt8 := item.toUInt8
      match findState sm stateIn.toUInt32 with
      | none => throw .badMemory
      | some p => pure { sm with next := p }
  let (switch, sm) ←
    -- the pointers are compared, and only then followed
    if sm.current ≠ sm.next then do
      let (a, cur) ← deref sm sm.current
      let (b, nxt) ← deref sm sm.next
      pure (callback .exit a cur cur.exit ++ callback .enter b nxt nxt.enter,
        { sm with current := sm.next })
    else pure ([], sm)
  -- the state that is current by now runs
  let (c, cur) ← deref sm sm.current
  return (switch ++ callback .run c cur cur.run, sm)

/-- The loop of `statesHandlerTask` for as many iterations as `msgs` has entries. -/
def taskLoop : Sm → List (Option UInt32) → Except Halt (List Call × Sm)
  | sm, [] => .ok ([], sm)
  | sm, msg :: msgs => do
    let (calls, sm) ← taskIteration sm msg
    let (calls', sm) ← taskLoop sm msgs
    return (calls ++ calls', sm)

/-- The start of `statesHandlerTask`, before its loop. The inner condition is
    `!smInit && !(sm.current = sm.next = sm.head.next)`, where `smInit` is a
    function's address and never null. -/
def taskStart (sm : Sm) : Except Halt Sm := do
  let first := !sm.initialized
  let sm := { sm with initialized := !sm.initialized }  -- `++` on a one-bit field
  let smInit := true
  if first then
    if !smInit then do
      -- reached only if `smInit` were null: the assignment and its test
      match nextOf sm.mem headAddr with
      | none => throw .badMemory
      | some none => throw .exitFailure
      | some (some a) => pure { sm with current := some a, next := some a }
    else pure sm
  else pure sm

/-- `statesHandlerTask` with the items its queue delivers. -/
def statesHandlerTask (sm : Sm) (msgs : List (Option UInt32)) :
    Except Halt (List Call × Sm) := do
  let sm ← taskStart sm
  taskLoop sm msgs

end StateMachine
