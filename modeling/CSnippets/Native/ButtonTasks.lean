import Mathlib.Logic.Function.Basic
import CSnippets.Native.Buttons

/-!
# Tasks that share the buttons (`embedded_button_checker/src/buttons.c`)

The functions of the button checker as tasks run them, one step at a time: every
read of `bt.lock`, every take and give, every round of a loop and every store is
a step, and other tasks may run in between. The tasks that `buttonInit` creates
run `buttonTask`, which calls `buttonInit` again.

A step that is not possible, such as taking a mutex another task holds, is
`none`. A step that ends the program records why in `stopped`.
-/

namespace Buttons.Tasks

open SentinelList

/-- Names of tasks. -/
abbrev TaskId := Nat
/-- Mutexes, in the order of their creation. -/
abbrev MutexId := Nat

/-- A call that searches the list. -/
inductive Search where
  | find (identifier : UInt8)
  | add (args : ButtonArgs)
  | delete (identifier : UInt8)
deriving Repr, DecidableEq

/-- The calls that a task makes. -/
inductive Call where
  | search (c : Search)
  | getPresses
deriving Repr, DecidableEq

/-- Where a task is between its take and its give. -/
inductive Body where
  /-- The loop of `buttonFind`, `buttonAdd` and `buttonDelete`. -/
  | search (c : Search) (iterator : Addr)
  /-- `iterator->next = calloc(…)` -/
  | insert (args : ButtonArgs) (iterator : Addr)
  /-- The stores to `iterator->poll`, `port_arg`, `pin_arg`, `identifier`. -/
  | fill (args : ButtonArgs) (iterator : Addr)
  /-- `bt.button_count++` -/
  | count
  /-- The two tests of `buttonDelete`. -/
  | pick (identifier : UInt8) (iterator : Addr)
  /-- `iterator->next = delete->next` -/
  | unlink (iterator delete : Addr)
  /-- `free(delete)` and `bt.button_count--` -/
  | release (delete : Addr)
  /-- `ret = calloc(…)` of `buttonGetPresses` -/
  | allocate
  /-- The loop of `buttonGetPresses`; `ret` is the string so far. -/
  | poll (ret : List UInt8) (iterator : Addr)
deriving Repr, DecidableEq

/-- What a task does once it has given the lock. `readNext` is the last line of
    `buttonFind`; `stop` records `iterator->next` at the end of its search. -/
inductive After where
  | readNext (identifier : UInt8) (iterator : Addr) (stop : Option Addr)
  | presses (ret : List UInt8)
  | done
  | exitFailure
deriving Repr, DecidableEq

/-- What a call returned; `stop` as in `After.readNext`. -/
inductive Value where
  | button (result stop : Option Addr)
  | presses (ret : List UInt8)
  | done
deriving Repr, DecidableEq

/-- Where a task is. `taken` is the mutex it took, if it found one to take. -/
inductive Pc where
  | absent
  | idle
  /-- `if (bt.lock)` before the take -/
  | test (c : Call)
  /-- reads `bt.lock` for `xSemaphoreTake` -/
  | readTake (c : Call)
  /-- blocks in `xSemaphoreTake(m, portMAX_DELAY)` -/
  | take (c : Call) (m : MutexId)
  | body (taken : Option MutexId) (b : Body)
  /-- `if (bt.lock)` before the give -/
  | exitTest (taken : Option MutexId)
  /-- reads `bt.lock` for `xSemaphoreGive` -/
  | readGive (taken : Option MutexId) (k : After)
  /-- `xSemaphoreGive(m)` -/
  | give (taken : Option MutexId) (m : MutexId) (k : After)
  | after (k : After)
  | returned (v : Value)
  /-- `buttonInit`: `xSemaphoreCreateMutex()` -/
  | initCreate
  /-- `bt.lock = m` -/
  | initAssign (m : MutexId)
  /-- `xTaskCreate(buttonTask, …)` -/
  | initSpawn
  /-- `while (1) {}` -/
  | spinning
deriving Repr, DecidableEq

/-- Why the program ends. -/
inductive Stop where
  | badMemory
  | nullPointer
  | notHolder
  | exitFailure
deriving Repr, DecidableEq

/-- The buttons, the lock and the tasks. -/
structure State where
  bt : Bt
  /-- `bt.lock` -/
  lock : Option MutexId
  holder : MutexId → Option TaskId
  /-- the mutexes created so far are those below -/
  mutexCount : MutexId
  tasks : TaskId → Pc
  stopped : Option Stop

/-- A task moves on. -/
def State.goto (s : State) (t : TaskId) (pc : Pc) : State :=
  { s with tasks := Function.update s.tasks t pc }

/-- The program stops. -/
def State.stop (s : State) (why : Stop) : State := { s with stopped := some why }

/-- What the surroundings decide in a step: the address `calloc` returns, the task
    `xTaskCreate` creates (`none` when they fail), the tick count and the result
    of a poll function. -/
structure Choice where
  newAddr : Option Addr
  newTask : Option TaskId
  ticks : UInt32
  polled : Int
deriving Repr, DecidableEq

/-- The loop condition on the identifier of `iterator->next`. -/
def Search.goesOn : Search → Button → Bool
  | .find identifier, b => b.identifier != identifier
  | .add _, _ => true
  | .delete identifier, b => b.identifier != identifier

/-- Where a call starts: `buttonAdd` and `buttonDelete` test `bt.lock` first. -/
def Call.entry : Call → Pc
  -- `buttonFind` and `buttonGetPresses` take the lock untested
  | .search (.find identifier) => .readTake (.search (.find identifier))
  | .search (.add args) => .test (.search (.add args))
  | .search (.delete identifier) => .test (.search (.delete identifier))
  | .getPresses => .readTake .getPresses

/-- The first step behind the take. -/
def Call.start : Call → Body
  | .search c => .search c headAddr
  | .getPresses => .allocate

/-- How a step between take and give ends. -/
inductive Outcome where
  | next (bt : Bt) (b : Body)
  | leave (bt : Bt) (k : After)
  | stop (why : Stop)

/-- The loop of a search ends in front of `stop`. -/
def Search.ended (c : Search) (bt : Bt) (iterator : Addr) (stop : Option Addr) : Outcome :=
  match c with
  | .find identifier => .leave bt (.readNext identifier iterator stop)
  | .add args => .next bt (.insert args iterator)
  | .delete identifier => .next bt (.pick identifier iterator)

/-- A store or a `free` through a pointer. -/
def stored (mem : Option (Memory Button)) (k : Memory Button → Outcome) : Outcome :=
  match mem with
  | none => .stop .badMemory
  | some mem => k mem

variable (debounceDelay : UInt32)

/-- One step between take and give; `none` when the choice is not possible. -/
def runBody (bt : Bt) (ch : Choice) : Body → Option Outcome
  | .search c iterator =>
    match nextOf bt.mem iterator with
    | none => some (.stop .badMemory)
    | some none => some (c.ended bt iterator none)
    | some (some b) =>
      match valOf bt.mem b with
      | none => some (.stop .badMemory)
      | some v =>
        if c.goesOn v then some (.next bt (.search c b))
        else some (c.ended bt iterator (some b))
  | .insert args iterator =>
    match ch.newAddr with
    -- `calloc` fails: null is stored, the lock given and the program exits
    | none => some (stored (setNext bt.mem iterator none) fun mem =>
        .leave { bt with mem := mem } .exitFailure)
    | some p =>
      match alloc bt.mem p Button.zero with
      | none => none
      | some mem => some (stored (setNext mem iterator (some p)) fun mem =>
          .next { bt with mem := mem } (.fill args iterator))
  | .fill args iterator =>
    some (stored (setVal bt.mem iterator fun b =>
      { b with poll := args.poll, portArg := args.portArg, pinArg := args.pinArg,
               identifier := args.identifier }) fun mem => .next { bt with mem := mem } .count)
  | .count => some (.leave { bt with buttonCount := bt.buttonCount + 1 } .done)
  | .pick identifier iterator =>
    match nextOf bt.mem iterator with
    | none => some (.stop .badMemory)
    | some none => some (.leave bt .done)
    | some (some d) =>
      match valOf bt.mem d with
      | none => some (.stop .badMemory)
      | some v =>
        if v.identifier == identifier then some (.next bt (.unlink iterator d))
        else some (.leave bt .done)
  | .unlink iterator d =>
    -- the source stores `delete->next` whether it is null or not
    match nextOf bt.mem d with
    | none => some (.stop .badMemory)
    | some next => some (stored (setNext bt.mem iterator next) fun mem =>
        .next { bt with mem := mem } (.release d))
  | .release d =>
    some (stored (free bt.mem d) fun mem =>
      .leave { mem := mem, buttonCount := bt.buttonCount - 1 } .done)
  | .allocate =>
    match ch.newAddr with
    -- this exit keeps the lock
    | none => some (.stop .exitFailure)
    | some _ => some (.next bt (.poll [] headAddr))
  | .poll ret iterator =>
    match nextOf bt.mem iterator with
    | none => some (.stop .badMemory)
    | some none => some (.leave bt (.presses ret))
    | some (some b) =>
      match valOf bt.mem b, valOf bt.mem iterator with
      | some v, some w =>
        match checkButton debounceDelay ch.ticks ch.polled v with
        | none => some (.stop .nullPointer)
        | some (result, v') =>
          -- `strncat(ret, result ? &iterator->identifier : "", 1)`
          let ret := if result ≠ 0 ∧ w.identifier ≠ 0 then ret ++ [w.identifier] else ret
          some (stored (setVal bt.mem b fun _ => v') fun mem =>
            .next { bt with mem := mem } (.poll ret b))
      | _, _ => some (.stop .badMemory)

/-- The last lines of a call, behind the give. -/
def runAfter (bt : Bt) : After → Except Stop Value
  | .readNext _ iterator stop =>
    -- the list may have changed since the give
    match nextOf bt.mem iterator with
    | none => .error .badMemory
    | some result => .ok (.button result stop)
  | .presses ret => .ok (.presses ret)
  | .done => .ok .done
  | .exitFailure => .error .exitFailure

/-- One step of the task `t`. -/
def runTask (s : State) (t : TaskId) (ch : Choice) : Option State :=
  match s.tasks t with
  | .absent => none
  | .idle => none
  | .test c =>
    if s.lock.isSome then some (s.goto t (.readTake c)) else some (s.goto t (.body none c.start))
  -- taking a null handle is a null pointer that is followed
  | .readTake c =>
    match s.lock with
    | none => some (s.stop .nullPointer)
    | some m => some (s.goto t (.take c m))
  | .take c m =>
    if s.holder m = none then
      some { s.goto t (.body (some m) c.start) with holder := Function.update s.holder m (some t) }
    else none
  | .body taken b =>
    match runBody debounceDelay s.bt ch b with
    | none => none
    | some (.next bt b') => some { s.goto t (.body taken b') with bt := bt }
    | some (.leave bt .done) => some { s.goto t (.exitTest taken) with bt := bt }
    | some (.leave bt k) => some { s.goto t (.readGive taken k) with bt := bt }
    | some (.stop why) => some (s.stop why)
  -- the lock may be another one by now, or the first one
  | .exitTest taken =>
    if s.lock.isSome then some (s.goto t (.readGive taken .done)) else some (s.goto t (.after .done))
  | .readGive taken k =>
    match s.lock with
    | none => some (s.stop .nullPointer)
    | some m => some (s.goto t (.give taken m k))
  | .give _ m k =>
    -- giving a free mutex fails without effect, another task's is an assertion
    if s.holder m = some t then
      some { s.goto t (.after k) with holder := Function.update s.holder m none }
    else if s.holder m = none then some (s.goto t (.after k))
    else some (s.stop .notHolder)
  | .after k =>
    match runAfter s.bt k with
    | .ok v => some (s.goto t (.returned v))
    | .error why => some (s.stop why)
  | .returned _ => none
  -- `buttonInit` creates a mutex each time it is called
  | .initCreate =>
    some { s.goto t (.initAssign s.mutexCount) with
      holder := Function.update s.holder s.mutexCount none, mutexCount := s.mutexCount + 1 }
  | .initAssign m => some { s.goto t .initSpawn with lock := some m }
  | .initSpawn =>
    match ch.newTask with
    | none => some (s.stop .exitFailure)
    | some u =>
      match s.tasks u with
      | .absent => some ((s.goto t .spinning).goto u .initCreate)
      | _ => none
  | .spinning => none

/-- A task makes a call, or takes a step. -/
inductive Event where
  | call (t : TaskId) (c : Call)
  | run (t : TaskId) (ch : Choice)
deriving Repr, DecidableEq

/-- A task calls a function or takes its next step. -/
def step (s : State) (e : Event) : Option State :=
  match s.stopped with
  | some _ => none
  | none =>
    match e with
    | .call t c =>
      match s.tasks t with
      | .idle => some (s.goto t c.entry)
      | .returned _ => some (s.goto t c.entry)
      | _ => none
    | .run t ch => runTask debounceDelay s t ch

end Buttons.Tasks
