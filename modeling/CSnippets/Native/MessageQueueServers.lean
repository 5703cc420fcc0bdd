import Mathlib.Logic.Function.Basic
import CSnippets.ForStd.SentinelList

/-!
# Opening and closing message queues

`openMessageQueue` and `closeMsgQueues` of `async_posix_message_queues` (signal) and
`async_posix_message_queues_SIGEV_THREAD` (thread). The open queues hang off the static
`head`. What the library and the kernel answer is an argument, the `Outcome` of the call.

Of POSIX: `mq_open` with `O_CREAT` opens the queue that has the name, or a new one; a queue
has at most one registration; `mq_unlink` removes the name if there is one, and `mq_close`
also what the process has registered.
-/

namespace MqServers

open SentinelList

/-- The bytes of a name. -/
abbrev Name := List UInt8
/-- Queues, whatever their names are. -/
abbrev QueueId := Nat

/-- The server with signals and the one with threads. -/
inductive Server where
  | signal
  | thread
deriving Repr, DecidableEq

/-- `mq_info_t` without its `next`. The signal server has no `callback`, `args` and `buffer`;
    `ev` is the pointer in `ev.sigev_value` once `ev` has been filled in. -/
structure MqInfo where
  fd : Int
  callback : Nat
  args : Option Nat
  name : Name
  buffer : List UInt8
  ev : Option Addr
deriving Repr, DecidableEq

/-- What `calloc` returns. -/
def MqInfo.zero : MqInfo :=
  { fd := 0, callback := 0, args := none, name := [], buffer := [], ev := none }

/-- `&head` -/
def headAddr : Addr := 0

/-- `MAX_SIZE` of the thread server -/
def maxSize : Nat := 1024

/-- `SIGINT` -/
def sigint : Int := 2

/-- Memory, and what the kernel knows: the queue that has a name, the queue behind a
    descriptor, and the pointer in the registration of the process for a queue. -/
structure State where
  mem : Memory MqInfo
  names : Name → Option QueueId
  fds : Int → Option QueueId
  registered : QueueId → Option Addr

/-- Why a call does not return. -/
inductive Halt where
  | badMemory
  | nullPointer
  | endless
  /-- `exit(-1)` -/
  | exited
  /-- a failed `assert` -/
  | aborted
deriving Repr, DecidableEq

/-- What is read at an address, if it is allocated. -/
def access {α : Type} : Option α → Except Halt α
  | none => .error .badMemory
  | some x => .ok x

/-! ## The kernel -/

/-- `mq_open` returned `fd`; `new` is the queue that it creates where the name is not taken. -/
def mqOpen (s : State) (name : Name) (fd : Int) (new : QueueId) : State :=
  if fd = -1 then s
  else
    let q := (s.names name).getD new
    { s with
      names := Function.update s.names name (some q)
      fds := Function.update s.fds fd (some q) }

/-- `mq_notify`, `none` when it fails; `ok` says whether the kernel has the means. -/
def mqNotify (s : State) (fd : Int) (ev : Addr) (ok : Bool) : Option State :=
  match s.fds fd with
  | none => none
  | some q =>
    -- `EBADF`, `EBUSY` or no memory
    if fd ≠ -1 ∧ s.registered q = none ∧ ok = true then
      some { s with registered := Function.update s.registered q (some ev) }
    else none

/-- `mq_unlink` -/
def mqUnlink (s : State) (name : Name) : State :=
  { s with names := Function.update s.names name none }

/-- `mq_close`, which also gives back the registration of its queue. -/
def mqClose (s : State) (fd : Int) : State :=
  match s.fds fd with
  | none => s
  | some q =>
    { s with
      fds := Function.update s.fds fd none
      registered := Function.update s.registered q none }

/-! ## Opening a queue -/

/-- What the calls of one `openMessageQueue` return: the addresses of the record, whether there
    is memory for the name and the buffer, the result of `mq_open` and the queue it creates if
    it has to, and whether the other calls succeed. -/
structure Outcome where
  record : Option Addr
  name : Bool
  buffer : Bool
  mqOpen : Int
  newQueue : QueueId
  sigaction : Bool
  fcntl : Bool
  notify : Bool
deriving Repr, DecidableEq

/-- The last connection, from which `next` is null. -/
def lastOf (m : Memory MqInfo) : Option Addr := seek m (fun _ => true) m.keys.card headAddr

/-- `error:` -/
def openError (s : State) (name : Name) : Except Halt (Int × State) := .ok (-1, mqUnlink s name)

/-- `openMessageQueue` of the signal server -/
def SignalServer.openMessageQueue (s : State) (name : Name) (o : Outcome) :
    Except Halt (Int × State) := do
  let iterator ← access (lastOf s.mem)
  match o.record with
  | none => .error .nullPointer  -- `iterator->next->name`
  | some p =>
    let m ← access (alloc s.mem p MqInfo.zero)
    -- the record is in the list from here on, also when the call fails
    let m ← access (setNext m iterator (some p))
    if o.name = false then .error .exited
    else
      let m ← access (setVal m p fun c => { c with name := name })
      let s := mqOpen { s with mem := m } name o.mqOpen o.newQueue
      let m ← access (setVal s.mem p fun c => { c with fd := o.mqOpen })
      let s := { s with mem := m }
      if o.mqOpen = -1 then openError s name
      else if o.sigaction = false then openError s name
      else if o.fcntl = false then .error .exited
      else
        let m ← access (setVal s.mem p fun c => { c with ev := some p })
        let s := { s with mem := m }
        match mqNotify s o.mqOpen p o.notify with
        | none => openError s name
        | some s => return (0, s)

/-- `openMessageQueue` of the thread server, which opens "/" and the name -/
def ThreadServer.openMessageQueue (s : State) (name : Name) (callback : Nat) (args : Option Nat)
    (o : Outcome) : Except Halt (Int × State) := do
  let iterator ← access (lastOf s.mem)
  match o.record with
  | none => .error .aborted
  | some p =>
    let m ← access (alloc s.mem p MqInfo.zero)
    -- the record is in the list from here on, also when the call fails
    let m ← access (setNext m iterator (some p))
    if o.name = false ∨ o.buffer = false then .error .aborted
    else
      let m ← access (setVal m p fun c =>
        { c with
          name := 47 :: name, buffer := List.replicate (maxSize + 1) 0, callback := callback,
          args := args })
      let s := mqOpen { s with mem := m } (47 :: name) o.mqOpen o.newQueue
      let m ← access (setVal s.mem p fun c => { c with fd := o.mqOpen })
      let s := { s with mem := m }
      -- the result -1 passes the `assert`, and `mq_notify` fails on it
      if o.mqOpen = 0 then .error .aborted
      else
        let m ← access (setVal s.mem p fun c => { c with ev := some p })
        let s := { s with mem := m }
        match mqNotify s o.mqOpen p o.notify with
        -- the name without the slash is unlinked
        | none => openError s name
        | some s => return (0, s)

/-- `openMessageQueue`; the signal server has no callback. -/
def openMessageQueue (server : Server) (s : State) (name : Name) (callback : Nat)
    (args : Option Nat) (o : Outcome) : Except Halt (Int × State) :=
  match server with
  | .signal => SignalServer.openMessageQueue s name o
  | .thread => ThreadServer.openMessageQueue s name callback args o

/-! ## Closing all queues -/

/-- What is done to the connection at an address. -/
inductive Action where
  | close (fd : Int)
  | unlink (name : Name)
  | freeName (a : Addr)
  | freeBuffer (a : Addr)
  | free (a : Addr)
deriving Repr, DecidableEq

/-- The actions of one round for the connection `c` at `a`. -/
def closing (server : Server) (a : Addr) (c : MqInfo) : List Action :=
  match server with
  | .signal => [.close c.fd, .unlink c.name, .free a]
  | .thread => [.close c.fd, .unlink c.name, .freeName a, .freeBuffer a, .free a]

/-- The loop of `closeMsgQueues`. -/
def closeLoop (server : Server) : Nat → Addr → State → Except Halt (List Action × State)
  | 0, _, _ => .error .endless
  | fuel + 1, iterator, s => do
    let next ← access (nextOf s.mem iterator)
    match next with
    | none => return ([], s)  -- `exit(EXIT_SUCCESS)`
    | some delete =>
      let c ← access (valOf s.mem delete)
      -- `mq_close`, `mq_unlink` and the frees
      let s := mqUnlink (mqClose s c.fd) c.name
      let m ← access (free s.mem delete)
      -- `delete` stays the cursor, and its `next` is read though it is freed
      let (actions, s) ← closeLoop server fuel delete { s with mem := m }
      return (closing server delete c ++ actions, s)

/-- `closeMsgQueues` -/
def closeMsgQueues (server : Server) (s : State) (signal : Int) :
    Except Halt (List Action × State) :=
  -- other signals do nothing
  if signal = sigint then closeLoop server (s.mem.keys.card + 1) headAddr s else .ok ([], s)

end MqServers
