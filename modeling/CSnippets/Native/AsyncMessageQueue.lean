import Mathlib.Logic.Function.Basic
import CSnippets.ForStd.CMemory

/-!
# Asynchronous message queues

The notification handlers of `async_posix_message_queues` (signal) and
`async_posix_message_queues_SIGEV_THREAD` (thread), with the message queues they
serve. A run of `sigHandler` takes its steps one at a time; senders and other
handlers may run in between.

Of POSIX: a queue has at most one registration, which one notification uses up; a
notification is generated when a message arrives at an empty queue that is
registered. All messages have priority 0, so a queue is first in, first out.
-/

namespace AsyncMQ

/-- Names of queues. -/
abbrev QueueId := Nat
/-- The bytes of a message. -/
abbrev Message := List UInt8

/-- `MAX_SIZE`, with which all queues are opened. -/
def maxSize : Nat := 1024

/-- How a notification reaches the server: in a thread of its own (`SIGEV_THREAD`)
    or as `SIGIO`. A second `SIGIO` is queued, or merged with the one pending. -/
inductive Delivery where
  | thread
  | queuedSignal
  | mergedSignal
deriving Repr, DecidableEq

/-- A message queue with its `mq_info_t`; `buffer` is that of the thread server. -/
structure Queue where
  messages : List Message
  maxMsg : Nat
  armed : Bool
  buffer : List UInt8
deriving Repr, DecidableEq

/-- Where a run of `sigHandler` is. -/
inductive HandlerPc where
  | receive
  | callback (bytesRead : Int)
  | notify
  | leave
deriving Repr, DecidableEq

/-- A run of the handler: its queue, and where it is. -/
structure Handler where
  queue : QueueId
  pc : HandlerPc
deriving Repr, DecidableEq

/-- A call `callback(bytes_read, buffer, args)` for a queue. -/
structure CallbackCall where
  queue : QueueId
  bytesRead : Int
  buffer : List UInt8
deriving Repr, DecidableEq

/-- The queues, the notifications, the handlers and the calls of callbacks so far. -/
structure State where
  queues : QueueId → Option Queue
  /-- notifications generated and not yet delivered -/
  pending : List QueueId
  handlers : List Handler
  calls : List CallbackCall
  exited : Bool

/-! ## The kernel -/

/-- The notifications pending once one more is generated. -/
def notified (d : Delivery) (pending : List QueueId) (q : QueueId) : List QueueId :=
  match d with
  | .thread => pending ++ [q]
  | .queuedSignal => pending ++ [q]
  | .mergedSignal => if pending = [] then [q] else pending

/-- `mq_receive`, `none` when it fails with `EAGAIN`. -/
def mqReceive (mq : Queue) : Option (Message × Queue) :=
  match mq.messages with
  | [] => none
  | m :: messages => some (m, { mq with messages := messages })

/-- `mq_notify`, `none` when it fails with `EBUSY`. -/
def mqNotify (mq : Queue) : Option Queue :=
  if mq.armed then none else some { mq with armed := true }

/-! ## Senders and handlers -/

/-- One queue changes. -/
def State.set (s : State) (q : QueueId) (mq : Queue) : State :=
  { s with queues := Function.update s.queues q (some mq) }

/-- `messageQueuePut`; it blocks while the queue is full. -/
def messageQueuePut (d : Delivery) (s : State) (q : QueueId) (m : Message) : Option State :=
  match s.queues q with
  | none => some s  -- `mq_open` fails
  | some mq =>
    if maxSize < m.length then some s  -- `mq_send` fails
    else if mq.messages.length < mq.maxMsg then
      -- only the arrival at an empty queue notifies, and uses the registration up
      if mq.armed ∧ mq.messages = [] then
        some { s.set q { mq with messages := [m], armed := false } with
          pending := notified d s.pending q }
      else some (s.set q { mq with messages := mq.messages ++ [m] })
    else none

/-- What `mq_receive` stores; the signal server has a buffer of its own in the
    handler and only prints it. -/
def Queue.store (mq : Queue) (d : Delivery) (m : Message) : Queue :=
  match d with
  | .thread => { mq with buffer := CMemory.splice mq.buffer 0 m }
  | .queuedSignal => mq
  | .mergedSignal => mq

/-- The next step of the `i`-th running `sigHandler`. -/
def sigHandler (d : Delivery) (s : State) (i : Nat) : Option State :=
  match s.handlers[i]? with
  | none => none
  | some h =>
    match s.queues h.queue with
    | none => none
    | some mq =>
      match h.pc with
      | .receive =>
        match mqReceive mq with
        | none => some { s with handlers := s.handlers.set i ⟨h.queue, .callback (-1)⟩ }
        | some (m, mq') =>
          some { s.set h.queue (mq'.store d m) with
            handlers := s.handlers.set i ⟨h.queue, .callback m.length⟩ }
      | .callback bytesRead =>
        let calls :=
          -- the server with signals prints its buffer and calls nobody
          if d = .thread ∧ 0 < bytesRead then s.calls ++ [⟨h.queue, bytesRead, mq.buffer⟩]
          else s.calls
        some { s with calls := calls, handlers := s.handlers.set i ⟨h.queue, .notify⟩ }
      | .notify =>
        match mqNotify mq with
        | none => some { s with exited := true }  -- `closeMsgQueues(SIGINT)`
        | some mq' =>
          some { s.set h.queue mq' with handlers := s.handlers.set i ⟨h.queue, .leave⟩ }
      -- it does not look whether more has arrived meanwhile
      | .leave => some { s with handlers := s.handlers.eraseIdx i }

/-- A pending notification is delivered. `SIGIO` is blocked while its handler runs. -/
def deliver (d : Delivery) (s : State) (q : QueueId) : Option State :=
  -- threads run side by side, signal handlers one after the other
  if q ∈ s.pending ∧ (d = .thread ∨ s.handlers = []) then
    some { s with pending := s.pending.erase q, handlers := s.handlers ++ [⟨q, .receive⟩] }
  else none

/-- What can happen next. -/
inductive Event where
  | send (q : QueueId) (m : Message)
  | deliver (q : QueueId)
  | handle (i : Nat)
deriving Repr, DecidableEq

/-- One step; an event that cannot happen has no next state. -/
def step (d : Delivery) (s : State) (e : Event) : Option State :=
  if s.exited then none
  else
    match e with
    | .send q m => messageQueuePut d s q m
    | .deliver q => deliver d s q
    | .handle i => sigHandler d s i

end AsyncMQ
