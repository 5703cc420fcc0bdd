import Mathlib.Logic.Function.Basic
import CSnippets.Native.Sigio

/-!
# The asynchronous multithreaded TCP server

`action_handler` of `async_TCP_multithread` accepts connections until `accept` fails and
creates a thread for each, which gets its descriptor in an `int` of its own. The
threads begin to run whenever they are scheduled.
-/

namespace AsyncTcpMultithread

/-- Addresses of blocks. -/
abbrev Addr := Nat

/-- Where `action_handler` is, with its `client_fd` and `new_socket`. -/
inductive Pc where
  | accept
  | malloc (clientFd : Int)
  | store (clientFd : Int) (newSocket : Addr)
  | create (clientFd : Int) (newSocket : Addr)
  | leave
deriving Repr, DecidableEq

/-- A thread in `connection_handler`, and what it has read from its argument. -/
structure Thread where
  socketDesc : Addr
  clientFd : Option Int
deriving Repr, DecidableEq

/-- The process with its blocks and threads. -/
structure State extends Sigio.Process Nat Pc where
  heap : Addr → Option Int
  threads : List Thread
  /-- what `accept` has returned for the connections taken -/
  descriptors : List Int
  exited : Bool

/-- What a system call of `action_handler` returns; fresh memory has any value. -/
inductive Call where
  | accept (fd : Int)
  | malloc (ret : Option Addr) (garbage : Int)
  | store
  | pthreadCreate (err : Int)
  | leave
deriving Repr, DecidableEq

/-- The next step of `action_handler`. -/
def actionHandler (s : State) (call : Call) : Option State :=
  match s.handler, call with
  | some .accept, .accept fd =>
    match s.queue with
    | [] => some { s with handler := some .leave }  -- `accept` fails
    | connection :: queue =>
      some { s with
        -- the loop takes descriptor 0 for the end as well
        queue := queue, handler := some (if 0 < fd then .malloc fd else .leave),
        taken := s.taken ++ [connection], descriptors := s.descriptors ++ [fd] }
  | some (.malloc fd), .malloc ret garbage =>
    match ret with
    | none => none  -- the next line writes through it
    | some p =>
      if s.heap p = none then
        some { s with
          heap := Function.update s.heap p (some garbage), handler := some (.store fd p) }
      else none
  | some (.store fd p), .store =>
    some { s with heap := Function.update s.heap p (some fd), handler := some (.create fd p) }
  | some (.create _ p), .pthreadCreate err =>
    -- an error number is positive, and is passed over
    if err < 0 then some { s with exited := true }
    else if err = 0 then
      some { s with threads := s.threads ++ [⟨p, none⟩], handler := some .accept }
    else some { s with handler := some .accept }
  | some .leave, .leave => some { s with handler := none }
  | _, _ => none

/-- `int client_fd = *(int *)socket_desc` of the `i`-th thread. -/
def connectionHandler (s : State) (i : Nat) : Option State :=
  match s.threads[i]? with
  | some ⟨p, none⟩ => do
    let fd ← s.heap p
    return { s with threads := s.threads.set i ⟨p, some fd⟩ }
  | _ => none

/-- What can happen next. -/
inductive Event where
  | arrive (connection : Nat)
  | deliver
  | handle (call : Call)
  | start (i : Nat)
deriving Repr, DecidableEq

/-- One step; an event that cannot happen has no next state. -/
def step (s : State) (e : Event) : Option State :=
  if s.exited then none
  else
    match e with
    | .arrive connection => some { s with toProcess := s.arrive connection }
    | .deliver => do
      let process ← s.deliver .accept
      return { s with toProcess := process }
    | .handle call => actionHandler s call
    | .start i => connectionHandler s i

end AsyncTcpMultithread
