import Mathlib.Data.List.Basic

/-!
# The accept loop of the threaded TCP server

`main` of `TCP_sockets/multi_server.c` and the first step of the `connection_handler`
threads that it creates. Every thread gets the address of the one variable
`client_socket` and reads it when it is scheduled for the first time.
-/

namespace MultiServer

/-- Where `main` is. -/
inductive Pc where
  | accept
  | create
  | returned
deriving Repr, DecidableEq

/-- `client_sock`, where `main` is, the threads and the connections. -/
structure State where
  clientSocket : Int
  pc : Pc
  /-- what each thread has read from its argument -/
  threads : List (Option Int)
  /-- the descriptors of the connections accepted -/
  accepted : List Int
deriving Repr, DecidableEq

/-- `while (client_socket = accept(..))`; the descriptor is returned, or `-1`. -/
def accept (s : State) (ret : Int) : Option State :=
  if s.pc = .accept then
    -- the loop ends at 0 only; -1 is true and stays in the loop
    some { s with
      clientSocket := ret, pc := if ret = 0 then .returned else .create,
      accepted := if ret < 0 then s.accepted else s.accepted ++ [ret] }
  else none

/-- `pthread_create`, which returns 0 or an error number. -/
def create (s : State) (err : Int) : Option State :=
  if s.pc = .create then
    -- an error number is positive, so this test never sees one
    if err < 0 then some { s with pc := .returned }
    else if err = 0 then some { s with pc := .accept, threads := s.threads ++ [none] }
    else some { s with pc := .accept }
  else none

/-- `int sock = *(int*)socket_descriptor` of the `i`-th thread. -/
def connectionHandler (s : State) (i : Nat) : Option State :=
  -- when `main` returns the process ends, and its threads with it
  if s.pc ≠ .returned ∧ s.threads[i]? = some none then
    some { s with threads := s.threads.set i (some s.clientSocket) }
  else none

/-- What can happen next, with what the calls return. -/
inductive Event where
  | accept (ret : Int)
  | create (err : Int)
  | read (i : Nat)
deriving Repr, DecidableEq

/-- One step; an event that cannot happen has no next state. -/
def step (s : State) : Event → Option State
  | .accept ret => accept s ret
  | .create err => create s err
  | .read i => connectionHandler s i

end MultiServer
