import Mathlib.Data.List.Basic

/-!
# Programs driven by `SIGIO`

`async_TCP`, `tty_serial` and `async_TCP_multithread` do all their work in the handler
of `SIGIO`, which the kernel raises whenever something arrives at their descriptor.

Of POSIX: `SIGIO` is a standard signal, of which a further instance merges with the
one pending; it is blocked while its handler runs.
-/

namespace Sigio

/-- A process with its descriptor: what has arrived there, and where the handler is
    when it runs. -/
structure Process (α κ : Type) where
  queue : List α
  pending : Bool
  handler : Option κ
  /-- what the handler has taken from the queue -/
  taken : List α
deriving Repr, DecidableEq

/-- What can happen next. -/
inductive Event (α ι : Type) where
  | arrive (x : α)
  | deliver
  /-- the next step of the handler, with what a system call returns in it -/
  | handle (i : ι)
deriving Repr, DecidableEq

variable {α κ ι : Type}

/-- An item arrives and raises the signal. -/
def Process.arrive (s : Process α κ) (x : α) : Process α κ :=
  -- a second signal merges with the one pending
  { s with queue := s.queue ++ [x], pending := true }

/-- The handler starts at `start`. -/
def Process.deliver (s : Process α κ) (start : κ) : Option (Process α κ) :=
  -- blocked while the handler runs
  match s.handler with
  | none => if s.pending then some { s with pending := false, handler := some start } else none
  | some _ => none

/-- One step; an event that cannot happen has no next state. -/
def step (start : κ) (handler : Process α κ → ι → Option (Process α κ)) (s : Process α κ) :
    Event α ι → Option (Process α κ)
  | .arrive x => some (s.arrive x)
  | .deliver => s.deliver start
  | .handle i => handler s i

end Sigio

/-! ## The single-process TCP server -/

namespace AsyncTcp

/-- Where `action_handler` is. -/
inductive Pc where
  | accept
  | recv (client : Nat)
  | close (client : Nat)
deriving Repr, DecidableEq

/-- The next step of `action_handler`; `readSize` is what `recv` returns. -/
def actionHandler (s : Sigio.Process Nat Pc) (readSize : Int) : Option (Sigio.Process Nat Pc) :=
  match s.handler with
  | none => none
  | some .accept =>
    match s.queue with
    | [] => some { s with handler := none }  -- `accept` fails
    | client :: queue =>
      some { s with queue := queue, handler := some (.recv client), taken := s.taken ++ [client] }
  | some (.recv client) =>
    -- the loop goes on as long as something is received
    if 0 < readSize then some s else some { s with handler := some (.close client) }
  | some (.close _) => some { s with handler := none }

/-- One step of the server. -/
def step : Sigio.Process Nat Pc → Sigio.Event Nat Int → Option (Sigio.Process Nat Pc) :=
  Sigio.step .accept actionHandler

end AsyncTcp

/-! ## The serial port -/

namespace TtySerial

/-- Where `serial_handler` is. -/
inductive Pc where
  | read
  | print (recv : Option UInt8)
deriving Repr, DecidableEq

/-- The next step of `serial_handler`. -/
def serialHandler (s : Sigio.Process UInt8 Pc) (_ : Unit) : Option (Sigio.Process UInt8 Pc) :=
  match s.handler with
  | none => none
  | some .read =>
    match s.queue with
    | [] => some { s with handler := some (.print none) }  -- `read` fails
    | recv :: queue =>
      some { s with
        queue := queue, handler := some (.print (some recv)), taken := s.taken ++ [recv] }
  | some (.print _) => some { s with handler := none }

/-- One step of the terminal program. -/
def step : Sigio.Process UInt8 Pc → Sigio.Event UInt8 Unit → Option (Sigio.Process UInt8 Pc) :=
  Sigio.step .read serialHandler

end TtySerial
