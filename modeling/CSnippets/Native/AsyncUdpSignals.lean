import CSnippets.Native.AsyncUdp

/-!
# Signals for many UDP sockets (`async_UDP_multithread/src/main.c`)

The sockets are open and `main` sleeps. `SIGIO` is a standard signal: one that is raised while
another is pending is lost, and with it the descriptor it was raised for. The handler runs
with `SIGIO` blocked; datagrams may arrive between any two of its calls of `recv`.
-/

namespace AsyncUdp

open SentinelList

/-- The program with the signal that is pending and the handler that runs. -/
structure Process where
  state : State
  /-- The descriptor of the `SIGIO` that is pending. -/
  pending : Option Int
  /-- `server_fd` and `conn` of the handler in its loop -/
  handler : Option (Int × Addr)

/-- What can happen next. -/
inductive Signal where
  | arrive (fd : Int) (datagram : Datagram)
  /-- The handler begins. -/
  | deliver
  /-- `recv`, and the body of the loop behind it -/
  | recv
deriving Repr, DecidableEq

/-- `aIOUDPSigHandler` up to its loop. -/
def beginHandler (s : State) (siFd : Int) : Except Halt (Addr × State) := do
  let (conn, m) ← findConnection s.mem .udp siFd
  match conn with
  | none => .error .nullPointer
  | some conn =>
    let m ← lock m conn
    return (conn, { s with mem := m })

/-- Behind the loop. -/
def endHandler (s : State) (conn : Addr) : Except Halt State := do
  let m ← unlock s.mem conn
  return { s with mem := m }

/-- One round of the loop; the handler goes on if it says so. -/
def recvRound (s : State) (serverFd : Int) (conn : Addr) : Except Halt (Bool × State) := do
  let c ← access (valOf s.mem conn)
  match (s.sockets serverFd).queue with
  | [] =>
    -- `O_NONBLOCK`: -1
    let s ← endHandler s conn
    return (false, s)
  | datagram :: queue =>
    let sockets :=
      Function.update s.sockets serverFd { s.sockets serverFd with queue := queue }
    let s := { s with sockets := sockets }
    let readSize := min datagram.length c.bufferSize.toNat
    if readSize = 0 then
      let s ← endHandler s conn
      return (false, s)
    else
      let bytes ← access c.buffer
      let bytes ← access (CMemory.memcpyTo bytes 0 datagram readSize)
      -- the terminator goes over the last byte received
      let last : Int := if (readSize : Int) - 1 ≤ c.bufferSize then readSize - 1 else c.bufferSize
      let bytes ← access (CMemory.memcpyTo bytes last.toNat [0] 1)
      let m ← access (setVal s.mem conn fun c => { c with buffer := some bytes })
      return (true, { s with mem := m, calls := s.calls ++ [⟨c.callback, readSize, bytes, c.args⟩] })

/-- A step; `none` where the process crashes or hangs, or where the step cannot be made. -/
def signalStep (p : Process) : Signal → Option Process
  | .arrive fd datagram =>
    if (p.state.sockets fd).isOpen then
      let sockets := Function.update p.state.sockets fd
        { p.state.sockets fd with queue := (p.state.sockets fd).queue ++ [datagram] }
      -- a signal that is pending swallows this one
      let pending := if Armed p.state fd then some (p.pending.getD fd) else p.pending
      some { p with state := { p.state with sockets := sockets }, pending := pending }
    else some p
  | .deliver =>
    match p.pending, p.handler with
    | some fd, none => do
      let (conn, s) ← (beginHandler p.state fd).toOption
      return { state := s, pending := none, handler := some (fd, conn) }
    | _, _ => none
  | .recv =>
    match p.handler with
    | none => none
    | some (serverFd, conn) => do
      let (goesOn, s) ← (recvRound p.state serverFd conn).toOption
      return { p with state := s, handler := if goesOn then some (serverFd, conn) else none }

end AsyncUdp
