import Mathlib.Logic.Function.Basic
import CSnippets.ForStd.CMemory
import CSnippets.ForStd.SentinelList

/-!
# Asynchronous UDP sockets (`async_UDP_multithread/src/main.c`)

The registered connections hang off the static `head`; all `aIO_t`, the head
included, live in one memory. The process has one thread, so taking a mutex that is
locked already never returns. `aIOOpenUDPSocket` and `aIODeinit` take their steps
one at a time, and `SIGIO` for an armed socket may interrupt them between any two;
its handler runs with all signals blocked and so in one piece.
-/

namespace AsyncUdp

open SentinelList

/-- `aIO_conn_e` -/
inductive ConnType where
  | none
  | tcp
  | udp
  | msgQueue
  | serial
  | noOfConnTypes
deriving Repr, DecidableEq

/-- `aIO_t` without its `next`; `buffer` is `none` once it has been freed. -/
structure Conn where
  type : ConnType
  fd : Int
  sAddr : UInt32
  sinPort : UInt16
  bufferSize : Int
  buffer : Option (List UInt8)
  callback : Nat
  args : Option Nat
  locked : Bool
deriving Repr, DecidableEq

/-- `&head` -/
def headAddr : Addr := 0

/-- Why a handler does not return. -/
inductive Halt where
  | deadlock
  | badMemory
  | nullPointer
  | endless
deriving Repr, DecidableEq

/-- What is read at an address, if it is allocated. -/
def access {α : Type} : Option α → Except Halt α
  | none => .error .badMemory
  | some x => .ok x

/-! ## Mutexes -/

/-- `pthread_mutex_lock` by the thread that would have to unlock it. -/
def lock (m : Memory Conn) (a : Addr) : Except Halt (Memory Conn) := do
  let c ← access (valOf m a)
  if c.locked then .error .deadlock
  else access (setVal m a fun c => { c with locked := true })

/-- `pthread_mutex_unlock` -/
def unlock (m : Memory Conn) (a : Addr) : Except Halt (Memory Conn) :=
  access (setVal m a fun c => { c with locked := false })

/-! ## Finding a connection -/

/-- `getLastConnection` -/
def getLastConnection (m : Memory Conn) : Option Addr := seek m (fun _ => true) m.keys.card headAddr

/-- The loop of `findConnection`, with the lock of `prev` held. -/
def findLoop (type : ConnType) (arg : Int) : Nat → Addr → Memory Conn →
    Except Halt (Option Addr × Memory Conn)
  | 0, _, _ => .error .endless
  | fuel + 1, prev, m => do
    let next ← access (nextOf m prev)
    match next with
    | none =>
      let m ← unlock m prev
      return (none, m)
    | some curr =>
      -- hand over hand: `curr` is taken before `prev` is given
      let m ← lock m curr
      let c ← access (valOf m curr)
      if type = .tcp ∨ type = .udp then
        if c.type = type ∧ c.fd = arg then
          let m ← unlock m prev
          let m ← unlock m curr
          return (some curr, m)
        else
          let m ← unlock m prev
          findLoop type arg fuel curr m
      else return (none, m)  -- the other types return with both locks held

/-- `findConnection` -/
def findConnection (m : Memory Conn) (type : ConnType) (arg : Int) :
    Except Halt (Option Addr × Memory Conn) := do
  -- the head is locked first
  let m ← lock m headAddr
  findLoop type arg m.keys.card headAddr m

/-! ## The process -/

/-- The bytes of a datagram. -/
abbrev Datagram := List UInt8

/-- A socket as the kernel has it. -/
structure Socket where
  isOpen : Bool
  async : Bool
  sig : Bool
  owner : Bool
  queue : List Datagram
deriving Repr, DecidableEq

/-- A descriptor that is not in use. -/
def Socket.closed : Socket :=
  { isOpen := false, async := false, sig := false, owner := false, queue := [] }

/-- The arguments of `aIOOpenUDPSocket`, the address converted. -/
structure OpenArgs where
  sAddr : UInt32
  port : UInt16
  bufferSize : Int
  callback : Nat
  args : Option Nat
deriving Repr, DecidableEq

/-- Where the process is: in `main`, in `aIOOpenUDPSocket` with its `conn` and the
    connection that `s_udp` points into, or in `aIODeinit` with its cursors. -/
inductive Pc where
  | main
  | create (conn : Addr) (args : OpenArgs)
  | link (conn new : Addr) (args : OpenArgs)
  | lock (conn : Addr) (args : OpenArgs)
  | fill (conn sUdp : Addr) (args : OpenArgs)
  | socket (conn sUdp : Addr)
  | sigaction (conn sUdp : Addr)
  | setFl (conn sUdp : Addr)
  | setSig (conn sUdp : Addr)
  | bind (conn sUdp : Addr)
  | setOwn (conn sUdp : Addr)
  | unlock (conn : Addr)
  | deinit (iterator : Option Addr)
  | freeBuffer (del : Addr) (iterator : Option Addr)
  | close (del : Addr) (iterator : Option Addr)
  | free (del : Addr) (iterator : Option Addr)
  | exited
deriving Repr, DecidableEq

/-- A call `callback(read_size, buffer, args)`. -/
structure Call where
  callback : Nat
  readSize : Int
  buffer : List UInt8
  args : Option Nat
deriving Repr, DecidableEq

/-- Memory, the sockets, where the program is and the calls of callbacks so far. -/
structure State where
  mem : Memory Conn
  sockets : Int → Socket
  pc : Pc
  calls : List Call

/-- `SIGIO` can be delivered for the socket. -/
def Armed (s : State) (fd : Int) : Prop :=
  (s.sockets fd).isOpen = true ∧ (s.sockets fd).async = true ∧ (s.sockets fd).sig = true ∧
    (s.sockets fd).owner = true

instance (s : State) (fd : Int) : Decidable (Armed s fd) :=
  inferInstanceAs (Decidable (_ ∧ _ ∧ _ ∧ _))

/-- The receive loop: what becomes of the buffer, the calls made, and the datagrams
    left in the socket. -/
def recvLoop (bufferSize : Int) (callback : Nat) (args : Option Nat) :
    Option (List UInt8) → List Datagram →
    Except Halt (Option (List UInt8) × List Call × List Datagram)
  | buffer, [] => return (buffer, [], [])
  | buffer, datagram :: queue => do
    let readSize := min datagram.length bufferSize.toNat
    -- an empty datagram looks like the end of a connection
    if readSize = 0 then return (buffer, [], queue)
    else
      let bytes ← access buffer
      let bytes ← access (CMemory.memcpyTo bytes 0 datagram readSize)
      -- the terminator goes over the last byte received
      let last : Int := if (readSize : Int) - 1 ≤ bufferSize then readSize - 1 else bufferSize
      let bytes ← access (CMemory.memcpyTo bytes last.toNat [0] 1)
      let (buffer, calls, queue) ← recvLoop bufferSize callback args (some bytes) queue
      return (buffer, ⟨callback, readSize, bytes, args⟩ :: calls, queue)

/-- `aIOUDPSigHandler`, run for the socket `si_fd`. -/
def aIOUDPSigHandler (s : State) (siFd : Int) : Except Halt State := do
  let (conn, m) ← findConnection s.mem .udp siFd
  match conn with
  | none => .error .nullPointer  -- `printf` reads `conn->attr` before `CHECK(conn)`
  | some conn =>
    let m ← lock m conn
    let c ← access (valOf m conn)
    let (buffer, calls, queue) ←
      recvLoop c.bufferSize c.callback c.args c.buffer (s.sockets siFd).queue
    let m ← access (setVal m conn fun c => { c with buffer := buffer })
    let m ← unlock m conn
    return { s with
      mem := m, calls := s.calls ++ calls,
      sockets := Function.update s.sockets siFd { s.sockets siFd with queue := queue } }

/-- What a step is given: arguments, what a system call returns, or a signal. -/
inductive Event where
  | call (args : OpenArgs)
  | calloc (p : Option Addr) (buffer : Option (List UInt8))
  | socket (fd : Int)
  | next (ok : Bool)
  | arrive (fd : Int) (datagram : Datagram)
  | sigio (fd : Int)
deriving Repr, DecidableEq

/-- `fcntl` on the descriptor of a connection, `none` when it fails. -/
def fcntl (s : State) (sUdp : Addr) (ok : Bool) (f : Socket → Socket) :
    Option (Option (Int → Socket)) := do
  let c ← valOf s.mem sUdp
  if ok ∧ (s.sockets c.fd).isOpen then
    return some (Function.update s.sockets c.fd (f (s.sockets c.fd)))
  else return none

/-- The next step of `aIOOpenUDPSocket`; a failed `CHECK` exits. -/
def aIOOpenUDPSocket (s : State) (e : Event) : Option State :=
  match s.pc, e with
  | .main, .call args => do
    let conn ← getLastConnection s.mem
    return { s with pc := .create conn args }
  | .create conn args, .calloc p buffer =>
    -- `createAsyncIO`: both allocations are checked, a failure exits
    match p, buffer with
    | some p, some buffer => do
      let m ← alloc s.mem p
        { type := .udp, fd := 0, sAddr := 0, sinPort := 0, bufferSize := args.bufferSize,
          buffer := some buffer, callback := args.callback, args := args.args, locked := false }
      return { s with mem := m, pc := .link conn p args }
    | _, _ => some { s with pc := .exited }
  | .link conn new args, .next _ => do
    -- its result is stored in `conn->next`, still unlocked
    let m ← setNext s.mem conn (some new)
    return { s with mem := m, pc := .lock conn args }
  | .lock conn args, .next _ => do
    let new ← nextOf s.mem conn
    let new ← new
    let m ← (lock s.mem new).toOption
    return { s with mem := m, pc := .fill conn new args }
  | .fill conn sUdp args, .next _ => do
    -- from here on the source works through `s_udp`, not through `conn->next`
    let m ← setVal s.mem sUdp fun c => { c with sAddr := args.sAddr, sinPort := args.port }
    return { s with mem := m, pc := .socket conn sUdp }
  | .socket conn sUdp, .socket fd => do
    let m ← setVal s.mem sUdp fun c => { c with fd := fd }
    let sockets := if fd < 0 then s.sockets
      else Function.update s.sockets fd { Socket.closed with isOpen := true }
    -- `CHECK(s_udp->fd)` lets `-1` through and takes descriptor 0 for a failure
    return { s with
      mem := m, sockets := sockets, pc := if fd = 0 then .exited else .sigaction conn sUdp }
  -- the handler of `SIGIO` may be installed already, by an earlier call
  | .sigaction conn sUdp, .next ok => some { s with pc := if ok then .setFl conn sUdp else .exited }
  | .setFl conn sUdp, .next ok => do
    match ← fcntl s sUdp ok fun k => { k with async := true } with
    | some sockets => return { s with sockets := sockets, pc := .setSig conn sUdp }
    | none => return { s with pc := .exited }
  | .setSig conn sUdp, .next ok => do
    match ← fcntl s sUdp ok fun k => { k with sig := true } with
    | some sockets => return { s with sockets := sockets, pc := .bind conn sUdp }
    | none => return { s with pc := .bind conn sUdp }  -- not checked
  | .bind conn sUdp, .next ok => some { s with pc := if ok then .setOwn conn sUdp else .exited }
  | .setOwn conn sUdp, .next ok => do
    -- the socket is armed, its connection still locked
    match ← fcntl s sUdp ok fun k => { k with owner := true } with
    | some sockets => return { s with sockets := sockets, pc := .unlock conn }
    | none => return { s with pc := .exited }
  | .unlock conn, .next _ => do
    let new ← nextOf s.mem conn
    let new ← new
    let m ← (unlock s.mem new).toOption
    return { s with mem := m, pc := .main }
  | _, _ => none

/-- The next step of `aIODeinit`. -/
def aIODeinit (s : State) (e : Event) : Option State :=
  match s.pc, e with
  | .deinit none, .next _ => some { s with pc := .exited }
  | .deinit (some del), .next _ => do
    -- the link is read before `del` is freed; `head.next` keeps pointing to the first
    let iterator ← nextOf s.mem del
    let c ← valOf s.mem del
    if c.type = .udp ∨ c.type = .tcp then return { s with pc := .freeBuffer del iterator }
    else return { s with pc := .deinit iterator }
  | .freeBuffer del iterator, .next _ => do
    let c ← valOf s.mem del
    let _ ← c.buffer
    let m ← setVal s.mem del fun c => { c with buffer := none }
    return { s with mem := m, pc := .close del iterator }
  | .close del iterator, .next _ => do
    -- `CHECK(!close(..))` exits when the descriptor is not open
    let c ← valOf s.mem del
    if (s.sockets c.fd).isOpen then
      return { s with
        sockets := Function.update s.sockets c.fd Socket.closed, pc := .free del iterator }
    else return { s with pc := .exited }
  | .free del iterator, .next _ => do
    let m ← SentinelList.free s.mem del
    return { s with mem := m, pc := .deinit iterator }
  | _, _ => none

/-- What happens in the kernel and in the signal handler, wherever the process is. -/
def interrupt (s : State) (e : Event) : Option State :=
  match e with
  | .arrive fd datagram =>
    -- what is sent to a closed socket is dropped
    if (s.sockets fd).isOpen then
      some { s with
        sockets := Function.update s.sockets fd
          { s.sockets fd with queue := (s.sockets fd).queue ++ [datagram] } }
    else some s
  | .sigio fd => if Armed s fd then (aIOUDPSigHandler s fd).toOption else none
  | _ => none

/-- A step of the process in `aIOOpenUDPSocket`. -/
def openStep (s : State) (e : Event) : Option State :=
  match e with
  | .arrive _ _ => interrupt s e
  | .sigio _ => interrupt s e
  | _ => aIOOpenUDPSocket s e

/-- A step of the process in `aIODeinit`. -/
def deinitStep (s : State) (e : Event) : Option State :=
  match e with
  | .arrive _ _ => interrupt s e
  | .sigio _ => interrupt s e
  | _ => aIODeinit s e

end AsyncUdp
