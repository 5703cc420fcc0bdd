import Mathlib.Logic.Function.Basic
import CSnippets.Native.SingleUdp

/-!
# Registering a UDP socket (`async_UDP/src/main.c`)

There is one `cb`. `socketOpenUDP` stores the new descriptor, the callback and its arguments in
it one after the other, and then makes the socket raise `SIGIO`; a signal of a socket that was
registered before may come in between any two of these steps. The calls of
`socketOpenUDP` and what the library answers are the events, as are the datagrams.

`signalHandler` runs with `SIGIO` blocked, and until the callback returns `main` does not go on.
Of the calls of `fcntl` it is assumed that `F_GETFL` and `F_SETSIG` do not fail.
-/

namespace SingleUdp

/-- A function that is registered: the one of this file, or one of another program, which may
    receive from the socket as often as it likes. -/
inductive Callback where
  | socketCallback
  | other (n : Nat)
deriving Repr, DecidableEq

/-- `async_IO_callback_t` -/
structure AsyncIOCallback where
  fileDesc : Int
  /-- `none` is the null pointer -/
  callback : Option Callback
  args : Option Nat
deriving Repr, DecidableEq

/-- What the kernel knows of a descriptor. -/
structure Socket where
  isOpen : Bool
  /-- `O_ASYNC` -/
  async : Bool
  /-- The process owns it, and gets its signals. -/
  owned : Bool
  bound : Bool
  queue : List Packet
deriving Repr, DecidableEq

/-- Where `main` is in `socketOpenUDP`, and what it registers. -/
inductive Pc where
  /-- outside of it -/
  | idle
  /-- `cb.file_desc = socket_fd` -/
  | fileDesc (new : AsyncIOCallback)
  /-- `cb.callback = callback` -/
  | callback (new : AsyncIOCallback)
  /-- `cb.args = args` -/
  | args (new : AsyncIOCallback)
  /-- `fcntl(file_descriptor, F_SETFL, file_status)` -/
  | setfl (fd : Int)
  /-- `fcntl(file_descriptor, F_SETOWN, getpid())` -/
  | setown (fd : Int)
  /-- `sigaction(SIGIO, &sa, NULL)` -/
  | sigaction (fd : Int)
  | bind (fd : Int)
deriving Repr, DecidableEq

/-- A callback that runs. -/
structure Running where
  callback : Callback
  fd : Int
  /-- `client_message` of `socketCallback` -/
  clientMessage : List UInt8
deriving Repr, DecidableEq

/-- What has happened. -/
inductive Entry where
  /-- The descriptor has been stored in `cb`. -/
  | registered (new : AsyncIOCallback)
  | sigaction (ok : Bool)
  | arrived (fd : Int) (packet : Packet)
  | called (fd : Int) (callback : Callback) (args : Option Nat)
  | received (fd : Int) (packet : Packet)
deriving Repr, DecidableEq

/-- Where `socketOpenUDP` is, `cb`, the sockets, the signal and what has happened so far. -/
structure State where
  pc : Pc
  cb : AsyncIOCallback
  sockets : Int → Socket
  /-- `signalHandler` is set; without it `SIGIO` ends the process. -/
  handlerSet : Bool
  /-- the descriptor of the `SIGIO` that is pending -/
  pending : Option Int
  running : Option Running
  killed : Bool
  printed : List Line
  /-- what the calls of `socketOpenUDP` have returned -/
  returned : List Int
  history : List Entry

/-- Nothing has been opened. -/
def State.start : State :=
  { pc := .idle, cb := { fileDesc := 0, callback := none, args := none },
    sockets := fun _ =>
      { isOpen := false, async := false, owned := false, bound := false, queue := [] },
    handlerSet := false, pending := none, running := none, killed := false, printed := [],
    returned := [], history := [] }

/-- One socket changes. -/
def State.setSocket (s : State) (fd : Int) (c : Socket) : State :=
  { s with sockets := Function.update s.sockets fd c }

/-- The history grows by an entry. -/
def State.log (s : State) (e : Entry) : State := { s with history := s.history ++ [e] }

/-- The call of `socketOpenUDP` with what `socket` returns, `none` for an error. A new
    descriptor is one that is not in use. -/
def socketOpenUDP (s : State) (socketCallback : Option Callback) (callbackArgs : Option Nat) :
    Option Int → Option State
  | none => some { s with returned := s.returned ++ [1] }
  | some fd =>
    if (s.sockets fd).isOpen then none
    else
      some { s.setSocket fd { s.sockets fd with isOpen := true } with
        pc := .fileDesc { fileDesc := fd, callback := socketCallback, args := callbackArgs } }

/-- The next step of `socketOpenUDP`, and whether its call succeeds. -/
def next (s : State) (ok : Bool) : Option State :=
  match s.pc with
  | .idle => none
  | .fileDesc new =>
    some { s.log (.registered new) with
      pc := .callback new, cb := { s.cb with fileDesc := new.fileDesc } }
  | .callback new => some { s with pc := .args new, cb := { s.cb with callback := new.callback } }
  | .args new => some { s with pc := .setfl new.fileDesc, cb := { s.cb with args := new.args } }
  | .setfl fd => some { s.setSocket fd { s.sockets fd with async := ok } with pc := .setown fd }
  | .setown fd => some { s.setSocket fd { s.sockets fd with owned := ok } with pc := .sigaction fd }
  | .sigaction fd =>
    some { s.log (.sigaction ok) with pc := .bind fd, handlerSet := s.handlerSet || ok }
  | .bind fd =>
    -- only `bind` decides what is returned
    some { s.setSocket fd { s.sockets fd with bound := ok } with
      pc := .idle, returned := s.returned ++ [if ok then fd else -1] }

/-- A datagram arrives. It is dropped where nobody is bound. -/
def arrive (s : State) (fd : Int) (packet : Packet) : State :=
  let socket := s.sockets fd
  if socket.bound then
    { (s.setSocket fd { socket with queue := socket.queue ++ [packet] }).log
        (.arrived fd packet) with
      -- a signal that is pending swallows this one
      pending := if socket.async ∧ socket.owned then some (s.pending.getD fd) else s.pending }
  else s

/-- `signalHandler`, up to the callback -/
def signalHandler (s : State) (siFd : Int) : State :=
  if siFd = s.cb.fileDesc then
    match s.cb.callback with
    | none => s
    | some callback =>
      { s.log (.called siFd callback s.cb.args) with
        running := some { callback := callback, fd := siFd, clientMessage := [] } }
  else s

/-- `SIGIO` is delivered. -/
def deliver (s : State) : Option State :=
  match s.pending, s.running with
  | some fd, none =>
    if s.handlerSet then some (signalHandler { s with pending := none } fd)
    -- the default action of `SIGIO`
    else some { s with killed := true }
  | _, _ => none

/-- What `socketCallback` does with a datagram: what it prints, and its buffer unless it
    leaves its loop. -/
def socketCallbackRound (clientMessage : List UInt8) :
    Option Packet → Option (Line × Option (List UInt8))
  | none => some (.finished, none)
  | some packet =>
    let readSize := min packet.bytes.length bufferSize
    if readSize = 0 then some (.disconnected, none)
    else do
      let clientMessage := CMemory.splice clientMessage 0 (packet.bytes.take readSize)
      let text ← CMemory.cString clientMessage
      return (.message text packet.sAddr packet.sinPort,
        some (CMemory.clear clientMessage text.length))

/-- The callback that runs receives from its socket. -/
def recvfrom (s : State) (call : Running) : Option State := do
  let socket := s.sockets call.fd
  let s := match socket.queue with
    | [] => s
    | packet :: queue =>
      (s.setSocket call.fd { socket with queue := queue }).log (.received call.fd packet)
  match call.callback with
  | .other _ => return s
  | .socketCallback =>
    let (line, clientMessage) ← socketCallbackRound call.clientMessage socket.queue.head?
    return { s with
      printed := s.printed ++ [line],
      running := clientMessage.map fun bytes => { call with clientMessage := bytes } }

/-- What can happen next, with what the calls return. -/
inductive Event where
  | socketOpenUDP (callback : Option Callback) (args : Option Nat) (fd : Option Int)
  | next (ok : Bool)
  | arrive (fd : Int) (packet : Packet)
  | deliver
  | recvfrom
  /-- A callback of another program returns. -/
  | returns
deriving Repr, DecidableEq

/-- A step; `none` where it cannot be made or its effect is undefined. -/
def step (s : State) (e : Event) : Option State :=
  if s.killed then none
  else
    match e, s.running with
    | .socketOpenUDP callback args fd, none =>
      if s.pc = .idle then socketOpenUDP s callback args fd else none
    | .next ok, none => next s ok
    | .arrive fd packet, _ => some (arrive s fd packet)
    | .deliver, _ => deliver s
    | .recvfrom, some call => recvfrom s call
    | .returns, some call =>
      -- `socketCallback` returns by itself, out of its loop
      if call.callback = .socketCallback then none else some { s with running := none }
    | _, _ => none

end SingleUdp
