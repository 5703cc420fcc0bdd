import CSnippets.ForStd.BoundedQueue
import CSnippets.ForStd.CMemory

/-!
# POSIX message queues

The client and the server of `posix_message_queues`, from their loops on. The client
sends what it reads from its standard input, and the server prints what it receives.
Every call of the library is a step of its own, and the other process may run in between.
-/

namespace PosixMessageQueues

/-- `MAX_SIZE` -/
def maxSize : Nat := 1024

/-- `MSG_STOP`, the string "exit" with its terminator -/
def msgStop : List UInt8 := [101, 120, 105, 116, 0]

/-- Where the client is in its loop. -/
inductive ClientPc where
  /-- `memset` and `fgets` -/
  | read
  /-- `mq_send` -/
  | send
  /-- the condition of the loop -/
  | test
  | left
deriving Repr, DecidableEq

/-- Where the server is in its loop. -/
inductive ServerPc where
  /-- `mq_receive` -/
  | receive
  /-- `buffer[bytes_read] = '\0'` -/
  | terminate (bytesRead : Nat)
  /-- `strncmp` and `printf` -/
  | test
  | left
deriving Repr, DecidableEq

/-- The two processes and the queue between them. The last four fields are histories:
    what `fgets` has read, `mq_send` has sent, `mq_receive` has received and `printf`
    has printed behind "Received: ". -/
structure State where
  client : ClientPc
  /-- `buffer` of the client, `MAX_SIZE` bytes -/
  clientBuffer : List UInt8
  /-- how much of its input the client has read -/
  pos : Nat
  server : ServerPc
  /-- `buffer` of the server, `MAX_SIZE + 1` bytes -/
  serverBuffer : List UInt8
  /-- `mq_maxmsg` is 10 -/
  queue : BoundedQueue (List UInt8) 10
  read : List (List UInt8)
  sent : List (List UInt8)
  received : List (List UInt8)
  printed : List (List UInt8)

/-- The standard input of the client: its bytes, `none` behind the last. -/
abbrev Input := Nat → Option UInt8

variable (stdin : Input)

/-- What `fgets` reads: at most `n` bytes, to the end of the line or of the input. -/
def line (pos : Nat) : Nat → List UInt8
  | 0 => []
  | n + 1 =>
    match stdin pos with
    | none => []
    | some b => if b = 10 then [b] else b :: line (pos + 1) n

/-- A step of the client; `none` while it blocks, and behind its loop. -/
def clientStep (s : State) : Option State :=
  match s.client with
  | .read => do
    let buffer := CMemory.clear s.clientBuffer maxSize
    let bytes := line stdin s.pos (maxSize - 1)
    if bytes = [] then
      -- the null pointer that `fgets` returns is not looked at
      return { s with client := .send, clientBuffer := buffer }
    else
      let buffer ← CMemory.memcpyTo buffer 0 (bytes ++ [0]) (bytes.length + 1)
      return { s with client := .send, clientBuffer := buffer, pos := s.pos + bytes.length,
                      read := s.read ++ [bytes] }
  | .send => do
    -- the whole buffer is sent, whatever was read
    let message := s.clientBuffer.take maxSize
    let queue ← s.queue.put message
    return { s with client := .test, queue := queue, sent := s.sent ++ [message] }
  | .test => do
    let n ← CMemory.strlen msgStop
    let c ← CMemory.strncmp s.clientBuffer msgStop n
    -- `MSG_STOP` is compared without its terminator
    return { s with client := if c ≠ 0 then .read else .left }
  | .left => none

/-- A step of the server; `none` while it blocks, and behind its loop. -/
def serverStep (s : State) : Option State :=
  match s.server with
  | .receive => do
    let (message, queue) ← s.queue.get
    let buffer ← CMemory.memcpyTo s.serverBuffer 0 message message.length
    return { s with server := .terminate message.length, serverBuffer := buffer, queue := queue,
                    received := s.received ++ [message] }
  | .terminate bytesRead => do
    let buffer ← CMemory.memcpyTo s.serverBuffer bytesRead [0] 1
    return { s with server := .test, serverBuffer := buffer }
  | .test => do
    let n ← CMemory.strlen msgStop
    let c ← CMemory.strncmp s.serverBuffer msgStop n
    -- the stop message is not printed
    if c = 0 then return { s with server := .left }
    else
      let text ← CMemory.cString s.serverBuffer
      return { s with server := .receive, printed := s.printed ++ [text] }
  | .left => none

/-- Who takes the next step. -/
inductive Event where
  | client
  | server
deriving Repr, DecidableEq

/-- One step; who is blocked or has left takes none. -/
def step (s : State) : Event → Option State
  | .client => clientStep stdin s
  | .server => serverStep s

/-- Both processes before their loops, with any bytes in their buffers. -/
def State.start (clientBuffer : Fin maxSize → UInt8) (serverBuffer : Fin (maxSize + 1) → UInt8) :
    State :=
  { client := .read, clientBuffer := List.ofFn clientBuffer, pos := 0, server := .receive,
    serverBuffer := List.ofFn serverBuffer, queue := BoundedQueue.empty, read := [], sent := [],
    received := [], printed := [] }

end PosixMessageQueues
