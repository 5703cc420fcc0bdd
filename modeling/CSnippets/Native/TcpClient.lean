import CSnippets.Native.EchoServer

/-!
# The TCP client and its server

`client.c` of `TCP_sockets` together with the server it talks to, `server.c` or a
handler thread of `multi_server.c`. Between them are two byte streams; a `recv` takes
any part of what its stream holds.
-/

namespace EchoServer

/-- The server at the other end. -/
inductive Peer where
  | server
  | multiServer
deriving Repr, DecidableEq

/-- What the server writes before its loop. -/
def Peer.greeting : Peer → List UInt8
  | .server => []
  | .multiServer => EchoServer.greeting

/-- The buffers of the client and of its peer, and the two streams between them. -/
structure State where
  /-- `client_message` of the client, `BUFFER_LENGTH - 1` bytes -/
  clientMessage : List UInt8
  /-- `server_message` of the client, `BUFFER_LENGTH` bytes -/
  serverMessage : List UInt8
  /-- the client is in `recv` -/
  waiting : Bool
  sent : List (List UInt8)
  /-- the replies printed -/
  replies : List (List UInt8)
  toServer : List UInt8
  toClient : List UInt8
  /-- what the server has still to write before its loop -/
  greeting : List UInt8
  /-- `client_message` of the server, `BUFFER_LENGTH` bytes -/
  message : List UInt8
deriving Repr, DecidableEq

/-- `scanf("%s", client_message)` of a token and `send`. -/
def type (s : State) (token : List UInt8) : Option State := do
  if s.waiting then none
  else
    let clientMessage ← CMemory.memcpyTo s.clientMessage 0 (token ++ [0]) (token.length + 1)
    let length ← CMemory.strlen clientMessage
    -- the terminator is not sent
    let bytes := clientMessage.take length
    return { s with
      clientMessage := clientMessage, waiting := true, sent := s.sent ++ [bytes],
      toServer := s.toServer ++ bytes }

/-- `recv` of `n` bytes, `printf` of the reply, and `memset`. -/
def reply (s : State) (n : Nat) : Option State := do
  if s.waiting then
    let serverMessage ← CMemory.memcpyTo s.serverMessage 0 s.toClient n
    -- `printf("%s")` prints up to the first NUL
    let text ← CMemory.cString serverMessage
    return { s with
      serverMessage := CMemory.clear serverMessage text.length, waiting := false,
      replies := s.replies ++ [text], toClient := s.toClient.drop n }
  else none

/-- The server writes its greeting. -/
def greet (s : State) : Option State :=
  some { s with toClient := s.toClient ++ s.greeting, greeting := [] }

/-- One turn of the server's loop, in which `recv` returns `n` bytes. -/
def serve (s : State) (n : Nat) : Option State := do
  if s.greeting = [] then
    let (written, message) ← echo s.message (s.toServer.take n)
    return { s with
      message := message, toServer := s.toServer.drop n, toClient := s.toClient ++ written }
  else none

/-- What can happen next, with how much the calls transfer. -/
inductive Event where
  | type (token : List UInt8)
  | greet
  | serve (n : Nat)
  | reply (n : Nat)
deriving Repr, DecidableEq

/-- One step; an event that cannot happen has no next state. -/
def step (s : State) : Event → Option State
  | .type token => type s token
  | .greet => greet s
  | .serve n => serve s n
  | .reply n => reply s n

end EchoServer
