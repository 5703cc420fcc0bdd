import CSnippets.ForStd.CMemory

/-!
# TCP echo servers

The loops that send a client its bytes back: in `main` of `TCP_sockets/server.c`, in
`connection_handler` of `TCP_sockets/multi_server.c`, which greets the client
first, and in `connection_handler` of `async_TCP_multithread`. What `recv` returns
until the connection ends comes as a list of chunks, and `write` sends all that it
is given.
-/

namespace EchoServer

/-- `BUFFER_LENGTH` -/
def bufferLength : Nat := 2000

/-- One turn of the loop: `recv` into `message`, echo it as a string, clear that
    string. Gives the bytes written, and is undefined when the string does not end
    in the buffer. -/
def echo (message chunk : List UInt8) : Option (List UInt8 × List UInt8) := do
  let message ← CMemory.memcpyTo message 0 chunk chunk.length
  -- not the number of bytes received, but up to the first NUL
  let length ← CMemory.strlen message
  return (message.take length, CMemory.clear message length)

/-- The loop, until `recv` has no more to return. -/
def echoLoop : List UInt8 → List (List UInt8) → Option (List UInt8)
  | _, [] => some []
  | message, chunk :: chunks => do
    let (written, message) ← echo message chunk
    let rest ← echoLoop message chunks
    return written ++ rest

/-- The loop of `main` in `server.c`. -/
def serverMain (message : List UInt8) (chunks : List (List UInt8)) : Option (List UInt8) :=
  echoLoop message chunks

/-- The greeting of `multi_server.c`. -/
def greeting : List UInt8 := "Hello I am your connection handler\n".toUTF8.data.toList

/-- `connection_handler` in `multi_server.c`. -/
def multiServerHandler (message : List UInt8) (chunks : List (List UInt8)) :
    Option (List UInt8) := do
  let echoed ← echoLoop message chunks
  return greeting ++ echoed

/-- `connection_handler` in `async_TCP_multithread`. -/
def asyncMultithreadHandler (message : List UInt8) (chunks : List (List UInt8)) :
    Option (List UInt8) :=
  echoLoop message chunks

end EchoServer
