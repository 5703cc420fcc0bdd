import CSnippets.ForStd.CMemory

/-!
# A single UDP socket (`async_UDP/src/main.c`)

`socketCallback` receives what waits in the socket and prints it. Its buffer is on the
stack: `client_message` is the bytes that were written to its front, and a string that
goes on behind them has no result.
-/

namespace SingleUdp

/-- `BUFFER_SIZE` -/
def bufferSize : Nat := 2000

/-- A datagram and the address of its sender. -/
structure Packet where
  bytes : List UInt8
  sAddr : UInt32
  sinPort : UInt16
deriving Repr, DecidableEq

/-- What is printed: a message with its sender, "Client disconnected" for a result of 0 and
    "Transmission finished" for -1. -/
inductive Line where
  | message (text : List UInt8) (sAddr : UInt32) (sinPort : UInt16)
  | disconnected
  | finished
deriving Repr, DecidableEq

/-- The receive loop and what is printed behind it; the rest of the queue stays in the
    socket. -/
def recvLoop : List UInt8 → List Packet → Option (List Line × List Packet)
  | _, [] => some ([.finished], [])
  | clientMessage, packet :: queue =>
    let readSize := min packet.bytes.length bufferSize
    -- an empty datagram looks like the end of a connection
    if readSize = 0 then some ([.disconnected], queue)
    else do
      -- no terminator is written behind what was received
      let clientMessage := CMemory.splice clientMessage 0 (packet.bytes.take readSize)
      let text ← CMemory.cString clientMessage
      -- `memset(client_message, 0, strlen(client_message))`
      let clientMessage := CMemory.clear clientMessage text.length
      let (lines, queue) ← recvLoop clientMessage queue
      return (.message text packet.sAddr packet.sinPort :: lines, queue)

/-- `socketCallback` -/
def socketCallback (queue : List Packet) : Option (List Line × List Packet) := recvLoop [] queue

end SingleUdp
