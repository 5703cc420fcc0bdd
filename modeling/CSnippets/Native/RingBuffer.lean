import CSnippets.ForStd.CMemory

/-!
# Ring buffer (`ring_buffer/src/rbuf.c`)

A ring buffer of `size` items of `itemSize` bytes in one flat block. `head` is
the next free slot, `tail` the oldest stored item; an empty and a full buffer
both have `head = tail` and are told apart by `full`.

The functions are in `Option`: `none` is an assertion that fails, a remainder by
zero or a `memcpy` outside its blocks. The handle is the structure itself, so
`assert(rbuf)` and `assert(rbuf->buffer)` hold of every value here: `rbufInit`
only returns a handle after it has checked both allocations.
-/

namespace RingBuffer

open CMemory

/-- `struct ring_buf`; `size_t` is 64 bits wide. -/
structure RingBuf where
  buffer : List UInt8
  head : UInt64
  tail : UInt64
  size : UInt64
  itemSize : UInt64
  full : Bool
deriving Repr, DecidableEq

/-- `inc_buf`: move past the slot just written; on a full buffer the oldest item
    goes and `head` stays at `tail`. -/
def incBuf (rbuf : RingBuf) : Option RingBuf := do
  let rbuf ←
    if rbuf.full then do
      -- the oldest item is the one that was overwritten
      let tail ← umod (rbuf.tail + 1) rbuf.size
      pure { rbuf with tail := tail, head := tail }
    else do
      let head ← umod (rbuf.head + 1) rbuf.size
      pure { rbuf with head := head }
  -- a head that has caught up with the tail
  return { rbuf with full := rbuf.head == rbuf.tail }

/-- `dec_buf`: move past the item just read. -/
def decBuf (rbuf : RingBuf) : Option RingBuf := do
  let tail ← umod (rbuf.tail + 1) rbuf.size
  -- one slot is free now, whatever it was before
  return { rbuf with full := false, tail := tail }

/-- `rbuf_empty` -/
def rbufEmpty (rbuf : RingBuf) : Bool := !rbuf.full && rbuf.head == rbuf.tail

/-- `rbug_full` (the source's spelling) -/
def rbugFull (rbuf : RingBuf) : Bool := rbuf.full

/-- `rbuf_init`; the two flags say whether the structure and the buffer can be
    allocated. -/
def rbufInit (structMem bufferMem : Bool) (itemSize itemCount : UInt64) : Option RingBuf := do
  -- both allocations are asserted
  guard structMem
  let buffer ← calloc bufferMem itemCount itemSize
  let ret : RingBuf :=
    { buffer := buffer, head := 0, tail := 0, size := itemCount, itemSize := itemSize,
      full := false }
  guard (rbufEmpty ret)
  return ret

/-- `rbuf_reset` -/
def rbufReset (rbuf : RingBuf) : RingBuf := { rbuf with head := 0, tail := 0, full := false }

/-- The `memcpy` of `rbuf_put` and `rbuf_fput`, to the slot at `head`. -/
def copyIn (rbuf : RingBuf) (data : List UInt8) : Option RingBuf := do
  -- the product is one of `size_t` and may wrap
  let buffer ←
    memcpyTo rbuf.buffer (rbuf.head * rbuf.itemSize).toNat data rbuf.itemSize.toNat
  return { rbuf with buffer := buffer }

/-- `rbuf_put`: `-1` on a full buffer, else `0`. -/
def rbufPut (rbuf : RingBuf) (data : List UInt8) : Option (Int × RingBuf) :=
  if rbuf.full then some (-1, rbuf)
  else do
    let rbuf ← incBuf (← copyIn rbuf data)
    return (0, rbuf)

/-- `rbuf_fput`: overwrites the oldest item of a full buffer. -/
def rbufFput (rbuf : RingBuf) (data : List UInt8) : Option RingBuf := do
  incBuf (← copyIn rbuf data)

/-- `rbuf_get`: `-1` on an empty buffer, else `0` and the oldest item in the
    caller's `data`. -/
def rbufGet (rbuf : RingBuf) (data : List UInt8) : Option (Int × List UInt8 × RingBuf) :=
  if rbufEmpty rbuf then some (-1, data, rbuf)
  else do
    let data ←
      memcpyFrom data rbuf.buffer (rbuf.tail * rbuf.itemSize).toNat rbuf.itemSize.toNat
    let rbuf ← decBuf rbuf
    return (0, data, rbuf)

/-- `rbuf_size`; `ret` is signed in the source, but addition and subtraction
    modulo 2^64 do not depend on that. -/
def rbufSize (rbuf : RingBuf) : UInt64 :=
  if !rbuf.full then
    let ret := rbuf.head - rbuf.tail
    -- the items wrap around the end of the block
    if rbuf.tail > rbuf.head then ret + rbuf.size else ret
  else rbuf.size

/-- `rbuf_size` with its `ssize_t ret`: every assignment to `ret` and every use of it
    in an unsigned sum converts modulo 2^64. -/
def rbufSizeSigned (rbuf : RingBuf) : UInt64 :=
  let ret : Int64 := rbuf.size.toInt64
  let ret :=
    if !rbuf.full then
      let ret := (rbuf.head - rbuf.tail).toInt64
      if rbuf.tail > rbuf.head then (ret.toUInt64 + rbuf.size).toInt64 else ret
    else ret
  ret.toUInt64

/-- `rbuf_capacity` -/
def rbufCapacity (rbuf : RingBuf) : UInt64 := rbuf.size

/-! ## One call of the interface -/

/-- A call on a buffer of `w`-byte items, with the item (or the caller's memory
    for one) it is given. -/
inductive Call (w : Nat) where
  | put (data : Vector UInt8 w)
  | fput (data : Vector UInt8 w)
  | get (data : Vector UInt8 w)
  | reset

/-- What a call returns; for `get` also the caller's memory after it. -/
inductive Result where
  | put (ret : Int)
  | fput
  | get (ret : Int) (data : List UInt8)
  | reset
deriving Repr, DecidableEq

/-- What the three query functions say about a buffer. -/
structure Queries where
  empty : Bool
  full : Bool
  size : Nat
deriving Repr, DecidableEq

/-- What the three queries return. -/
def queries (rbuf : RingBuf) : Queries :=
  { empty := rbufEmpty rbuf, full := rbugFull rbuf, size := (rbufSize rbuf).toNat }

/-- Make a call. -/
def call {w : Nat} (rbuf : RingBuf) : Call w → Option (Result × RingBuf)
  | .put data => do
    let (ret, rbuf) ← rbufPut rbuf data.toList
    return (.put ret, rbuf)
  | .fput data => do
    let rbuf ← rbufFput rbuf data.toList
    return (.fput, rbuf)
  | .get data => do
    let (ret, data, rbuf) ← rbufGet rbuf data.toList
    return (.get ret data, rbuf)
  | .reset => some (.reset, rbufReset rbuf)

/-- Make a call and ask the three queries after it. -/
def step {w : Nat} (rbuf : RingBuf) (c : Call w) : Option ((Result × Queries) × RingBuf) := do
  let (result, rbuf) ← call rbuf c
  return ((result, queries rbuf), rbuf)

end RingBuffer
