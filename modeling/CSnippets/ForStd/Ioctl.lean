import Mathlib.Logic.Function.Basic

/-!
# Request numbers of `ioctl`

`_IOC(dir, type, nr, size)` packs what a request is about into one number: the direction of
the transfer, the size of its object, the type of the device and the number of the request.
The number determines all four (`decode_encode`), so two requests are the same number
only when they agree in all of them.
-/

namespace Ioctl

/-- The arguments of `_IOC`. -/
structure Request where
  /-- Bit 0: the caller writes; bit 1: the caller reads. -/
  dir : BitVec 2
  size : BitVec 14
  type : BitVec 8
  nr : BitVec 8
deriving Repr, DecidableEq

/-- `_IOC` -/
def Request.encode (r : Request) : BitVec 32 :=
  r.dir.setWidth 32 <<< 30 ||| r.type.setWidth 32 <<< 8 ||| r.nr.setWidth 32 |||
    r.size.setWidth 32 <<< 16

/-- `_IOC_DIR`, `_IOC_SIZE`, `_IOC_TYPE` and `_IOC_NR` -/
def decode (cmd : BitVec 32) : Request :=
  { dir := (cmd >>> 30).setWidth 2
    size := (cmd >>> 16).setWidth 14
    type := (cmd >>> 8).setWidth 8
    nr := cmd.setWidth 8 }

/-- `_IO` -/
def io (type nr : BitVec 8) : BitVec 32 :=
  Request.encode { dir := 0, size := 0, type := type, nr := nr }

/-- `_IOW` -/
def iow (type nr : BitVec 8) (size : BitVec 14) : BitVec 32 :=
  Request.encode { dir := 1, size := size, type := type, nr := nr }

/-- `_IOR` -/
def ior (type nr : BitVec 8) (size : BitVec 14) : BitVec 32 :=
  Request.encode { dir := 2, size := size, type := type, nr := nr }

/-- `_IOWR` -/
def iowr (type nr : BitVec 8) (size : BitVec 14) : BitVec 32 :=
  Request.encode { dir := 3, size := size, type := type, nr := nr }

/-! ## The bits of a number -/

variable (r : Request)

/-- The direction is read back from bits 30 and 31 of the request number. -/
theorem encode_dir : (r.encode >>> 30).setWidth 2 = r.dir := by
  ext i hi
  simp [Request.encode]
  grind

/-- The size of the argument is read back from bits 16 to 29. -/
theorem encode_size : (r.encode >>> 16).setWidth 14 = r.size := by
  ext i hi
  simp [Request.encode]
  grind

/-- The type of the device is read back from bits 8 to 15. -/
theorem encode_type : (r.encode >>> 8).setWidth 8 = r.type := by
  ext i hi
  simp [Request.encode]
  grind

/-- The number of the request is read back from the lowest eight bits. -/
theorem encode_nr : r.encode.setWidth 8 = r.nr := by
  ext i hi
  simp [Request.encode]

/-- Nothing is lost. -/
theorem decode_encode : decode r.encode = r := by
  rw [decode, encode_dir, encode_size, encode_type, encode_nr]

/-- Two requests have one number only if they agree in all four fields. -/
theorem encode_inj {r r' : Request} : r.encode = r'.encode ↔ r = r' := by
  constructor
  · intro h
    rw [← decode_encode r, h, decode_encode]
  · exact congrArg Request.encode

/-- Requests of different numbers have different codes. -/
theorem encode_ne_of_nr {r r' : Request} (h : r.nr ≠ r'.nr) : r.encode ≠ r'.encode :=
  fun heq => h (congrArg Request.nr (encode_inj.mp heq))

/-- A request that reads and one that writes have different codes. -/
theorem encode_ne_of_dir {r r' : Request} (h : r.dir ≠ r'.dir) : r.encode ≠ r'.encode :=
  fun heq => h (congrArg Request.dir (encode_inj.mp heq))

end Ioctl
