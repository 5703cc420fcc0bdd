import Mathlib.Logic.Function.Basic
import CSnippets.ForStd.CMemory

/-!
# String objects

`my_string.c` of `oo_string_two` and `oo_string_three`, which differ in the type of the
handle and in `myStringGetStringLength`, which only the latter has. What an allocation
returns is an argument: the address of the block, or `none` when it fails.
-/

namespace MyString

/-- Addresses of blocks. -/
abbrev Addr := Nat

/-- What lies at an address: a `struct my_string` or an array of bytes. -/
inductive Block where
  | object (strLen : Int) (string : Option Addr)
  | bytes (content : List UInt8)
deriving Repr, DecidableEq

/-- The blocks that are allocated. -/
abbrev Heap := Addr → Option Block

/-- What is stored at an address. -/
def store (heap : Heap) (a : Addr) (block : Block) : Heap := Function.update heap a (some block)

/-- `free` -/
def free (heap : Heap) (a : Addr) : Heap := Function.update heap a none

/-- Read the `struct my_string` at `h`. -/
def load (heap : Heap) (h : Addr) : Option (Int × Option Addr) :=
  match heap h with
  | some (.object strLen string) => some (strLen, string)
  | some (.bytes _) => none
  | none => none

/-- Read the bytes at a pointer. -/
def loadBytes (heap : Heap) (p : Option Addr) : Option (List UInt8) := do
  let p ← p
  match heap p with
  | some (.bytes content) => some content
  | some (.object _ _) => none
  | none => none

/-- A `const char *`: into memory that no allocator of the heap has given, such as a
    literal, with the bytes from there on; or `offset` bytes into a block of the heap, such
    as the string of an object or a copy of one. -/
inductive CharPtr where
  | outside (bytes : List UInt8)
  | inside (block : Addr) (offset : Nat)
deriving Repr, DecidableEq

/-- The block of the heap that a pointer lies in. -/
def CharPtr.block : CharPtr → Option Addr
  | .outside _ => none
  | .inside block _ => some block

/-- The string at a pointer. -/
def readString (heap : Heap) : CharPtr → Option (List UInt8)
  | .outside bytes => CMemory.cString bytes
  | .inside block offset => do
    let content ← loadBytes heap (some block)
    CMemory.cString (content.drop offset)

/-- `strlen(source)` -/
def strlen (heap : Heap) (source : CharPtr) : Option Nat :=
  (readString heap source).map List.length

/-- The `n` bytes at `source` and the `n` bytes at `p` have bytes in common. -/
def Overlap (source : CharPtr) (p : Addr) (n : Nat) : Prop :=
  match source with
  | .outside _ => False
  | .inside block offset => block = p ∧ offset < n

instance (source : CharPtr) (p : Addr) (n : Nat) : Decidable (Overlap source p n) :=
  match source with
  | .outside _ => .isFalse id
  | .inside block offset => inferInstanceAs (Decidable (block = p ∧ offset < n))

/-- `strcpy(p, source)`, undefined when the two overlap. -/
def strcpy (heap : Heap) (p : Addr) (source : CharPtr) : Option Heap := do
  let text ← readString heap source
  if Overlap source p (text.length + 1) then none
  else
    let content ← loadBytes heap (some p)
    let content ← CMemory.memcpyTo content 0 (text ++ [0]) (text.length + 1)
    return store heap p (.bytes content)

/-- `realloc(p, n)`; bytes that are new are `fill`. When it fails the old block stays. -/
def realloc (heap : Heap) (p : Option Addr) (n : Nat) (ret : Option Addr) (fill : UInt8) :
    Option (Heap × Option Addr) := do
  match p with
  | none =>
    match ret with
    | none => return (heap, none)
    | some a => return (store heap a (.bytes (List.replicate n fill)), some a)
  | some p =>
    -- a block that was given back is not one to move
    let old ← loadBytes heap (some p)
    match ret with
    | none => return (heap, none)
    | some a =>
      -- the front of the old block moves along
      let content := old.take n ++ List.replicate (n - old.length) fill
      return (store (free heap p) a (.bytes content), some a)

/-- `myStringInit`; `obj` and `str` are what its two `calloc` return. -/
def myStringInit (heap : Heap) (theString : CharPtr) (obj str : Option Addr) :
    Option (Heap × Option Addr) := do
  match obj with
  | none => return (heap, none)
  | some ret =>
    -- `calloc` zeroes the object
    let heap := store heap ret (.object 0 none)
    let strLen ← strlen heap theString
    let heap := store heap ret (.object strLen none)
    match str with
    -- no room for the string: the object is given back
    | none => return (free heap ret, none)
    | some p =>
      let heap := store heap p (.bytes (List.replicate (strLen + 1) 0))
      let heap := store heap ret (.object strLen (some p))
      let heap ← strcpy heap p theString
      return (heap, some ret)

/-- `myStringSetString`; `ret` and `fill` are those of its `realloc`. The string is
    measured before the old block is given to `realloc`, and copied after. -/
def myStringSetString (heap : Heap) (st : Addr) (theString : Option CharPtr)
    (ret : Option Addr) (fill : UInt8) : Option (Heap × Int) := do
  match theString with
  | none => return (heap, -1)
  | some source =>
    let (_, string) ← load heap st
    let strLen ← strlen heap source
    let heap := store heap st (.object strLen string)
    let (heap, string) ← realloc heap string (strLen + 1) ret fill
    let heap := store heap st (.object strLen string)
    match string with
    -- the object is freed here too, though the caller goes on using it
    | none => return (free heap st, -1)
    | some p =>
      let heap ← strcpy heap p source
      return (heap, 0)

/-- `myStringGetString`; `ret` is what `strdup` returns. -/
def myStringGetString (heap : Heap) (st : Addr) (ret : Option Addr) :
    Option (Heap × Option Addr) := do
  let (_, string) ← load heap st
  let content ← loadBytes heap string
  let text ← CMemory.cString content
  match ret with
  | none => return (heap, none)
  | some a => return (store heap a (.bytes (text ++ [0])), some a)

/-- `myStringGetStringLength` -/
def myStringGetStringLength (heap : Heap) (st : Addr) : Option Int := do
  let (strLen, _) ← load heap st
  return strLen

/-! ## Runs -/

/-- The heap, and the string of the last successful init or set of each object: what its
    argument pointed to when the call began. -/
structure State where
  heap : Heap
  values : Addr → Option (List UInt8)

/-- The calls, with what `malloc` and `realloc` return. -/
inductive Event where
  | init (theString : CharPtr) (obj str : Option Addr)
  | set (st : Addr) (theString : Option CharPtr) (ret : Option Addr) (fill : UInt8)
  | get (st : Addr) (ret : Option Addr)
  | length (st : Addr)
deriving Repr, DecidableEq

/-- One call; it is undefined where the code is. -/
def step (s : State) : Event → Option State
  | .init theString obj str => do
    let (heap, ret) ← myStringInit s.heap theString obj str
    match ret with
    | none => return { s with heap := heap }
    | some st =>
      return { heap := heap, values := Function.update s.values st (readString s.heap theString) }
  | .set st theString ret fill => do
    let (heap, err) ← myStringSetString s.heap st theString ret fill
    -- a call that fails gives the object no new string
    if err = 0 then
      -- the argument points to it before the call, which may move it
      let value := theString.bind (readString s.heap)
      return { heap := heap, values := Function.update s.values st value }
    else return { s with heap := heap }
  | .get st ret => do
    let (heap, _) ← myStringGetString s.heap st ret
    return { s with heap := heap }
  | .length st => do
    let _ ← myStringGetStringLength s.heap st
    return s

end MyString
