import CSnippets.Native.MyString

/-!
# The string of the module

`my_string.c` of `oo_string_four` has no handle: there is one `struct my_string`, with a
buffer of fixed size in it. Its `myStringGetString` takes its copy from the heap.
-/

namespace StaticString

open MyString (Addr Heap)

/-- `STRING_BUFFER_LEN` -/
def stringBufferLen : Nat := 1000

/-- `struct my_string`; `string` has `STRING_BUFFER_LEN + 1` bytes. -/
structure OurString where
  strLen : Int
  string : List UInt8
deriving Repr, DecidableEq

/-- `our_string` before the first call -/
def ourString : OurString := { strLen := 0, string := List.replicate (stringBufferLen + 1) 0 }

/-- `myStringSetString`; there is no result where `strcpy` leaves the buffer. -/
def myStringSetString (ours : OurString) (theStringToSet : Option (List UInt8)) :
    Option (OurString × Int) :=
  match theStringToSet with
  | none => some (ours, -1)
  | some text =>
    -- a string that is too long leaves the old one
    if text.length > stringBufferLen then some (ours, -1)
    else do
      let string ← CMemory.memcpyTo ours.string 0 (text ++ [0]) (text.length + 1)
      return ({ strLen := text.length, string := string }, 0)

/-- `myStringGetString`; `ret` is what `strdup` returns. -/
def myStringGetString (heap : Heap) (ours : OurString) (ret : Option Addr) :
    Option (Heap × Option Addr) := do
  let text ← CMemory.cString ours.string
  match ret with
  | none => return (heap, none)
  | some a => return (MyString.store heap a (.bytes (text ++ [0])), some a)

/-- `myStringGetStringLen` -/
def myStringGetStringLen (ours : OurString) : Int := ours.strLen

end StaticString
