import CSnippets.ForStd.CMemory

/-!
# Numbers in any base

`recursive_function`: `anybase` appends the digits of a number to a string. The quotient
and the remainder are those of C, which round towards zero.
-/

namespace AnyBase

/-- `BUFFER_SIZE` -/
def bufferSize : Nat := 200

/-- `selection` with its terminator -/
def selection : List UInt8 := "0123456789ABCEDFGHIGKLMNOPQRSTUVWXYZ".toUTF8.data.toList ++ [0]

/-- Why a call has no result. -/
inductive Halt where
  /-- the recursion does not end within the depth given -/
  | endless
  | divideByZero
  /-- a pointer outside of `selection` -/
  | outOfTable
  /-- a string that leaves its buffer -/
  | outOfBuffer
deriving Repr, DecidableEq

/-- The buffer, and what was done so far: the indices into `selection` that were used, and
    the `s`, `n` and `b` that were printed, oldest first. -/
structure State where
  s : List UInt8
  indices : List Int
  printed : List (List UInt8 × Int × Int)
deriving Repr, DecidableEq

/-- Nothing has been written or printed. -/
def start (s : List UInt8) : State := { s := s, indices := [], printed := [] }

/-- What follows the recursive call: `strncat(&s[strlen(s)], &selection[n % b], 1)`, which
    appends to `s`, and `printf`. -/
def append (n b : Int) (st : State) : Except Halt State :=
  let index := n.tmod b
  -- the remainder has the sign of `n`, and may lie in front of the table
  if 0 ≤ index ∧ index < selection.length then
    -- one character is copied, and a terminator behind it
    match CMemory.strncat st.s (selection.drop index.toNat) 1 with
    | none => .error .outOfBuffer
    | some s =>
      match CMemory.cString s with
      | none => .error .outOfBuffer
      | some text =>
        .ok { s := s, indices := st.indices ++ [index], printed := st.printed ++ [(text, n, b)] }
  else .error .outOfTable

/-- `anybase`, with `fuel` for the depth of the recursion -/
def anybase : Nat → Int → Int → State → Except Halt State
  | 0, _, _, _ => .error .endless
  | fuel + 1, n, b, st =>
    -- the recursion stops at 0, for which nothing is written
    if n ≠ 0 then
      if b = 0 then .error .divideByZero
      else
        -- the digits of the quotient come first
        match anybase fuel (n.tdiv b) b st with
        | .error halt => .error halt
        | .ok st => append n b st
    else .ok st

/-- `main`: what it prints last is the buffer with the two constants of its `printf`. -/
def main (fuel : Nat) : Except Halt (State × List UInt8 × Int × Int) :=
  match anybase fuel 900000 18 (start (List.replicate bufferSize 0)) with
  | .error halt => .error halt
  | .ok st =>
    match CMemory.cString st.s with
    | none => .error .outOfBuffer
    | some buf => .ok (st, buf, 90000, 18)

end AnyBase
