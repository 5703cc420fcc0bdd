import CSnippets.ForStd.LineInput

/-!
# Regular expressions

`regex`: `main` reads a pattern, and `try_matches` reads texts and matches them with it,
until an empty line. A buffer is the bytes that were written to its front; what lies
behind them was never given a value, and a string that goes on there has no result. What
`regcomp` and `regexec` say is the `Library`.
-/

namespace Regex

/-- `sizeof(pattern)` and `sizeof(test_pattern)` -/
def size : Nat := 1024

/-- `REG_NOMATCH` -/
def regNoMatch : Int := 1

/-- The functions of `regex.h`, whatever they do. -/
structure Library (Compiled : Type) where
  /-- `regcomp` with `REG_EXTENDED`: the error and the compiled pattern -/
  regcomp : List UInt8 → Int × Compiled
  /-- `regexec`: the error and, after a match, `rm_so` and `rm_eo` -/
  regexec : Compiled → List UInt8 → Int × Nat × Nat

/-- Why a call has no result. -/
inductive Halt where
  /-- the loop does not end within the number of rounds given -/
  | endless
  | uninitialised
deriving Repr, DecidableEq

/-- What is printed about a text: the substring found and its positions, "NO MATCH" or
    "REGEX FAILED!". -/
inductive Report where
  | found (substring : List UInt8) (first last : Int)
  | noMatch
  | failed
deriving Repr, DecidableEq

/-- What `try_matches` has done when it returns: the texts it has passed to `regexec`, what
    it has printed about them, and what is left of the standard input. -/
structure Session where
  calls : List (List UInt8)
  reports : List Report
  stdin : List UInt8
deriving Repr, DecidableEq

/-- How the program ends. -/
inductive Outcome where
  /-- `return 0` -/
  | returned
  /-- `exit(error)` -/
  | exited (error : Int)
deriving Repr, DecidableEq

/-- `chomp`: a newline at the end is overwritten. -/
def chomp (s : List UInt8) : Option (List UInt8) := do
  let text ← CMemory.cString s
  if text.getLast? = some 10 then return s.set (text.length - 1) 0 else return s

/-- The head of both loops, `fgets`, `chomp` and `strlen`: the buffer, its string and what is
    left of the input. -/
def readText (buf stdin : List UInt8) : Option (List UInt8 × List UInt8 × List UInt8) := do
  let (buf, stdin) := LineInput.fgets (size - 1) buf stdin
  let buf ← chomp buf
  let text ← CMemory.cString buf
  return (buf, text, stdin)

/-- What is printed after `regexec` -/
def report (text : List UInt8) (error : Int) (rmSo rmEo : Nat) : Report :=
  -- the positions printed are those of the first and the last character
  if error = 0 then .found ((text.drop rmSo).take (rmEo - rmSo)) rmSo (rmEo - 1)
  else if error = regNoMatch then .noMatch else .failed

variable {Compiled : Type}

/-- The loop of `try_matches`, with `fuel` for its rounds -/
def tryMatches (lib : Library Compiled) (compiled : Compiled) :
    Nat → List UInt8 → List UInt8 → Except Halt Session
  | 0, _, _ => .error .endless
  | fuel + 1, testPattern, stdin =>
    match readText testPattern stdin with
    | none => .error .uninitialised
    | some (testPattern, text, stdin) =>
      -- the empty line ends the loop
      if text = [] then .ok { calls := [], reports := [], stdin := stdin }
      else
        let (error, rmSo, rmEo) := lib.regexec compiled text
        match tryMatches lib compiled fuel testPattern stdin with
        | .error halt => .error halt
        | .ok s =>
          .ok { s with
            calls := text :: s.calls
            reports := report text error rmSo rmEo :: s.reports }

/-- The loop of `main`. Nothing was written to the buffer of a call of `try_matches` yet. -/
def mainLoop (lib : Library Compiled) :
    Nat → List UInt8 → List UInt8 → Except Halt (Outcome × List Session)
  | 0, _, _ => .error .endless
  | fuel + 1, pattern, stdin =>
    match readText pattern stdin with
    | none => .error .uninitialised
    | some (pattern, text, stdin) =>
      -- the empty line ends the program
      if text = [] then .ok (.returned, [])
      else
        let (error, compiled) := lib.regcomp text
        -- `exit(error)`
        if error ≠ 0 then .ok (.exited error, [])
        else
          match tryMatches lib compiled fuel [] stdin with
          | .error halt => .error halt
          | .ok s =>
            match mainLoop lib fuel pattern s.stdin with
            | .error halt => .error halt
            | .ok (outcome, sessions) => .ok (outcome, s :: sessions)

/-- `main` -/
def main (lib : Library Compiled) (fuel : Nat) (stdin : List UInt8) :
    Except Halt (Outcome × List Session) :=
  mainLoop lib fuel [] stdin

end Regex
