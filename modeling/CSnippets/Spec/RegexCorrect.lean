import CSnippets.Native.Regex

/-!
# Lines handed to the matcher

`try_matches` reads its lines through a buffer of 1024 bytes. A line of up to 1022 bytes
fits with its newline and is handed to `regexec` as a whole. Of a line of 1023 bytes the
newline is left behind, which is read as an empty line and ends the loop; longer lines
come in several pieces.
-/

namespace Regex

open LineInput CMemory

/-- What is left of a piece of the input once it is read as a string and chomped. -/
def entry (piece : List UInt8) : List UInt8 := piece.takeWhile fun b => b != 0 && b != 10

/-- The newline is cut off. -/
theorem newline_not_mem_entry (piece : List UInt8) : 10 ∉ entry piece := by
  induction piece with
  | nil => exact List.not_mem_nil
  | cons b piece ih =>
    rw [entry, List.takeWhile_cons]
    split
    · rename_i hb
      have hb10 : b ≠ 10 := by simp_all
      rw [List.mem_cons, not_or]
      exact ⟨Ne.symm hb10, ih⟩
    · exact List.not_mem_nil

/-- The entry ends at a NUL, at a newline or with the piece. -/
theorem entry_append {text : List UInt8} (h0 : 0 ∉ text) (h10 : 10 ∉ text) (rest : List UInt8) :
    entry (text ++ rest) = text ++ entry rest := by
  rw [entry, entry, List.takeWhile_append_of_pos]
  intro b hb
  have hb0 : b ≠ 0 := ne_of_mem_of_not_mem hb h0
  have hb10 : b ≠ 10 := ne_of_mem_of_not_mem hb h10
  simp [hb0, hb10]

/-- A text without a newline is entered as it is. -/
theorem entry_text {text : List UInt8} (h0 : 0 ∉ text) (h10 : 10 ∉ text) : entry text = text := by
  have h := entry_append h0 h10 []
  rwa [List.append_nil, show entry [] = [] from rfl, List.append_nil] at h

/-- A line is entered without its newline. -/
theorem entry_line {text : List UInt8} (h0 : 0 ∉ text) (h10 : 10 ∉ text) :
    entry (text ++ [10]) = text := by
  rw [entry_append h0 h10, show entry [10] = [] from rfl, List.append_nil]

/-- What follows a NUL is not entered. -/
theorem entry_nul {text : List UInt8} (h0 : 0 ∉ text) (h10 : 10 ∉ text) (rest : List UInt8) :
    entry (text ++ 0 :: rest) = text := by
  have hnul : entry (0 :: rest) = [] := by simp [entry]
  rw [entry_append h0 h10, hnul, List.append_nil]

/-- Without a newline there is nothing to strip. -/
theorem chomp_of_not_mem {s text : List UInt8} (hs : cString s = some text) (h10 : 10 ∉ text) :
    chomp s = some s := by
  have hlast : text.getLast? ≠ some 10 := fun h => h10 (List.mem_of_getLast? h)
  simp [chomp, hs, hlast]

/-- The buffer after a piece was read into it. -/
theorem chomp_piece {piece front : List UInt8} (h10 : 10 ∉ front)
    (hpiece : piece = front ∨ piece = front ++ [10]) (rest : List UInt8) :
    ∃ buf, chomp (piece ++ 0 :: rest) = some buf ∧ cString buf = some (entry piece) := by
  by_cases h0 : 0 ∈ front
  · -- the string ends before the newline
    obtain ⟨text, tail, rfl, htext⟩ := List.eq_append_cons_of_mem h0
    rw [List.mem_append, not_or] at h10
    have hread (more : List UInt8) : cString (text ++ 0 :: more) = some text :=
      cString_eq_some.mpr ⟨htext, more, rfl⟩
    rcases hpiece with rfl | rfl
    · rw [entry_nul htext h10.1, List.append_assoc, List.cons_append]
      exact ⟨_, chomp_of_not_mem (hread _) h10.1, hread _⟩
    · simp only [List.append_assoc, List.cons_append]
      rw [entry_nul htext h10.1]
      exact ⟨_, chomp_of_not_mem (hread _) h10.1, hread _⟩
  · rcases hpiece with rfl | rfl
    · -- no newline was read
      have hread : cString (piece ++ 0 :: rest) = some piece :=
        cString_eq_some.mpr ⟨h0, rest, rfl⟩
      rw [entry_text h0 h10]
      exact ⟨_, chomp_of_not_mem hread h10, hread⟩
    · -- the newline becomes the terminator
      have hnul : 0 ∉ front ++ [10] := by simp [h0]
      have hread : cString (front ++ [10] ++ 0 :: rest) = some (front ++ [10]) :=
        cString_eq_some.mpr ⟨hnul, rest, rfl⟩
      have hset : (front ++ [10] ++ 0 :: rest).set front.length 0 = front ++ 0 :: 0 :: rest := by
        simp
      rw [entry_line h0 h10]
      refine ⟨front ++ 0 :: 0 :: rest, ?_, cString_eq_some.mpr ⟨h0, 0 :: rest, rfl⟩⟩
      simp only [chomp, hread, Option.bind_eq_bind, Option.bind_some, List.getLast?_concat,
        if_pos, List.length_append, List.length_singleton, Nat.add_sub_cancel, hset,
        Option.pure_def]

/-- One line read from what is left of the input. -/
theorem readText_of_ne_nil {stdin : List UInt8} (hstdin : stdin ≠ []) (buf : List UInt8) :
    ∃ buf', readText buf stdin =
        some (buf', entry (line (size - 1) stdin), stdin.drop (line (size - 1) stdin).length) ∧
      cString buf' = some (entry (line (size - 1) stdin)) := by
  obtain ⟨front, h10, hpiece⟩ := line_shape (size - 1) stdin
  have hbuf := chomp_piece h10 hpiece (buf.drop (line (size - 1) stdin ++ [0]).length)
  obtain ⟨buf', hchomp, hread⟩ := hbuf
  refine ⟨buf', ?_, hread⟩
  simp only [readText, fgets, if_neg hstdin, splice_zero, List.append_assoc, List.singleton_append,
    hchomp, hread, Option.bind_eq_bind, Option.bind_some, Option.pure_def]

/-- At the end of the input the buffer is read again. -/
theorem readText_nil {buf text : List UInt8} (hbuf : cString buf = some text) (h10 : 10 ∉ text) :
    readText buf [] = some (buf, text, []) := by
  simp [readText, fgets, chomp_of_not_mem hbuf h10, hbuf]

/-- At the end of the input an uninitialised buffer has no text. -/
theorem readText_uninitialised {buf : List UInt8} (hbuf : cString buf = none) :
    readText buf [] = none := by
  simp [readText, fgets, chomp, hbuf]

variable {Compiled : Type} {lib : Library Compiled} {compiled : Compiled}

/-- An empty text ends the loop. -/
theorem tryMatches_empty {buf buf' stdin stdin' : List UInt8} (fuel : Nat)
    (h : readText buf stdin = some (buf', [], stdin')) :
    tryMatches lib compiled (fuel + 1) buf stdin =
      .ok { calls := [], reports := [], stdin := stdin' } := by
  simp [tryMatches, h]

/-- A text that is not empty is handed over, and the loop goes on. -/
theorem tryMatches_ok {buf buf' stdin stdin' text : List UInt8} {fuel : Nat} {s : Session}
    (h : readText buf stdin = some (buf', text, stdin')) (htext : text ≠ []) :
    tryMatches lib compiled (fuel + 1) buf stdin = .ok s ↔
      ∃ s', tryMatches lib compiled fuel buf' stdin' = .ok s' ∧
        s = { calls := text :: s'.calls
              reports := report text (lib.regexec compiled text).1 (lib.regexec compiled text).2.1
                (lib.regexec compiled text).2.2 :: s'.reports
              stdin := s'.stdin } := by
  simp only [tryMatches, h, if_neg htext]
  cases tryMatches lib compiled fuel buf' stdin' with
  | error halt => simp
  | ok s' =>
    simp only [Except.ok.injEq, exists_eq_left']
    exact eq_comm

/-! ## Whole lines -/

/-- The lines, an empty line and what comes after it. -/
def input (lines : List (List UInt8)) (rest : List UInt8) : List UInt8 :=
  lines.flatMap (· ++ [10]) ++ 10 :: rest

/-- The lines are handed to `regexec` once each, in order and as a whole, and the call
    returns with the empty line read. -/
def HandsOver (lib : Library Compiled) (compiled : Compiled) (buf : List UInt8)
    (lines : List (List UInt8)) (rest : List UInt8) : Prop :=
  ∃ fuel s, tryMatches lib compiled fuel buf (input lines rest) = .ok s ∧
    s.calls = lines ∧ s.stdin = rest

/-- The input starts with the first line. -/
theorem input_cons (l : List UInt8) (lines : List (List UInt8)) (rest : List UInt8) :
    input (l :: lines) rest = l ++ 10 :: input lines rest := by
  simp [input]

/-- The empty line is read. -/
theorem readText_newline (buf rest : List UInt8) :
    ∃ buf', readText buf (10 :: rest) = some (buf', [], rest) := by
  have hline : line (size - 1) (10 :: rest) = [10] := by simp [line, size]
  obtain ⟨buf', hread, -⟩ := readText_of_ne_nil (List.cons_ne_nil 10 rest) buf
  rw [hline] at hread
  exact ⟨buf', hread⟩

/-- A line that fits is read with its newline. -/
theorem readText_short {l : List UInt8} (h0 : 0 ∉ l) (h10 : 10 ∉ l) (hlen : l.length ≤ 1022)
    (buf rest : List UInt8) : ∃ buf', readText buf (l ++ 10 :: rest) = some (buf', l, rest) := by
  have hline : line (size - 1) (l ++ 10 :: rest) = l ++ [10] :=
    line_of_lt h10 (by show l.length < 1023; omega)
  obtain ⟨buf', hread, -⟩ := readText_of_ne_nil (by simp : l ++ 10 :: rest ≠ []) buf
  rw [hline, entry_line h0 h10, show l ++ 10 :: rest = l ++ [10] ++ rest by simp,
    List.drop_left] at hread
  rw [show l ++ 10 :: rest = l ++ [10] ++ rest by simp]
  exact ⟨buf', hread⟩

/-- Of a longer line the front is read. -/
theorem readText_long {l : List UInt8} (h0 : 0 ∉ l) (h10 : 10 ∉ l) (hlen : 1022 < l.length)
    (buf rest : List UInt8) :
    ∃ buf', readText buf (l ++ 10 :: rest) =
      some (buf', l.take 1023, l.drop 1023 ++ 10 :: rest) := by
  have hline : line (size - 1) (l ++ 10 :: rest) = l.take 1023 :=
    line_of_le h10 (by show 1023 ≤ l.length; omega)
  have h0' : 0 ∉ l.take 1023 := fun h => h0 (List.mem_of_mem_take h)
  have h10' : 10 ∉ l.take 1023 := fun h => h10 (List.mem_of_mem_take h)
  have hlen' : (l.take 1023).length = 1023 := by
    rw [List.length_take]
    omega
  obtain ⟨buf', hread, -⟩ := readText_of_ne_nil (by simp : l ++ 10 :: rest ≠ []) buf
  rw [hline, entry_text h0' h10', hlen', List.drop_append_of_le_length (by omega)] at hread
  exact ⟨buf', hread⟩

/-- A line that fits is handed over and leaves the others to be. -/
theorem handsOver_short {l : List UInt8} (h0 : 0 ∉ l) (h10 : 10 ∉ l) (hne : l ≠ [])
    (hlen : l.length ≤ 1022) (buf : List UInt8) (lines : List (List UInt8)) (rest : List UInt8) :
    ∃ buf', HandsOver lib compiled buf (l :: lines) rest ↔
      HandsOver lib compiled buf' lines rest := by
  obtain ⟨buf', hread⟩ := readText_short h0 h10 hlen buf (input lines rest)
  refine ⟨buf', ?_⟩
  rw [HandsOver, input_cons]
  constructor
  · rintro ⟨fuel, s, hs, hcalls, hstdin⟩
    cases fuel with
    | zero => cases hs
    | succ fuel =>
      -- the first call of `regexec` is that for `l`
      rw [tryMatches_ok hread hne] at hs
      obtain ⟨s', hs', rfl⟩ := hs
      exact ⟨fuel, s', hs', (List.cons.inj hcalls).2, hstdin⟩
  · rintro ⟨fuel, s', hs', hcalls, hstdin⟩
    exact ⟨fuel + 1, _, (tryMatches_ok hread hne).mpr ⟨s', hs', rfl⟩, by rw [hcalls], hstdin⟩

/-- A longer line is either handed over in pieces or followed by an empty one that was not
    in the input. -/
theorem not_handsOver_long {l : List UInt8} (h0 : 0 ∉ l) (h10 : 10 ∉ l) (hlen : 1022 < l.length)
    (buf : List UInt8) (lines : List (List UInt8)) (rest : List UInt8) :
    ¬ HandsOver lib compiled buf (l :: lines) rest := by
  obtain ⟨buf', hread⟩ := readText_long h0 h10 hlen buf (input lines rest)
  have htake : (l.take 1023).length = 1023 := by
    rw [List.length_take]
    omega
  have hne : l.take 1023 ≠ [] := by
    rw [← List.length_pos_iff]
    omega
  rw [HandsOver, input_cons]
  rintro ⟨fuel, s, hs, hcalls, hstdin⟩
  cases fuel with
  | zero => cases hs
  | succ fuel =>
    rw [tryMatches_ok hread hne] at hs
    obtain ⟨s', hs', rfl⟩ := hs
    -- if the first call had the whole line, only its newline is left behind
    have hfront : l.take 1023 = l := (List.cons.inj hcalls).1
    have hwhole : l.length = 1023 := by rw [← htake, hfront]
    rw [List.drop_of_length_le (by omega), List.nil_append] at hs'
    obtain ⟨buf'', hempty⟩ := readText_newline buf' (input lines rest)
    cases fuel with
    | zero => cases hs'
    | succ fuel =>
      rw [tryMatches_empty fuel hempty, Except.ok.injEq] at hs'
      subst hs'
      -- the loop has returned before the empty line that the input has
      have hlong := congrArg List.length (show input lines rest = rest from hstdin)
      simp only [input, List.length_append, List.length_cons] at hlong
      omega

/-- Lines that are not empty and hold no NUL, with an empty one behind them: each is handed
    to `regexec` once and as a whole, and the call returns when it reads the empty line, if
    and only if none of them is longer than 1022 bytes. -/
theorem try_matches_hands_over_iff (lib : Library Compiled) (compiled : Compiled)
    (lines : List (List UInt8)) (hlines : ∀ l ∈ lines, l ≠ [] ∧ 0 ∉ l ∧ 10 ∉ l)
    (buf rest : List UInt8) :
    HandsOver lib compiled buf lines rest ↔ ∀ l ∈ lines, l.length ≤ 1022 := by
  induction lines generalizing buf with
  | nil =>
    obtain ⟨buf', hread⟩ := readText_newline buf rest
    refine iff_of_true ⟨1, _, tryMatches_empty 0 hread, rfl, rfl⟩ ?_
    exact fun l hl => absurd hl List.not_mem_nil
  | cons l lines ih =>
    rw [List.forall_mem_cons] at hlines
    obtain ⟨⟨hne, h0, h10⟩, hlines⟩ := hlines
    rw [List.forall_mem_cons]
    by_cases hlen : l.length ≤ 1022
    · obtain ⟨buf', hrest⟩ := handsOver_short h0 h10 hne hlen buf lines rest
      rw [hrest, ih hlines]
      exact (and_iff_right hlen).symm
    · apply iff_of_false
      · exact not_handsOver_long h0 h10 (by omega) buf lines rest
      · exact fun h => hlen h.1

/-- The library on patterns of letters, which match where they occur. -/
def letters : Library (List UInt8) where
  regcomp pattern := (0, pattern)
  regexec pattern text :=
    match (List.range (text.length + 1)).find? (fun i => pattern.isPrefixOf (text.drop i)) with
    | some i => (0, i, i + pattern.length)
    | none => (regNoMatch, 0, 0)

/-- Two texts and an empty line: both texts are handed over. -/
theorem try_matches_hands_over_two : HandsOver letters [97] [] [[97, 98], [99]] [100] := by
  apply (try_matches_hands_over_iff letters [97] [[97, 98], [99]] (by decide) [] [100]).mpr
  decide

/-- Behind a line of 1023 bytes an empty one is read that is not there. -/
theorem newline_left_behind : ¬ HandsOver letters [97] [] [List.replicate 1023 97] [] := by
  apply not_handsOver_long
  · exact fun h => absurd (List.eq_of_mem_replicate h) (by decide)
  · exact fun h => absurd (List.eq_of_mem_replicate h) (by decide)
  · rw [List.length_replicate]
    omega

end Regex
