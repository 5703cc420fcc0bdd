import CSnippets.Spec.RegexCorrect

/-!
# The end of the input

At the end of its input `fgets` leaves the buffer as it is, and neither loop looks at what
it returns: the last text is matched again and again, or the last pattern is entered
again. So the program ends only if it reads an empty pattern, or one that does not
compile, before its input ends.
-/

namespace Regex

open LineInput CMemory

/-- What the program is waiting for. -/
inductive Position where
  | pattern
  | text
deriving Repr, DecidableEq

variable {Compiled : Type} {lib : Library Compiled} {compiled : Compiled}

/-- Among the entries an empty pattern is read, or one that does not compile: the first of
    them is a pattern or a text, and so is the one behind an empty text. -/
def Ends (lib : Library Compiled) : Position → List (List UInt8) → Prop
  | _, [] => False
  | .pattern, pattern :: entries =>
    pattern = [] ∨ (lib.regcomp pattern).1 ≠ 0 ∨ Ends lib .text entries
  | .text, text :: entries =>
    if text = [] then Ends lib .pattern entries else Ends lib .text entries

/-- What is read from an input, line by line. -/
def entries (stdin : List UInt8) : List (List UInt8) := (pieces (size - 1) stdin).map entry

/-- The first line of an input is its first entry. -/
theorem entries_of_ne_nil {stdin : List UInt8} (h : stdin ≠ []) :
    entries stdin = entry (line (size - 1) stdin) ::
      entries (stdin.drop (line (size - 1) stdin).length) := by
  rw [entries, pieces_cons (by decide) h, List.map_cons, entries]

/-- Nothing is entered at the end of the input. -/
theorem entries_nil : entries [] = [] := by
  rw [entries, pieces, List.map_nil]

/-- A buffer that the end of the input leaves the loop with. -/
def Stuck (buf : List UInt8) : Prop :=
  cString buf = none ∨ ∃ text, cString buf = some text ∧ text ≠ [] ∧ 10 ∉ text

/-- A buffer that nothing has been read into is one of these. -/
theorem stuck_fresh : Stuck [] := .inl rfl

/-- A pattern that compiles is tried, and the loop goes on. -/
theorem mainLoop_ok {buf buf' stdin stdin' text : List UInt8} {fuel : Nat}
    {r : Outcome × List Session} (h : readText buf stdin = some (buf', text, stdin'))
    (htext : text ≠ []) (hvalid : (lib.regcomp text).1 = 0) :
    mainLoop lib (fuel + 1) buf stdin = .ok r ↔
      ∃ s r', tryMatches lib (lib.regcomp text).2 fuel [] stdin' = .ok s ∧
        mainLoop lib fuel buf' s.stdin = .ok r' ∧ r = (r'.1, s :: r'.2) := by
  simp only [mainLoop, h, if_neg htext, hvalid, ne_eq, not_true_eq_false, if_false]
  -- either loop may run out of fuel
  cases tryMatches lib (lib.regcomp text).2 fuel [] stdin' with
  | error halt => simp
  | ok s =>
    simp only [Except.ok.injEq]
    constructor
    · intro hr
      cases hrest : mainLoop lib fuel buf' s.stdin with
      | error halt =>
        rw [hrest] at hr
        cases hr
      | ok r' =>
        rw [hrest] at hr
        exact ⟨s, r', rfl, hrest, (Except.ok.inj hr).symm⟩
    · rintro ⟨s', r', rfl, hrest, rfl⟩
      simp only [hrest]

/-! ## Ending -/

/-- The texts before an empty one are matched. -/
theorem tryMatches_ends (compiled : Compiled) {stdin : List UInt8} {fuel : Nat}
    (hends : Ends lib .text (entries stdin)) (hfuel : (entries stdin).length < fuel)
    (buf : List UInt8) :
    ∃ s, tryMatches lib compiled fuel buf stdin = .ok s ∧ Ends lib .pattern (entries s.stdin) ∧
      (entries s.stdin).length < (entries stdin).length := by
  induction fuel generalizing stdin buf with
  | zero => omega
  | succ fuel ih =>
    by_cases hstdin : stdin = []
    · rw [hstdin, entries_nil] at hends
      exact hends.elim
    · rw [entries_of_ne_nil hstdin] at hends hfuel ⊢
      obtain ⟨buf', hread, -⟩ := readText_of_ne_nil hstdin buf
      generalize entry (line (size - 1) stdin) = text at hends hfuel hread ⊢
      generalize stdin.drop (line (size - 1) stdin).length = stdin' at hends hfuel hread ⊢
      rw [List.length_cons] at hfuel ⊢
      rw [Ends] at hends
      by_cases htext : text = []
      · rw [if_pos htext] at hends
        subst htext
        exact ⟨_, tryMatches_empty fuel hread, hends, Nat.lt_succ_self _⟩
      · rw [if_neg htext] at hends
        obtain ⟨s, hs, hpattern, hless⟩ := ih hends (by omega) buf'
        exact ⟨_, (tryMatches_ok hread htext).mpr ⟨s, hs, rfl⟩, hpattern, Nat.lt_succ_of_lt hless⟩

/-- When the entries end the program, the loop returns within as many rounds. -/
theorem mainLoop_ends {stdin : List UInt8} {fuel : Nat} (hends : Ends lib .pattern (entries stdin))
    (hfuel : (entries stdin).length < fuel) (buf : List UInt8) :
    ∃ r, mainLoop lib fuel buf stdin = .ok r := by
  -- a pattern takes at least its own entry
  induction fuel generalizing stdin buf with
  | zero => omega
  | succ fuel ih =>
    by_cases hstdin : stdin = []
    · rw [hstdin, entries_nil] at hends
      exact hends.elim
    · rw [entries_of_ne_nil hstdin] at hends hfuel
      obtain ⟨buf', hread, -⟩ := readText_of_ne_nil hstdin buf
      generalize entry (line (size - 1) stdin) = text at hends hfuel hread
      generalize stdin.drop (line (size - 1) stdin).length = stdin' at hends hfuel hread
      rw [List.length_cons] at hfuel
      rw [Ends] at hends
      by_cases htext : text = []
      · exact ⟨(.returned, []), by simp [mainLoop, hread, htext]⟩
      · by_cases herror : (lib.regcomp text).1 = 0
        · have htexts : Ends lib .text (entries stdin') :=
            (hends.resolve_left htext).resolve_left (not_not_intro herror)
          have hfuel' : (entries stdin').length < fuel := by omega
          -- the empty text that ends the matches is still to come
          obtain ⟨s, hs, hpattern, hless⟩ :=
            tryMatches_ends (lib.regcomp text).2 htexts hfuel' []
          obtain ⟨r, hr⟩ := ih hpattern (by omega) buf'
          exact ⟨_, (mainLoop_ok hread htext herror).mpr ⟨s, r, hs, hr, rfl⟩⟩
        · -- a pattern that does not compile ends the program
          exact ⟨(.exited (lib.regcomp text).1, []), by simp [mainLoop, hread, htext, herror]⟩

/-! ## Going on -/

/-- A call that returns has read an empty text, unless its input was already at the end. -/
theorem Stuck.tryMatches {stdin buf : List UInt8} {fuel : Nat} {s : Session} (hbuf : Stuck buf)
    (hs : tryMatches lib compiled fuel buf stdin = .ok s)
    (hends : Ends lib .pattern (entries s.stdin)) : Ends lib .text (entries stdin) := by
  induction fuel generalizing stdin buf s with
  | zero => cases hs
  | succ fuel ih =>
    by_cases hstdin : stdin = []
    · -- the last text is handed over again
      subst hstdin
      obtain hnone | ⟨text, hread, htext, h10⟩ := hbuf
      · simp [Regex.tryMatches, readText_uninitialised hnone] at hs
      · rw [tryMatches_ok (readText_nil hread h10) htext] at hs
        obtain ⟨s', hs', rfl⟩ := hs
        exact ih (.inr ⟨text, hread, htext, h10⟩) hs' hends
    · obtain ⟨buf', hread, hbuf'⟩ := readText_of_ne_nil hstdin buf
      have h10 := newline_not_mem_entry (line (size - 1) stdin)
      rw [entries_of_ne_nil hstdin, Ends]
      generalize entry (line (size - 1) stdin) = text at hread hbuf' h10
      by_cases htext : text = []
      · subst htext
        rw [tryMatches_empty fuel hread, Except.ok.injEq] at hs
        subst hs
        rw [if_pos rfl]
        exact hends
      · rw [if_neg htext]
        rw [tryMatches_ok hread htext] at hs
        obtain ⟨s', hs', rfl⟩ := hs
        exact ih (.inr ⟨text, hbuf', htext, h10⟩) hs' hends

/-- The buffer holds no pattern that the program would leave. -/
theorem ends_of_mainLoop {stdin buf : List UInt8} {fuel : Nat} {r : Outcome × List Session}
    (hbuf : cString buf = none ∨ ∃ pattern, cString buf = some pattern ∧ pattern ≠ [] ∧
      10 ∉ pattern ∧ (lib.regcomp pattern).1 = 0)
    (hr : mainLoop lib fuel buf stdin = .ok r) : Ends lib .pattern (entries stdin) := by
  induction fuel generalizing stdin buf r with
  | zero => cases hr
  | succ fuel ih =>
    by_cases hstdin : stdin = []
    · -- the last pattern is entered again
      subst hstdin
      obtain hnone | ⟨pattern, hread, hpattern, h10, hvalid⟩ := hbuf
      · simp [mainLoop, readText_uninitialised hnone] at hr
      · rw [mainLoop_ok (readText_nil hread h10) hpattern hvalid] at hr
        obtain ⟨s, r', hs, hr', -⟩ := hr
        have hrest := ih (.inr ⟨pattern, hread, hpattern, h10, hvalid⟩) hr'
        have htexts := stuck_fresh.tryMatches hs hrest
        rw [entries_nil, Ends] at htexts
        exact htexts.elim
    · obtain ⟨buf', hread, hbuf'⟩ := readText_of_ne_nil hstdin buf
      have h10 := newline_not_mem_entry (line (size - 1) stdin)
      rw [entries_of_ne_nil hstdin, Ends]
      generalize entry (line (size - 1) stdin) = pattern at hread hbuf' h10
      by_cases hpattern : pattern = []
      · exact .inl hpattern
      · by_cases hvalid : (lib.regcomp pattern).1 = 0
        · rw [mainLoop_ok hread hpattern hvalid] at hr
          obtain ⟨s, r', hs, hr', -⟩ := hr
          have hrest := ih (.inr ⟨pattern, hbuf', hpattern, h10, hvalid⟩) hr'
          exact .inr (.inr (stuck_fresh.tryMatches hs hrest))
        · exact .inr (.inl hvalid)

/-- The program ends, by returning or by `exit`, if and only if it reads an empty pattern or
    one that does not compile before its input is at the end. -/
theorem main_ends_iff (lib : Library Compiled) (stdin : List UInt8) :
    (∃ fuel r, main lib fuel stdin = .ok r) ↔ Ends lib .pattern (entries stdin) := by
  constructor
  · rintro ⟨fuel, r, hr⟩
    exact ends_of_mainLoop (.inl rfl) hr
  · intro hends
    exact ⟨_, mainLoop_ends hends (Nat.lt_succ_self _) []⟩

/-- The pattern "a", the text "a", and no empty line behind it. -/
theorem last_text_matched_forever :
    ¬ ∃ fuel r, main letters fuel [97, 10, 97, 10] = .ok r := by
  rintro ⟨fuel, r, hr⟩
  have hends := ends_of_mainLoop (.inl rfl) hr
  have hentries : entries [97, 10, 97, 10] = [[97], [97]] := by
    simp [entries, pieces, line, size, entry]
  rw [hentries] at hends
  simp [Ends, letters] at hends

end Regex
