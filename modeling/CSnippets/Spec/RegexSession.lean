import CSnippets.Spec.RegexTermination

/-!
# What a session prints

The entries of an input, read one after the other, are blocks: a pattern, the texts to be
matched with it, and an empty text. An empty pattern or one that does not compile ends the
program. The loops of `main` and `try_matches` are exactly the readers of this format: the
program ends on an input if and only if its entries are of this form, and what is printed
about a text is what `regexec` says about this text and the pattern of its block.
-/

namespace Regex

open LineInput CMemory

variable {Compiled : Type} {lib : Library Compiled} {compiled : Compiled}
  {es rest texts : List (List UInt8)} {outcome outcome' : Outcome}
  {blocks blocks' : List (List (List UInt8) × List Report)}

/-- What is printed about a text. -/
def answer (lib : Library Compiled) (compiled : Compiled) (text : List UInt8) : Report :=
  report text (lib.regexec compiled text).1 (lib.regexec compiled text).2.1
    (lib.regexec compiled text).2.2

/-- The entries are blocks up to the one that ends the program: how it ends, and the texts of
    each block with what is printed about them. -/
inductive Plays (lib : Library Compiled) : List (List UInt8) → Outcome →
    List (List (List UInt8) × List Report) → Prop where
  | stop {rest : List (List UInt8)} : Plays lib ([] :: rest) .returned []
  | invalid {pattern : List UInt8} {rest : List (List UInt8)} (hpattern : pattern ≠ [])
      (herror : (lib.regcomp pattern).1 ≠ 0) :
      Plays lib (pattern :: rest) (.exited (lib.regcomp pattern).1) []
  | block {pattern : List UInt8} {texts rest : List (List UInt8)} {outcome : Outcome}
      {blocks : List (List (List UInt8) × List Report)} (hpattern : pattern ≠ [])
      (hvalid : (lib.regcomp pattern).1 = 0) (htexts : [] ∉ texts)
      (hrest : Plays lib rest outcome blocks) :
      Plays lib (pattern :: (texts ++ [] :: rest)) outcome
        ((texts, texts.map (answer lib (lib.regcomp pattern).2)) :: blocks)

/-! ## One reading only -/

/-- The first empty entry ends the texts. -/
theorem texts_unique {texts' rest' : List (List UInt8)} (htexts : [] ∉ texts)
    (htexts' : [] ∉ texts') (h : texts ++ [] :: rest = texts' ++ [] :: rest') :
    texts = texts' ∧ rest = rest' := by
  induction texts generalizing texts' with
  | nil =>
    cases texts' with
    | nil => exact ⟨rfl, (List.cons.inj h).2⟩
    | cons t texts' =>
      have ht : [] = t := (List.cons.inj h).1
      exact absurd (ht ▸ List.mem_cons_self) htexts'
  | cons t texts ih =>
    cases texts' with
    | nil =>
      have ht : t = [] := (List.cons.inj h).1
      exact absurd (ht ▸ List.mem_cons_self) htexts
    | cons t' texts' =>
      rw [List.mem_cons, not_or] at htexts htexts'
      obtain ⟨rfl, htail⟩ := List.cons.inj h
      obtain ⟨rfl, rfl⟩ := ih htexts.2 htexts'.2 htail
      exact ⟨rfl, rfl⟩

/-- The entries leave the program no choice. -/
theorem Plays.unique (h : Plays lib es outcome blocks) (h' : Plays lib es outcome' blocks') :
    outcome = outcome' ∧ blocks = blocks' := by
  -- the pattern decides which of the three ways the input is played
  induction h generalizing outcome' blocks' with
  | stop =>
    cases h' with
    | stop => exact ⟨rfl, rfl⟩
    | invalid hpattern => exact absurd rfl hpattern
    | block hpattern => exact absurd rfl hpattern
  | invalid hpattern herror =>
    cases h' with
    | stop => exact absurd rfl hpattern
    | invalid => exact ⟨rfl, rfl⟩
    | block hpattern' hvalid => exact absurd hvalid herror
  | block hpattern hvalid htexts hrest ih =>
    -- the lines as one variable, so that `cases` can split the other derivation
    generalize hes : _ :: (_ ++ [] :: _) = es' at h'
    cases h' with
    | stop => exact absurd (List.cons.inj hes).1 hpattern
    | invalid hpattern' herror => exact absurd ((List.cons.inj hes).1 ▸ hvalid) herror
    | block hpattern' hvalid' htexts' hrest' =>
      obtain ⟨rfl, htail⟩ := List.cons.inj hes
      obtain ⟨rfl, rfl⟩ := texts_unique htexts htexts' htail
      obtain ⟨rfl, rfl⟩ := ih hrest'
      exact ⟨rfl, rfl⟩

/-! ## What the loops read -/

/-- A call of `try_matches` that returns has read the texts up to an empty one. -/
theorem tryMatches_reads {stdin buf : List UInt8} {fuel : Nat} {s : Session} (hbuf : Stuck buf)
    (hs : tryMatches lib compiled fuel buf stdin = .ok s)
    (hends : Ends lib .pattern (entries s.stdin)) :
    [] ∉ s.calls ∧ entries stdin = s.calls ++ [] :: entries s.stdin ∧
      s.reports = s.calls.map (answer lib compiled) := by
  -- each text read is one entry of the input less
  induction fuel generalizing stdin buf s with
  | zero => cases hs
  | succ fuel ih =>
    -- at the end of the input the buffer keeps its text, and the loop would not have ended
    have hstdin : stdin ≠ [] := by
      rintro rfl
      have hnone := hbuf.tryMatches hs hends
      rw [entries_nil] at hnone
      exact hnone
    obtain ⟨buf', hread, hbuf'⟩ := readText_of_ne_nil hstdin buf
    have h10 := newline_not_mem_entry (line (size - 1) stdin)
    rw [entries_of_ne_nil hstdin]
    -- from here on only the entry matters, not how it was read
    generalize entry (line (size - 1) stdin) = text at hread hbuf' h10
    by_cases htext : text = []
    · subst htext
      rw [tryMatches_empty fuel hread, Except.ok.injEq] at hs
      subst hs
      exact ⟨List.not_mem_nil, rfl, rfl⟩
    · rw [tryMatches_ok hread htext] at hs
      obtain ⟨s', hs', rfl⟩ := hs
      obtain ⟨hcalls, hentries, hreports⟩ := ih (.inr ⟨text, hbuf', htext, h10⟩) hs' hends
      refine ⟨?_, ?_, ?_⟩
      · rw [List.mem_cons, not_or]
        exact ⟨Ne.symm htext, hcalls⟩
      · rw [hentries]
        rfl
      · rw [hreports]
        rfl

/-- The texts of a session with what was printed about them. -/
def Session.block (s : Session) : List (List UInt8) × List Report := (s.calls, s.reports)

/-- A run of the loop that ends has read blocks up to the one that ends it. -/
theorem mainLoop_reads {stdin buf : List UInt8} {fuel : Nat} {r : Outcome × List Session}
    (hbuf : cString buf = none ∨ ∃ pattern, cString buf = some pattern ∧ pattern ≠ [] ∧
      10 ∉ pattern ∧ (lib.regcomp pattern).1 = 0)
    (hr : mainLoop lib fuel buf stdin = .ok r) :
    Plays lib (entries stdin) r.1 (r.2.map Session.block) := by
  induction fuel generalizing stdin buf r with
  | zero => cases hr
  | succ fuel ih =>
    have hends := ends_of_mainLoop hbuf hr
    have hstdin : stdin ≠ [] := by
      rintro rfl
      rw [entries_nil] at hends
      exact hends
    obtain ⟨buf', hread, hbuf'⟩ := readText_of_ne_nil hstdin buf
    have h10 := newline_not_mem_entry (line (size - 1) stdin)
    rw [entries_of_ne_nil hstdin]
    generalize entry (line (size - 1) stdin) = pattern at hread hbuf' h10
    by_cases hpattern : pattern = []
    · subst hpattern
      simp only [mainLoop, hread, if_true, Except.ok.injEq] at hr
      subst hr
      exact .stop
    · by_cases hvalid : (lib.regcomp pattern).1 = 0
      · rw [mainLoop_ok hread hpattern hvalid] at hr
        obtain ⟨s, r', hs, hr', rfl⟩ := hr
        -- the rest of the input is read with this pattern in the buffer
        have hrest := ih (.inr ⟨pattern, hbuf', hpattern, h10, hvalid⟩) hr'
        have hends' := ends_of_mainLoop (.inr ⟨pattern, hbuf', hpattern, h10, hvalid⟩) hr'
        obtain ⟨hcalls, hentries, hreports⟩ := tryMatches_reads stuck_fresh hs hends'
        rw [hentries, List.map_cons, Session.block, hreports]
        exact .block hpattern hvalid hcalls hrest
      · simp only [mainLoop, hread, if_neg hpattern, if_pos hvalid, ne_eq, Except.ok.injEq] at hr
        subst hr
        exact .invalid hpattern hvalid

/-! ## Every script is played -/

/-- The texts of a block do not end the program, so what follows them does. -/
theorem Ends.of_texts (htexts : [] ∉ texts) (h : Ends lib .pattern rest) :
    Ends lib .text (texts ++ [] :: rest) := by
  induction texts with
  | nil =>
    rw [List.nil_append, Ends, if_pos rfl]
    exact h
  | cons t texts ih =>
    rw [List.mem_cons, not_or] at htexts
    rw [List.cons_append, Ends, if_neg (Ne.symm htexts.1)]
    exact ih htexts.2

/-- Entries that end in such a block contain one. -/
theorem Plays.ends (h : Plays lib es outcome blocks) : Ends lib .pattern es := by
  induction h with
  | stop => exact .inl rfl
  | invalid hpattern herror => exact .inr (.inl herror)
  | block hpattern hvalid htexts hrest ih => exact .inr (.inr (ih.of_texts htexts))

/-- Given fuel, the program runs through the blocks and ends as they say. -/
theorem Plays.run {stdin : List UInt8} (h : Plays lib (entries stdin) outcome blocks) :
    ∃ fuel sessions, main lib fuel stdin = .ok (outcome, sessions) ∧
      sessions.map Session.block = blocks := by
  obtain ⟨r, hr⟩ := mainLoop_ends h.ends (Nat.lt_succ_self _) []
  -- what it has done is the only reading of the entries
  obtain ⟨houtcome, hblocks⟩ := (mainLoop_reads (.inl rfl) hr).unique h
  exact ⟨_, r.2, by rw [← houtcome]; exact hr, hblocks⟩

/-- On any input and with any library: the program ends with this outcome after these sessions
    if and only if the entries of the input are these blocks, and about each text it has
    printed what `regexec` says about it and the pattern of its block. -/
theorem main_plays_iff (lib : Library Compiled) (stdin : List UInt8) (outcome : Outcome)
    (blocks : List (List (List UInt8) × List Report)) :
    (∃ fuel sessions, main lib fuel stdin = .ok (outcome, sessions) ∧
      sessions.map Session.block = blocks) ↔ Plays lib (entries stdin) outcome blocks := by
  constructor
  · rintro ⟨fuel, sessions, hrun, rfl⟩
    exact mainLoop_reads (.inl rfl) hrun
  · exact Plays.run

/-! ## Scripts written line by line -/

/-- Lines that fit are read as they were written. -/
theorem entries_lines {lines : List (List UInt8)}
    (hlines : ∀ l ∈ lines, 0 ∉ l ∧ 10 ∉ l ∧ l.length ≤ 1022) (more : List UInt8) :
    entries (lines.flatMap (· ++ [10]) ++ more) = lines ++ entries more := by
  induction lines with
  | nil => rfl
  | cons l lines ih =>
    rw [List.forall_mem_cons] at hlines
    obtain ⟨⟨h0, h10, hlen⟩, hlines⟩ := hlines
    have hline : line (size - 1) (l ++ 10 :: (lines.flatMap (· ++ [10]) ++ more)) = l ++ [10] :=
      line_of_lt h10 (by show l.length < 1023; omega)
    have hsplit : l ++ 10 :: (lines.flatMap (· ++ [10]) ++ more) =
        l ++ [10] ++ (lines.flatMap (· ++ [10]) ++ more) := by simp
    rw [List.flatMap_cons, List.append_assoc, List.append_assoc, List.singleton_append,
      entries_of_ne_nil (by simp), hline, entry_line h0 h10, hsplit, List.drop_left, ih hlines]
    rfl

/-- The lines of a session with these patterns and texts. -/
def script : List (List UInt8 × List (List UInt8)) → List (List UInt8)
  | [] => [[]]
  | (pattern, texts) :: blocks => pattern :: (texts ++ [] :: script blocks)

/-- A session that is written out line by line is played as it was written, whatever comes
    behind it. -/
theorem script_played {parts : List (List UInt8 × List (List UInt8))}
    (hlines : ∀ l ∈ script parts, 0 ∉ l ∧ 10 ∉ l ∧ l.length ≤ 1022)
    (hblocks : ∀ b ∈ parts, b.1 ≠ [] ∧ (lib.regcomp b.1).1 = 0 ∧ [] ∉ b.2) (more : List UInt8) :
    ∃ fuel sessions, main lib fuel ((script parts).flatMap (· ++ [10]) ++ more) =
        .ok (.returned, sessions) ∧
      sessions.map Session.block =
        parts.map fun b => (b.2, b.2.map (answer lib (lib.regcomp b.1).2)) := by
  apply Plays.run
  rw [entries_lines hlines]
  clear hlines
  induction parts with
  | nil => exact .stop
  | cons b parts ih =>
    rw [List.forall_mem_cons] at hblocks
    obtain ⟨⟨hpattern, hvalid, htexts⟩, hblocks⟩ := hblocks
    have hrest := ih hblocks
    rw [script, List.cons_append, List.append_assoc, List.cons_append, List.map_cons]
    exact .block hpattern hvalid htexts hrest

end Regex
