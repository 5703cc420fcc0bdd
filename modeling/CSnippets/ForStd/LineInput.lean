import CSnippets.ForStd.CMemory

/-!
# Lines of an input

`fgets` reads to the end of a line, but no more than fits in its buffer: a longer line
comes in several pieces. At the end of the input it leaves the buffer as it is.
-/

namespace LineInput

/-- The next line of the input with its newline (10), or its first `n` bytes. -/
def line : Nat → List UInt8 → List UInt8
  | 0, _ => []
  | _ + 1, [] => []
  | n + 1, b :: input => if b = 10 then [b] else b :: line n input

/-- `fgets(buf, n + 1, input)`: the buffer and what is left of the input. -/
def fgets (n : Nat) (buf input : List UInt8) : List UInt8 × List UInt8 :=
  if input = [] then (buf, [])
  else (CMemory.splice buf 0 (line n input ++ [0]), input.drop (line n input).length)

/-- The pieces in which an input is read. -/
def pieces (n : Nat) : List UInt8 → List (List UInt8)
  | [] => []
  | b :: input => line n (b :: input) :: pieces n (input.drop ((line n (b :: input)).length - 1))
termination_by input => input.length
decreasing_by simp only [List.length_drop, List.length_cons]; omega

/-- A newline stands only at the end of a piece. -/
theorem line_shape (n : Nat) (input : List UInt8) :
    ∃ front, 10 ∉ front ∧ (line n input = front ∨ line n input = front ++ [10]) := by
  induction n generalizing input with
  | zero => exact ⟨[], List.not_mem_nil, .inl rfl⟩
  | succ n ih =>
    cases input with
    | nil => exact ⟨[], List.not_mem_nil, .inl rfl⟩
    | cons b input =>
      rw [line]
      by_cases hb : b = 10
      · rw [if_pos hb, hb]
        exact ⟨[], List.not_mem_nil, .inr rfl⟩
      · obtain ⟨front, hfront, hline⟩ := ih input
        rw [if_neg hb]
        have hcons : 10 ∉ b :: front := by
          rw [List.mem_cons, not_or]
          exact ⟨Ne.symm hb, hfront⟩
        rcases hline with hline | hline
        · exact ⟨b :: front, hcons, .inl (by rw [hline])⟩
        · exact ⟨b :: front, hcons, .inr (by rw [hline]; rfl)⟩

/-- While input is left, a read with room for a byte returns at least one. -/
theorem line_ne_nil {n : Nat} {input : List UInt8} (hn : 0 < n) (hinput : input ≠ []) :
    line n input ≠ [] := by
  obtain ⟨n, rfl⟩ : ∃ k, n = k + 1 := ⟨n - 1, by omega⟩
  cases input with
  | nil => exact absurd rfl hinput
  | cons b input =>
    rw [line]
    split
    · exact List.cons_ne_nil _ _
    · exact List.cons_ne_nil _ _

/-- A line that fits is read with its newline. -/
theorem line_of_lt {n : Nat} {l rest : List UInt8} (hl : 10 ∉ l) (hlen : l.length < n) :
    line n (l ++ 10 :: rest) = l ++ [10] := by
  induction l generalizing n with
  | nil =>
    obtain ⟨n, rfl⟩ : ∃ k, n = k + 1 := ⟨n - 1, by rw [List.length_nil] at hlen; omega⟩
    rw [List.nil_append, line, if_pos rfl]
    rfl
  | cons b l ih =>
    rw [List.length_cons] at hlen
    rw [List.mem_cons, not_or] at hl
    obtain ⟨n, rfl⟩ : ∃ k, n = k + 1 := ⟨n - 1, by omega⟩
    rw [List.cons_append, line, if_neg (Ne.symm hl.1), ih hl.2 (by omega)]
    rfl

/-- Of a line that does not, only the front is read. -/
theorem line_of_le {n : Nat} {l rest : List UInt8} (hl : 10 ∉ l) (hlen : n ≤ l.length) :
    line n (l ++ rest) = l.take n := by
  induction l generalizing n with
  | nil =>
    obtain rfl : n = 0 := by rw [List.length_nil] at hlen; omega
    rfl
  | cons b l ih =>
    rw [List.mem_cons, not_or] at hl
    cases n with
    | zero => rfl
    | succ n =>
      rw [List.length_cons] at hlen
      rw [List.cons_append, line, if_neg (Ne.symm hl.1), ih hl.2 (by omega), List.take_succ_cons]

/-- The pieces of an input are its first line and the pieces of what is behind it. -/
theorem pieces_cons {n : Nat} {input : List UInt8} (hn : 0 < n) (hinput : input ≠ []) :
    pieces n input = line n input :: pieces n (input.drop (line n input).length) := by
  cases input with
  | nil => exact absurd rfl hinput
  | cons b input =>
    have hpos := List.length_pos_iff.mpr (line_ne_nil hn (List.cons_ne_nil b input))
    rw [pieces]
    obtain ⟨k, hk⟩ : ∃ k, (line n (b :: input)).length = k + 1 :=
      ⟨(line n (b :: input)).length - 1, by omega⟩
    rw [hk, Nat.add_sub_cancel, List.drop_succ_cons]

/-- No piece is empty. -/
theorem ne_nil_of_mem_pieces {n : Nat} {input piece : List UInt8} (hn : 0 < n)
    (h : piece ∈ pieces n input) : piece ≠ [] := by
  induction input using pieces.induct n with
  | case1 =>
    rw [pieces] at h
    cases h
  | case2 b input ih =>
    rw [pieces, List.mem_cons] at h
    cases h with
    | inl hfirst =>
      rw [hfirst]
      exact line_ne_nil hn (List.cons_ne_nil b input)
    | inr hrest => exact ih hrest

end LineInput
