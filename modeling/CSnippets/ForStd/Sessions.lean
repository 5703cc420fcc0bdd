import Mathlib.Data.List.Basic

/-!
# Traces of sessions

A session is opened once, used one or more times and closed once. `Cycles a b c w`
says that `w` is such sessions one after another, the last one possibly
unfinished; `a` opens, `b` uses, `c` closes. `Held opens closes t` says that the
trace `t` has an opening event that no closing event follows.
-/

namespace Sessions

variable {α : Type*} {a b c : α} {w : List α}

/-- Complete sessions, each with one use more than its number. -/
def sessions (a b c : α) (ns : List Nat) : List α :=
  ns.flatMap fun n => a :: List.replicate (n + 1) b ++ [c]

/-- A prefix of complete sessions. -/
def Cycles (a b c : α) (w : List α) : Prop := ∃ ns, w <+: sessions a b c ns

/-- A non-empty prefix of sessions starts by opening one. -/
theorem Cycles.head_eq {x : α} (h : Cycles a b c (x :: w)) : x = a := by
  obtain ⟨ns, hns⟩ := h
  cases ns with
  | nil => simp [sessions] at hns
  | cons n ns =>
    rw [sessions, List.flatMap_cons, List.cons_append, List.cons_append,
      List.cons_prefix_cons] at hns
    exact hns.1

/-- Where a trace of sessions stands. -/
inductive Phase where
  | closed
  | opened
  | used

/-- The trace `w` keeps the discipline and ends in the given phase. -/
inductive EndsIn (a b c : α) : List α → Phase → Prop where
  | nil : EndsIn a b c [] .closed
  | opening {w : List α} (h : EndsIn a b c w .closed) : EndsIn a b c (w ++ [a]) .opened
  | first {w : List α} (h : EndsIn a b c w .opened) : EndsIn a b c (w ++ [b]) .used
  | again {w : List α} (h : EndsIn a b c w .used) : EndsIn a b c (w ++ [b]) .used
  | closing {w : List α} (h : EndsIn a b c w .used) : EndsIn a b c (w ++ [c]) .closed

/-- One more session appends its opening, its steps and its closing. -/
theorem sessions_concat (ns : List Nat) (n : Nat) :
    sessions a b c (ns ++ [n]) = sessions a b c ns ++ (a :: List.replicate (n + 1) b ++ [c]) := by
  simp [sessions]

/-- What a trace that ends in a phase looks like. -/
def Shape (a b c : α) (w : List α) : Phase → Prop
  | .closed => ∃ ns, w = sessions a b c ns
  | .opened => ∃ ns, w = sessions a b c ns ++ [a]
  | .used => ∃ ns n, w = sessions a b c ns ++ a :: List.replicate (n + 1) b

/-- The phase in which a trace ends tells the shape of the trace. -/
theorem EndsIn.shape {p : Phase} (h : EndsIn a b c w p) : Shape a b c w p := by
  induction h with
  | nil => exact ⟨[], rfl⟩
  | opening _ ih =>
    obtain ⟨ns, rfl⟩ := ih
    exact ⟨ns, rfl⟩
  | first _ ih =>
    obtain ⟨ns, rfl⟩ := ih
    exact ⟨ns, 0, by simp⟩
  | again _ ih =>
    obtain ⟨ns, n, rfl⟩ := ih
    -- one more use of the open session
    refine ⟨ns, n + 1, ?_⟩
    rw [List.append_assoc, List.cons_append, ← List.replicate_succ']
  | closing _ ih =>
    obtain ⟨ns, n, rfl⟩ := ih
    refine ⟨ns ++ [n], ?_⟩
    rw [sessions_concat, List.append_assoc]

/-- A trace that keeps the discipline is a prefix of complete sessions. -/
theorem EndsIn.cycles {p : Phase} (h : EndsIn a b c w p) : Cycles a b c w := by
  have hshape := h.shape
  cases p with
  | closed =>
    obtain ⟨ns, rfl⟩ := hshape
    exact ⟨ns, List.prefix_rfl⟩
  | opened =>
    obtain ⟨ns, rfl⟩ := hshape
    -- finish the session with one use
    exact ⟨ns ++ [0], by rw [sessions_concat]; simp⟩
  | used =>
    obtain ⟨ns, n, rfl⟩ := hshape
    refine ⟨ns ++ [n], ?_⟩
    rw [sessions_concat, ← List.append_assoc]
    exact List.prefix_append _ _

/-! ## Open sessions -/

variable {ε : Type*} {opens closes : ε → Prop} {t : List ε}

/-- Some event opens a session and no later one closes it. -/
def Held (opens closes : ε → Prop) (t : List ε) : Prop :=
  ∃ t₁ e t₂, t = t₁ ++ e :: t₂ ∧ opens e ∧ ∀ e' ∈ t₂, ¬ closes e'

/-- Nothing is held on the empty trace. -/
theorem not_held_nil : ¬ Held opens closes [] := by
  intro h
  obtain ⟨t₁, e, t₂, ht, -⟩ := h
  simp at ht

/-- Who holds after an event opened with it, or held before and did not close. -/
theorem Held.of_concat {x : ε} (h : Held opens closes (t ++ [x])) :
    opens x ∨ (Held opens closes t ∧ ¬ closes x) := by
  obtain ⟨t₁, e, t₂, ht, he, hclosed⟩ := h
  rcases List.eq_nil_or_concat' t₂ with rfl | ⟨t₂, y, rfl⟩
  · -- the opening event is the last one
    obtain rfl : x = e := by simpa using congrArg List.getLast? ht
    exact Or.inl he
  · rw [← List.cons_append, ← List.append_assoc] at ht
    obtain ⟨rfl, hxy⟩ := List.append_inj' ht rfl
    obtain rfl : x = y := by simpa using hxy
    refine Or.inr ⟨⟨t₁, e, t₂, rfl, he, ?_⟩, hclosed x (by simp)⟩
    intro e' he'
    exact hclosed e' (List.mem_append_left _ he')

end Sessions
