import Mathlib.Data.List.Basic

/-!
# Histories

A history is the list of what has happened, the latest entry at the end. It is justified when
each of its entries is, by the entries before it.
-/

namespace Histories

variable {ε : Type*}

/-- Every entry is as `P` wants it, given the entries before it. -/
def Justified (P : List ε → ε → Prop) (history : List ε) : Prop :=
  ∀ before e after, history = before ++ e :: after → P before e

variable {P : List ε → ε → Prop} {history : List ε} {e : ε}

/-- Nothing has to be justified in the empty history. -/
theorem justified_nil : Justified P [] := by
  intro before e after h
  simp at h

/-- One more entry. -/
theorem justified_concat : Justified P (history ++ [e]) ↔ Justified P history ∧ P history e := by
  constructor
  · intro h
    constructor
    · intro before e' after hsplit
      apply h before e' (after ++ [e])
      rw [hsplit, List.append_assoc, List.cons_append]
    · exact h history e [] rfl
  · intro ⟨h, he⟩ before e' after hsplit
    obtain rfl | ⟨after', last, rfl⟩ := List.eq_nil_or_concat after
    · -- the entry is the last one
      obtain ⟨rfl, hlast⟩ := List.append_inj' hsplit rfl
      obtain rfl := List.singleton_inj.mp hlast
      exact he
    · rw [List.concat_eq_append, ← List.cons_append, ← List.append_assoc] at hsplit
      exact h before e' after' (List.append_inj' hsplit rfl).1

end Histories
