/-!
# Fallible computations

What holds of the result of a computation, and which faults it may end with: both are
carried through a sequence of calls.
-/

namespace Faults

variable {ε α β : Type} {fault fault' : ε → Prop} {post post' : α → Prop}

/-- The result satisfies `post`, and a fault is one of those that `fault` allows. -/
def Post (fault : ε → Prop) (post : α → Prop) : Except ε α → Prop
  | .ok a => post a
  | .error e => fault e

/-- A call, and then what depends on its result. -/
theorem Post.bind {x : Except ε α} {f : α → Except ε β} {goal : β → Prop} (hx : Post fault post x)
    (hf : ∀ a, post a → Post fault goal (f a)) : Post fault goal (x >>= f) := by
  cases x with
  | error e => exact hx
  | ok a => exact hf a hx

/-- More faults may be allowed, and less said of the result. -/
theorem Post.mono {x : Except ε α} (hx : Post fault post x) (hfault : ∀ e, fault e → fault' e)
    (hpost : ∀ a, post a → post' a) : Post fault' post' x := by
  cases x with
  | error e => exact hfault e hx
  | ok a => exact hpost a hx

/-- A computation that allows no fault has a result. -/
theorem Post.exists_ok {x : Except ε α} (hx : Post fault post x) (hfault : ∀ e, ¬ fault e) :
    ∃ a, x = .ok a ∧ post a := by
  cases x with
  | error e => exact absurd hx (hfault e)
  | ok a => exact ⟨a, rfl, hx⟩

end Faults
