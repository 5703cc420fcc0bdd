import Mathlib.Data.List.Basic
import Mathlib.Logic.Function.Basic

/-!
# Many queues behind one signal that merges

What arrives at a queue raises a signal that says which queue it was. One instance of the
signal at most is pending: what arrives meanwhile, at whatever queue, raises none of its
own. The handler takes items out of the queue that its signal names until that queue is
empty, or until it takes an item that looks like the end.

Each queue gets its items in order (`Balanced`). A queue is not left behind as long as
whatever arrives finds no other queue's signal pending (`Covered`).
-/

namespace SharedSignal

variable {φ δ : Type*}

/-- Queues whose arrivals share one signal. -/
structure State (φ δ : Type*) where
  queue : φ → List δ
  /-- the queue that the pending signal names -/
  pending : Option φ
  /-- the queue that the handler empties -/
  serving : Option φ
  /-- what has been taken, from all queues -/
  taken : List (φ × δ)

/-- The items that belong to the queue `f`. -/
def itemsOf [DecidableEq φ] (f : φ) (items : List (φ × δ)) : List δ :=
  (items.filter fun p => p.1 = f).map Prod.snd

/-- No signal is pending and no handler runs. -/
structure Quiescent (s : State φ δ) : Prop where
  pending : s.pending = none
  serving : s.serving = none

variable [DecidableEq φ] {stop : φ → δ → Bool} {s s' : State φ δ} {f g : φ} {a : δ}
  {items new : List (φ × δ)}

/-- A step, and what arrives with it. -/
inductive Step (stop : φ → δ → Bool) (s : State φ δ) : List (φ × δ) → State φ δ → Prop where
  | stay : Step stop s [] s
  | arrive (f : φ) (a : δ) :
    Step stop s [(f, a)]
      { s with queue := Function.update s.queue f (s.queue f ++ [a])
               pending := some (s.pending.getD f) }
  | deliver (f : φ) (hpending : s.pending = some f) (hserving : s.serving = none) :
    Step stop s [] { s with pending := none, serving := some f }
  | take (f : φ) (a : δ) (rest : List δ) (hserving : s.serving = some f)
      (hqueue : s.queue f = a :: rest) :
    Step stop s []
      { s with queue := Function.update s.queue f rest
               serving := if stop f a then none else some f
               taken := s.taken ++ [(f, a)] }
  | finish (f : φ) (hserving : s.serving = some f) (hqueue : s.queue f = []) :
    Step stop s [] { s with serving := none }

/-! ## Every queue in order -/

/-- What a descriptor received in two stretches is what it received in each. -/
theorem itemsOf_append : itemsOf f (items ++ new) = itemsOf f items ++ itemsOf f new := by
  rw [itemsOf, List.filter_append, List.map_append]
  rfl

/-- An item that arrives on a descriptor is received by it. -/
theorem itemsOf_self : itemsOf f [(f, a)] = [a] := by
  simp [itemsOf]

/-- An item that arrives on another descriptor is not received by this one. -/
theorem itemsOf_of_ne (h : g ≠ f) : itemsOf f [(g, a)] = [] := by
  simp [itemsOf, h]

/-- What has arrived at each queue was taken from it, in order, or waits in it. -/
def Balanced (arrived : List (φ × δ)) (s : State φ δ) : Prop :=
  ∀ f, itemsOf f arrived = itemsOf f s.taken ++ s.queue f

/-- Every arrival, delivery and read keeps taken and queued items those that arrived. -/
theorem Balanced.step (h : Balanced items s) (hstep : Step stop s new s') :
    Balanced (items ++ new) s' := by
  intro g
  have hg := h g
  rw [itemsOf_append, hg]
  -- only an arrival adds to the queue; taking moves the front item to the taken ones
  cases hstep with
  | stay => exact List.append_nil _
  | arrive f a =>
    show _ = itemsOf g s.taken ++ Function.update s.queue f (s.queue f ++ [a]) g
    by_cases hf : f = g
    · subst hf
      rw [itemsOf_self, Function.update_self, List.append_assoc]
    · rw [itemsOf_of_ne hf, Function.update_of_ne (Ne.symm hf), List.append_nil]
  | deliver f hpending hserving => exact List.append_nil _
  | take f a rest hserving hqueue =>
    show _ = itemsOf g (s.taken ++ [(f, a)]) ++ Function.update s.queue f rest g
    rw [itemsOf_append]
    by_cases hf : f = g
    · subst hf
      rw [itemsOf_self, Function.update_self, hqueue]
      exact (List.append_nil _).trans (List.append_cons _ _ _)
    · rw [itemsOf_of_ne hf, Function.update_of_ne (Ne.symm hf), List.append_nil]
      exact List.append_nil _
  | finish f hserving hqueue => exact List.append_nil _

/-! ## Queues that are not left behind -/

/-- Whatever waits has a signal or a handler. -/
def Covered (s : State φ δ) : Prop :=
  ∀ f, s.queue f ≠ [] → s.pending = some f ∨ s.serving = some f

omit [DecidableEq φ] in
/-- With no signal pending and no handler at work, a covered queue is empty. -/
theorem Covered.empty (h : Covered s) (hquiescent : Quiescent s) : s.queue f = [] := by
  by_contra hne
  obtain hpending | hserving := h f hne
  · rw [hquiescent.pending] at hpending
    cases hpending
  · rw [hquiescent.serving] at hserving
    cases hserving

/-- What arrives does not find the signal of another queue pending. -/
def Alone (s : State φ δ) (new : List (φ × δ)) : Prop :=
  ∀ p ∈ new, ∀ f, s.pending = some f → f = p.1

/-- No item that looks like the end waits. -/
def NoStop (stop : φ → δ → Bool) (s : State φ δ) : Prop := ∀ f, ∀ a ∈ s.queue f, stop f a = false

/-- A step keeps every queue covered while one descriptor gets items and nothing stops the
    handler. -/
theorem Covered.step (h : Covered s) (hstep : Step stop s new s') (halone : Alone s new)
    (hstop : NoStop stop s) : Covered s' := by
  intro g hg
  cases hstep with
  | stay => exact h g hg
  | arrive f a =>
    show some (s.pending.getD f) = some g ∨ s.serving = some g
    replace hg : Function.update s.queue f (s.queue f ++ [a]) g ≠ [] := hg
    by_cases hf : g = f
    · left
      cases hpending : s.pending with
      | none => rw [hf]; rfl
      | some f' => rw [hf, halone _ (List.mem_singleton_self _) f' hpending]; rfl
    · rw [Function.update_of_ne hf] at hg
      obtain hpending | hserving := h g hg
      · rw [hpending]
        exact Or.inl rfl
      · exact Or.inr hserving
  | deliver f hpending hserving =>
    obtain hg | hg := h g hg
    · rw [hpending] at hg
      exact Or.inr hg
    · rw [hserving] at hg
      cases hg
  | take f a rest hserving hqueue =>
    -- the item taken is not one that ends the handler
    have hgo : stop f a = false := hstop f a (by rw [hqueue]; exact List.mem_cons_self)
    show s.pending = some g ∨ (if stop f a then none else some f) = some g
    rw [hgo]
    replace hg : Function.update s.queue f rest g ≠ [] := hg
    by_cases hf : g = f
    · exact Or.inr (congrArg some hf.symm)
    · rw [Function.update_of_ne hf] at hg
      obtain hpending | hother := h g hg
      · exact Or.inl hpending
      · rw [hserving] at hother
        exact Or.inr hother
  | finish f hserving hqueue =>
    obtain hpending | hother := h g hg
    · exact Or.inl hpending
    · rw [hserving] at hother
      obtain rfl := Option.some.inj hother
      exact absurd hqueue hg

/-- A descriptor received an item just when the item arrived on it. -/
theorem mem_itemsOf : a ∈ itemsOf f items ↔ (f, a) ∈ items := by
  simp [itemsOf]

/-- What waits has arrived. -/
theorem Balanced.noStop (h : Balanced items s) (hitems : ∀ p ∈ items, stop p.1 p.2 = false) :
    NoStop stop s := by
  intro f a ha
  apply hitems (f, a)
  rw [← mem_itemsOf, h f]
  exact List.mem_append_right _ ha

end SharedSignal
