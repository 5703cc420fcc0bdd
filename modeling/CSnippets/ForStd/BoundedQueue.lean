import Mathlib.Data.Nat.ModEq

/-!
# Bounded FIFO queues and their circular layout

`BoundedQueue α cap` is the abstract queue: a list, oldest item first, that
carries the bound on its length. `CircularLayout` says how such a list lies in
a circular array of `n` slots, for any way of reading a slot; its three rules
are the ones a ring buffer needs (append, take the oldest, overwrite the oldest).
-/

/-- A FIFO queue of at most `cap` items, oldest first. -/
structure BoundedQueue (α : Type*) (cap : Nat) where
  items : List α
  length_le : items.length ≤ cap

namespace BoundedQueue

variable {α : Type*} {cap : Nat}

/-- The queue without items. -/
def empty : BoundedQueue α cap := ⟨[], Nat.zero_le cap⟩

/-- Number of items held. -/
def length (q : BoundedQueue α cap) : Nat := q.items.length

/-- Append an item unless the queue is full. -/
def put (q : BoundedQueue α cap) (x : α) : Option (BoundedQueue α cap) :=
  if h : q.length < cap then some ⟨q.items ++ [x], by simp only [List.length_append]; exact h⟩
  else none

/-- Append an item, dropping the oldest one when the queue is full. -/
def fput (q : BoundedQueue α cap) (x : α) : BoundedQueue α cap :=
  ⟨(q.items ++ [x]).drop (q.length + 1 - cap), by
    simp only [List.length_drop, List.length_append, List.length_cons, List.length_nil, length]
    omega⟩

/-- Take the oldest item out. -/
def get (q : BoundedQueue α cap) : Option (α × BoundedQueue α cap) :=
  match q with
  | ⟨[], _⟩ => none
  | ⟨x :: xs, h⟩ => some (x, ⟨xs, Nat.le_of_succ_le h⟩)

/-- With room left, `put` succeeds and appends the item behind the others. -/
theorem put_of_lt {q : BoundedQueue α cap} (h : q.length < cap) (x : α) :
    ∃ q', q.put x = some q' ∧ q'.items = q.items ++ [x] := by
  simp only [put, h, dif_pos]
  exact ⟨_, rfl, rfl⟩

/-- A full queue refuses another item. -/
theorem put_of_full {q : BoundedQueue α cap} (h : q.length = cap) (x : α) : q.put x = none := by
  simp only [put, h, Nat.lt_irrefl, dif_neg, not_false_iff]

/-- There is nothing to take from an empty queue. -/
theorem get_of_empty {q : BoundedQueue α cap} (h : q.length = 0) : q.get = none := by
  obtain ⟨items, hle⟩ := q
  obtain rfl : items = [] := List.eq_nil_of_length_eq_zero h
  rfl

/-- A queue with an item in it gives the oldest one. -/
theorem get_of_cons {q : BoundedQueue α cap} {x : α} {xs : List α} (h : q.items = x :: xs) :
    ∃ q', q.get = some (x, q') ∧ q'.items = xs := by
  obtain ⟨items, hle⟩ := q
  obtain rfl : items = x :: xs := h
  exact ⟨_, rfl, rfl⟩

/-- With room left, the forced put appends, as `put` does. -/
theorem fput_items_of_lt {q : BoundedQueue α cap} (h : q.length < cap) (x : α) :
    (q.fput x).items = q.items ++ [x] := by
  simp only [fput, show q.length + 1 - cap = 0 by omega, List.drop_zero]

/-- On a full queue the forced put gives up the oldest item for the new one. -/
theorem fput_items_of_full {q : BoundedQueue α cap} (h : q.length = cap) {y : α} {ys : List α}
    (hq : q.items = y :: ys) (x : α) : (q.fput x).items = ys ++ [x] := by
  simp only [fput, show q.length + 1 - cap = 1 by omega, hq, List.cons_append, List.drop_succ_cons,
    List.drop_zero]

end BoundedQueue

/-! ## What a queue has kept -/

/-- All items stored and all that were fetched, in order, and those held. The latest are held,
    and no item is fetched twice or before one stored earlier. -/
structure Window {α : Type*} (stored fetched held : List α) : Prop where
  latest : held <:+ stored
  inOrder : (fetched ++ held).Sublist stored

namespace Window

variable {α : Type*} {stored fetched held ys : List α} {x y : α}

/-- Before the first operation the queue and both histories are empty. -/
theorem nil : Window ([] : List α) [] [] := ⟨List.suffix_rfl, List.Sublist.refl _⟩

/-- One more item is stored. -/
theorem store (h : Window stored fetched held) (x : α) :
    Window (stored ++ [x]) fetched (held ++ [x]) := by
  constructor
  · obtain ⟨front, rfl⟩ := h.latest
    exact ⟨front, by rw [List.append_assoc]⟩
  · rw [← List.append_assoc]
    exact h.inOrder.append (List.Sublist.refl _)

/-- The oldest item is fetched. -/
theorem fetch (h : Window stored fetched (y :: ys)) : Window stored (fetched ++ [y]) ys := by
  constructor
  · exact (List.suffix_cons y ys).trans h.latest
  · rw [List.append_assoc]
    exact h.inOrder

/-- The oldest items are forgotten. -/
theorem drop (h : Window stored fetched held) (k : Nat) : Window stored fetched (held.drop k) := by
  constructor
  · exact (List.drop_suffix k held).trans h.latest
  · exact (List.Sublist.append_left (List.drop_sublist k held) fetched).trans h.inOrder

/-- All that is held is forgotten. -/
theorem clear (h : Window stored fetched held) : Window stored fetched [] := by
  have hall := h.drop held.length
  rwa [List.drop_length] at hall

end Window

/-- The items lie in consecutive slots of a circular array of `n` slots, the
    oldest in slot `tail`. -/
def CircularLayout {α : Type*} (slot : Nat → α) (n tail : Nat) (items : List α) : Prop :=
  ∀ i (h : i < items.length), slot ((tail + i) % n) = items[i]

namespace CircularLayout

variable {α : Type*} {slot slot' : Nat → α} {n tail : Nat}

/-- Distinct offsets below `n` denote distinct slots. -/
theorem offset_ne {i j : Nat} (hij : i < j) (hj : j < n) : (tail + i) % n ≠ (tail + j) % n := by
  intro h
  have hmod : i % n = j % n := Nat.ModEq.add_left_cancel' tail h
  rw [Nat.mod_eq_of_lt (by omega), Nat.mod_eq_of_lt hj] at hmod
  omega

/-- The empty queue is laid out at every tail. -/
theorem nil : CircularLayout slot n tail [] := fun _ h => absurd h (Nat.not_lt_zero _)

/-- Filling the slot behind the newest item appends to the list. -/
theorem append {items : List α} {x : α} (h : CircularLayout slot n tail items)
    (hlt : items.length < n) (hnew : slot' ((tail + items.length) % n) = x)
    (hold : ∀ j, j ≠ (tail + items.length) % n → slot' j = slot j) :
    CircularLayout slot' n tail (items ++ [x]) := by
  intro i hi
  rcases Nat.lt_or_ge i items.length with hlt' | hge
  · rw [List.getElem_append_left hlt', hold _ (offset_ne hlt' hlt), h i hlt']
  · obtain rfl : i = items.length := by simp at hi; omega
    rw [hnew]; simp

/-- The oldest item is in slot `tail`, the others start one slot further. -/
theorem uncons {x : α} {xs : List α} (h : CircularLayout slot n tail (x :: xs)) :
    slot (tail % n) = x ∧ CircularLayout slot n ((tail + 1) % n) xs := by
  refine ⟨h 0 (by simp), fun i hi => ?_⟩
  have hnext := h (i + 1) (by simpa using hi)
  rw [List.getElem_cons_succ] at hnext
  rw [← hnext, Nat.mod_add_mod]
  congr 2
  omega

/-- In a full array, overwriting the oldest slot drops the oldest item and
    appends the new one. -/
theorem overwrite {x y : α} {ys : List α} (h : CircularLayout slot n tail (y :: ys))
    (hfull : (y :: ys).length = n) (hnew : slot' (tail % n) = x)
    (hold : ∀ j, j ≠ tail % n → slot' j = slot j) :
    CircularLayout slot' n ((tail + 1) % n) (ys ++ [x]) := by
  have hlen : ys.length + 1 = n := hfull
  have hhead : ((tail + 1) % n + ys.length) % n = tail % n := by
    rw [Nat.mod_add_mod, show tail + 1 + ys.length = tail + n by omega, Nat.add_mod_right]
  exact append h.uncons.2 (by omega) (by rw [hhead]; exact hnew) (by rw [hhead]; exact hold)

end CircularLayout
