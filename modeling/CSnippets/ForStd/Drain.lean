import Mathlib.Data.List.Basic

/-!
# Emptying a queue up to a mark

A loop takes messages out of a queue until the queue is empty or a message looks like its
end. That message is taken, too, but not handled, and what waits behind it is left.
-/

namespace Drain

variable {α : Type*} (stop : α → Bool)

/-- The messages that are handled. -/
def handled (queue : List α) : List α := queue.takeWhile fun a => !stop a

/-- The messages that are left in the queue. -/
def left (queue : List α) : List α := (queue.dropWhile fun a => !stop a).tail

variable {stop} {queue front back : List α} {a : α}

/-- Where nothing stops the handler it takes the whole queue. -/
theorem handled_of_all (h : ∀ a ∈ queue, stop a = false) : handled stop queue = queue := by
  induction queue with
  | nil => rfl
  | cons a queue ih =>
    rw [List.forall_mem_cons] at h
    rw [handled, List.takeWhile_cons, h.1]
    exact congrArg (a :: ·) (ih h.2)

/-- Where nothing stops the handler it leaves nothing behind. -/
theorem left_of_all (h : ∀ a ∈ queue, stop a = false) : left stop queue = [] := by
  induction queue with
  | nil => rfl
  | cons a queue ih =>
    rw [List.forall_mem_cons] at h
    rw [left, List.dropWhile_cons, h.1]
    exact ih h.2

/-- The handler takes what stands before the first item that stops it. -/
theorem handled_append (h : ∀ b ∈ front, stop b = false) (ha : stop a = true) :
    handled stop (front ++ a :: back) = front := by
  induction front with
  | nil => simp [handled, ha]
  | cons b front ih =>
    rw [List.forall_mem_cons] at h
    rw [List.cons_append, handled, List.takeWhile_cons, h.1]
    exact congrArg (b :: ·) (ih h.2)

/-- What stands behind the first item that stops the handler stays queued. -/
theorem left_append (h : ∀ b ∈ front, stop b = false) (ha : stop a = true) :
    left stop (front ++ a :: back) = back := by
  induction front with
  | nil => simp [left, ha]
  | cons b front ih =>
    rw [List.forall_mem_cons] at h
    rw [List.cons_append, left, List.dropWhile_cons, h.1]
    exact ih h.2

/-- A queue without a mark, or what is in front of the first mark and what is behind it. -/
theorem cases_mark (stop : α → Bool) (queue : List α) :
    (∀ a ∈ queue, stop a = false) ∨
      ∃ front a back, queue = front ++ a :: back ∧ stop a = true ∧ ∀ b ∈ front, stop b = false := by
  induction queue with
  | nil => exact .inl (fun a ha => absurd ha List.not_mem_nil)
  | cons a queue ih =>
    cases ha : stop a with
    | true => exact .inr ⟨[], a, queue, rfl, ha, fun b hb => absurd hb List.not_mem_nil⟩
    | false =>
      rcases ih with hall | ⟨front, b, back, rfl, hb, hfront⟩
      · exact .inl (List.forall_mem_cons.mpr ⟨ha, hall⟩)
      · exact .inr ⟨a :: front, b, back, rfl, hb, List.forall_mem_cons.mpr ⟨ha, hfront⟩⟩

/-- The queue is emptied if and only if no message but the last looks like its end. -/
theorem left_eq_nil_iff : left stop queue = [] ↔ ∀ a ∈ queue.dropLast, stop a = false := by
  rcases cases_mark stop queue with hall | ⟨front, a, back, rfl, ha, hfront⟩
  · exact iff_of_true (left_of_all hall) fun a ha => hall a (List.dropLast_subset _ ha)
  · rw [left_append hfront ha]
    constructor
    · rintro rfl
      rw [List.dropLast_concat]
      exact hfront
    · intro h
      by_contra hback
      have hmem : a ∈ (front ++ a :: back).dropLast := by
        rw [List.dropLast_append_of_ne_nil (List.cons_ne_nil a back),
          List.dropLast_cons_of_ne_nil hback]
        exact List.mem_append_right _ List.mem_cons_self
      rw [h a hmem] at ha
      cases ha

/-- Then every other message is handled. -/
theorem handled_eq_filter (h : left stop queue = []) :
    handled stop queue = queue.filter fun a => !stop a := by
  rcases cases_mark stop queue with hall | ⟨front, a, back, rfl, ha, hfront⟩
  · rw [handled_of_all hall, List.filter_eq_self.mpr]
    intro a ha
    rw [hall a ha]
    rfl
  · rw [left_append hfront ha] at h
    rw [h, handled_append hfront ha, List.filter_append, List.filter_eq_self.mpr]
    · simp [ha]
    · intro b hb
      rw [hfront b hb]
      rfl

end Drain
