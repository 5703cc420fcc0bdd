import Mathlib.Data.List.Cycle

/-!
# Circular doubly linked lists

A pointer structure on nodes of a type `α` is a pair of functions
`next prev : α → Option α` (`none` for a null link). A list of nodes is a *ring*
of the structure when every two nodes that follow each other in its cyclic order
are joined by both links. Rings do not depend on where the list starts, so the
rules for splicing a node in and out are stated at the front.
-/

namespace LinkRing

variable {α : Type*} {next prev next' prev' : α → Option α} {a b x : α} {l m : List α}

/-- `b` follows `a`, and the link back agrees. -/
def Linked (next prev : α → Option α) (a b : α) : Prop :=
  next a = some b ∧ prev b = some a

/-- The nodes of `l`, in this cyclic order, are joined by both links. -/
def IsRing (next prev : α → Option α) (l : List α) : Prop :=
  Cycle.Chain (Linked next prev) (l : Cycle α)

/-- A ring through `a` is a chain of links from `a` back to `a`. -/
theorem isRing_cons :
    IsRing next prev (a :: l) ↔ (a :: (l ++ [a])).IsChain (Linked next prev) :=
  Cycle.chain_coe_cons _ a l

/-- A ring is one from whichever of its nodes it is listed. -/
theorem IsRing.rotate (h : IsRing next prev l) (hrot : l ~r m) : IsRing next prev m := by
  have heq : (l : Cycle α) = m := Cycle.coe_eq_coe.mpr hrot
  rw [IsRing, ← heq]
  exact h

/-- Moving a node of the ring, or the gap in front of it, to the front. -/
theorem isRing_rotate_iff : IsRing next prev (l ++ m) ↔ IsRing next prev (m ++ l) :=
  ⟨fun h => h.rotate List.isRotated_append, fun h => h.rotate List.isRotated_append⟩

/-! ## Frame rules -/

/-- A chain only depends on the outgoing links of all nodes but its last and on
    the incoming links of all nodes but its first. -/
private theorem chain_congr (h : (a :: (l ++ [b])).IsChain (Linked next prev))
    (hn : ∀ u ∈ a :: l, next' u = next u) (hp : ∀ v ∈ l ++ [b], prev' v = prev v) :
    (a :: (l ++ [b])).IsChain (Linked next' prev') := by
  -- each step peels off the link out of the first node and the one back to it
  induction l generalizing a with
  | nil =>
    simp only [List.nil_append, List.isChain_pair, Linked] at h ⊢
    rw [hn a (by simp), hp b (by simp)]
    exact h
  | cons c l ih =>
    simp only [List.cons_append, List.isChain_cons_cons, Linked] at h ⊢
    refine ⟨⟨?_, ?_⟩, ih h.2 (fun u hu => hn u (by simp_all)) (fun v hv => hp v (by simp_all))⟩
    · rw [hn a (by simp)]; exact h.1.1
    · rw [hp c (by simp)]; exact h.1.2

/-- A ring survives every change of links outside it. -/
theorem IsRing.congr (h : IsRing next prev l) (hn : ∀ u ∈ l, next' u = next u)
    (hp : ∀ v ∈ l, prev' v = prev v) : IsRing next' prev' l := by
  cases l with
  | nil => exact Cycle.Chain.nil _
  | cons a l =>
    rw [isRing_cons] at h ⊢
    exact chain_congr h hn (fun v hv => hp v (by simpa [or_comm] using hv))

/-! ## Splicing -/

/-- Redirect the last link of a chain from `t` to `t'`: only the outgoing link of
    the last node `a` changes inside the chain. -/
private theorem chain_retarget {t t' : α}
    (h : (b :: (m ++ [t])).IsChain (Linked next prev)) (hlast : (b :: m).getLast? = some a)
    (hnodup : (b :: m).Nodup) (hlink : Linked next' prev' a t')
    (hn : ∀ u ∈ b :: m, u ≠ a → next' u = next u) (hp : ∀ v ∈ m, prev' v = prev v) :
    (b :: (m ++ [t'])).IsChain (Linked next' prev') := by
  rcases List.eq_nil_or_concat' m with rfl | ⟨m, c, rfl⟩
  · -- a single node, whose link is the redirected one
    obtain rfl : b = a := by simpa using hlast
    simpa using hlink
  · -- the last node is the only one with a new link, since no node comes twice
    obtain rfl : c = a := by simpa [List.getLast?_cons] using hlast
    simp only [List.append_assoc, List.cons_append, List.nil_append,
      List.isChain_cons_append_cons_cons, List.isChain_singleton, and_true] at h ⊢
    have hc : c ∉ b :: m := by
      rw [← List.cons_append, List.nodup_append] at hnodup
      exact fun hm => hnodup.2.2 c hm c (by simp) rfl
    refine ⟨chain_congr h.1 (fun u hu => hn u ?_ ?_) hp, hlink⟩
    · rw [← List.cons_append]; exact List.mem_append_left _ hu
    · rintro rfl; exact hc hu

/-- Splice `x` into the gap between the last node `a` and the first node `b`. -/
theorem IsRing.insert (h : IsRing next prev l) (hfirst : l.head? = some b)
    (hlast : l.getLast? = some a) (hnodup : l.Nodup) (hx : x ∉ l)
    (hax : Linked next' prev' a x) (hxb : Linked next' prev' x b)
    (hn : ∀ u, u ≠ a → u ≠ x → next' u = next u)
    (hp : ∀ v, v ≠ b → v ≠ x → prev' v = prev v) :
    IsRing next' prev' (x :: l) := by
  obtain ⟨m, rfl⟩ := List.head?_eq_some_iff.mp hfirst
  rw [isRing_cons] at h ⊢
  simp only [List.cons_append, List.isChain_cons_cons]
  refine ⟨hxb, chain_retarget h hlast hnodup hax (fun u hu hua => hn u hua ?_)
    (fun v hv => hp v ?_ ?_)⟩
  · rintro rfl; exact hx hu
  · rintro rfl; exact (List.nodup_cons.mp hnodup).1 hv
  · rintro rfl; exact hx (List.mem_cons_of_mem b hv)

/-- Splice the first node `x` out, joining the last node `a` to the second `b`. -/
theorem IsRing.remove (h : IsRing next prev (x :: l)) (hfirst : l.head? = some b)
    (hlast : l.getLast? = some a) (hnodup : (x :: l).Nodup) (hab : Linked next' prev' a b)
    (hn : ∀ u, u ≠ a → u ≠ x → next' u = next u)
    (hp : ∀ v, v ≠ b → v ≠ x → prev' v = prev v) :
    IsRing next' prev' l := by
  obtain ⟨m, rfl⟩ := List.head?_eq_some_iff.mp hfirst
  rw [isRing_cons] at h ⊢
  simp only [List.cons_append, List.isChain_cons_cons] at h
  obtain ⟨hx, hnodup⟩ := List.nodup_cons.mp hnodup
  refine chain_retarget h.2 hlast hnodup hab (fun u hu hua => hn u hua ?_)
    (fun v hv => hp v ?_ ?_)
  · rintro rfl; exact hx hu
  · rintro rfl; exact (List.nodup_cons.mp hnodup).1 hv
  · rintro rfl; exact hx (List.mem_cons_of_mem b hv)

/-! ## Neighbours -/

/-- The first node is joined to the second, the last one back to the first. -/
theorem IsRing.ends (h : IsRing next prev (a :: l)) :
    (∃ b, (l ++ [a]).head? = some b ∧ Linked next prev a b) ∧
      ∃ z, (a :: l).getLast? = some z ∧ Linked next prev z a := by
  rw [isRing_cons] at h
  constructor
  -- a node alone in its ring is its own neighbour on both sides
  · cases l with
    | nil => exact ⟨a, rfl, by simpa using h⟩
    | cons b l => exact ⟨b, rfl, (List.isChain_cons_cons.mp h).1⟩
  · rcases List.eq_nil_or_concat' l with rfl | ⟨l, z, rfl⟩
    · exact ⟨a, rfl, by simpa using h⟩
    · simp only [List.append_assoc, List.cons_append, List.nil_append,
        List.isChain_cons_append_cons_cons] at h
      exact ⟨z, by simp [List.getLast?_cons], h.2.1⟩

/-- Every node of a ring is joined to its successor and to its predecessor, both nodes
    of the ring. -/
theorem IsRing.neighbours_mem (h : IsRing next prev l) (ha : a ∈ l) :
    (∃ b ∈ l, Linked next prev a b) ∧ ∃ z ∈ l, Linked next prev z a := by
  obtain ⟨l₁, l₂, rfl⟩ := List.append_of_mem ha
  -- turn the ring until it starts with `a`
  obtain ⟨⟨b, hbl, hb⟩, z, hzl, hz⟩ := (isRing_rotate_iff.mp h).ends
  have hrot : (a :: l₂) ++ l₁ ~r l₁ ++ a :: l₂ := List.isRotated_append
  have hbmem : b ∈ (a :: l₂) ++ l₁ := by
    have hmem : b ∈ (l₂ ++ l₁) ++ [a] := List.mem_of_mem_head? hbl
    simp only [List.mem_append, List.mem_cons, List.not_mem_nil, or_false] at hmem ⊢
    tauto
  exact ⟨⟨b, hrot.mem_iff.mp hbmem, hb⟩, z, hrot.mem_iff.mp (List.mem_of_getLast? hzl), hz⟩

/-- Every node of a ring has a node behind it and one before it. -/
theorem IsRing.neighbours (h : IsRing next prev l) (ha : a ∈ l) :
    (∃ b, Linked next prev a b) ∧ ∃ z, Linked next prev z a := by
  obtain ⟨⟨b, -, hb⟩, z, -, hz⟩ := h.neighbours_mem ha
  exact ⟨⟨b, hb⟩, z, hz⟩

/-! ## Walks -/

variable [DecidableEq α]

/-- The nodes met by following `f` from `a` until it leads to `stop`; `none`
    when a null link comes first or `fuel` steps do not suffice. -/
def walk (f : α → Option α) (stop : α) : Nat → α → Option (List α)
  | 0, _ => none
  | fuel + 1, a =>
    match f a with
    | none => none
    | some b => if b = stop then some [] else (walk f stop fuel b).map (b :: ·)

/-- Along a chain that ends in `stop` the walk visits its nodes in order, given fuel for all. -/
theorem walk_of_chain {f : α → Option α} {stop : α} {fuel : Nat}
    (h : (a :: (l ++ [stop])).IsChain (fun u v => f u = some v)) (hs : stop ∉ l)
    (hfuel : l.length < fuel) : walk f stop fuel a = some l := by
  induction l generalizing a fuel with
  | nil =>
    obtain ⟨fuel, rfl⟩ : ∃ k, fuel = k + 1 := ⟨fuel - 1, by simp at hfuel; omega⟩
    simp only [List.nil_append, List.isChain_pair] at h
    simp [walk, h]
  | cons c l ih =>
    obtain ⟨fuel, rfl⟩ : ∃ k, fuel = k + 1 := ⟨fuel - 1, by simp at hfuel; omega⟩
    simp only [List.cons_append, List.isChain_cons_cons] at h
    have hc : c ≠ stop := by rintro rfl; simp at hs
    have hrest := ih h.2 (fun hm => hs (List.mem_cons_of_mem c hm)) (by simpa using hfuel)
    simp [walk, h.1, hc, hrest]

/-- A walk that returned followed a chain that ends in `stop`. -/
theorem chain_of_walk {f : α → Option α} {stop : α} {fuel : Nat}
    (h : walk f stop fuel a = some l) :
    (a :: (l ++ [stop])).IsChain (fun u v => f u = some v) := by
  induction fuel generalizing a l with
  | zero => simp [walk] at h
  | succ fuel ih =>
    simp only [walk] at h
    cases hf : f a with
    | none => simp [hf] at h
    | some b =>
      simp only [hf] at h
      -- the walk ends at the sentinel or goes on from `b`
      split at h
      · rename_i hb
        cases h
        simp [hf, hb]
      · obtain ⟨l', hl', rfl⟩ := Option.map_eq_some_iff.mp h
        simp only [List.cons_append, List.isChain_cons_cons]
        exact ⟨hf, ih hl'⟩

/-- Following `next` from the front of a ring meets the other nodes in order. -/
theorem IsRing.walk_next (h : IsRing next prev (a :: l)) (hnodup : (a :: l).Nodup) {fuel : Nat}
    (hfuel : l.length < fuel) : walk next a fuel a = some l := by
  rw [isRing_cons] at h
  exact walk_of_chain (h.imp fun _ _ hl => hl.1) (List.nodup_cons.mp hnodup).1 hfuel

/-- Following `prev` meets them in the reverse order. -/
theorem IsRing.walk_prev (h : IsRing next prev (a :: l)) (hnodup : (a :: l).Nodup) {fuel : Nat}
    (hfuel : l.length < fuel) : walk prev a fuel a = some l.reverse := by
  rw [isRing_cons] at h
  -- the links back make a chain of the reversed ring
  have hrev : (a :: (l ++ [a])).reverse.IsChain (fun u v => prev u = some v) :=
    List.isChain_reverse.mpr (h.imp fun _ _ hl => hl.2)
  rw [List.reverse_cons, List.reverse_append, List.reverse_singleton] at hrev
  exact walk_of_chain hrev (by simpa using (List.nodup_cons.mp hnodup).1) (by simpa using hfuel)

end LinkRing
