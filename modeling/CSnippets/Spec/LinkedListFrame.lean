import CSnippets.Spec.LinkedListCorrect

/-!
# What adding a node changes

`ll_add` and `ll_add_tail` on any set of disjoint rings: the ring of the anchor gets
the new node beside it, and of the links of all other nodes only the two that joined
the anchor to its neighbour change.
-/

namespace LinkedList

open LinkRing

variable {ν : Type} [DecidableEq ν] {s : State ν} {x p u : ν}

/-! ## Neighbours stay in their ring -/

omit [DecidableEq ν] in
/-- A ring is closed under both links. -/
theorem Matches.links_mem (h : Matches s) {r : List ν} (hr : r ∈ s.rings) (hu : u ∈ r) :
    (∀ b, (s.heap u).next = some b → b ∈ r) ∧ ∀ a, (s.heap u).prev = some a → a ∈ r := by
  obtain ⟨⟨b, hb, hub⟩, a, ha, hau⟩ := (h.ring r hr).neighbours_mem hu
  constructor
  · intro b' hb'
    obtain rfl : b = b' := Option.some.inj (hub.1.symm.trans hb')
    exact hb
  · intro a' ha'
    obtain rfl : a = a' := Option.some.inj (hau.2.symm.trans ha')
    exact ha

/-- A node outside the ring of `p` is neither its successor nor its predecessor. -/
theorem Matches.not_neighbour (h : Matches s) {r : List ν} (hr : r ∈ s.rings) (hp : p ∉ r)
    (hpmem : p ∈ s.rings.flatten) (hu : u ∈ r) :
    (s.heap p).next ≠ some u ∧ (s.heap p).prev ≠ some u := by
  obtain ⟨⟨b, hb, hback⟩, a, ha, hforth⟩ :
      (∃ b, (s.heap p).next = some b ∧ (s.heap b).prev = some p) ∧
        ∃ a, (s.heap p).prev = some a ∧ (s.heap a).next = some p :=
    ⟨h.wellFormed.next_prev p hpmem, h.wellFormed.prev_next p hpmem⟩
  constructor
  · intro hnext
    obtain rfl : b = u := Option.some.inj (hb.symm.trans hnext)
    exact hp ((h.links_mem hr hu).2 p hback)
  · intro hprev
    obtain rfl : a = u := Option.some.inj (ha.symm.trans hprev)
    exact hp ((h.links_mem hr hu).1 p hforth)

/-! ## The links written -/

variable {heap heap' : Heap ν} {prev next : Option ν}

/-- `__ll_add` writes the two links of the new node, the forward link of `prev` and
    the backward link of `next`. -/
theorem rawLlAdd_frame (h : rawLlAdd heap x prev next = some heap') (hu : u ≠ x) :
    (prev ≠ some u → (heap' u).next = (heap u).next) ∧
      (next ≠ some u → (heap' u).prev = (heap u).prev) := by
  cases prev with
  | none => simp [rawLlAdd, setNext, setPrev] at h
  | some a =>
    cases next with
    | none => simp [rawLlAdd, setNext, setPrev] at h
    | some b =>
      obtain rfl := Option.some.inj h
      simp only [Function.update_apply]
      grind

/-- Adding between two links of `p` leaves the other rings alone. -/
theorem Matches.others_unchanged (h : Matches s) (hx : x ∉ s.rings.flatten)
    (hp : p ∈ s.rings.flatten) (hprev : prev = some p ∨ prev = (s.heap p).prev)
    (hnext : next = some p ∨ next = (s.heap p).next)
    (hadd : rawLlAdd s.heap x prev next = some heap') {r : List ν} (hr : r ∈ s.rings) (hpr : p ∉ r)
    (hu : u ∈ r) : heap' u = s.heap u := by
  have hux : u ≠ x := fun hux => hx (hux ▸ List.mem_flatten.mpr ⟨r, hr, hu⟩)
  have hup : some p ≠ some u := fun hup => hpr (Option.some.inj hup ▸ hu)
  obtain ⟨hsucc, hpred⟩ := h.not_neighbour hr hpr hp hu
  have hframe := rawLlAdd_frame hadd hux
  have hn : (heap' u).next = (s.heap u).next := hframe.1 (by
    cases hprev with
    | inl hprev => rw [hprev]; exact hup
    | inr hprev => rw [hprev]; exact hpred)
  have hp' : (heap' u).prev = (s.heap u).prev := hframe.2 (by
    cases hnext with
    | inl hnext => rw [hnext]; exact hup
    | inr hnext => rw [hnext]; exact hsucc)
  -- both links agree, so the nodes do
  cases hu' : heap' u
  cases hu'' : s.heap u
  simp_all

/-! ## Both ways of adding -/

/-- On any set of disjoint rings `ll_add` puts a new node right after the anchor and
    `ll_add_tail` right before it, as both directions read the rings, and of the other
    nodes only the anchor and its neighbour get one new link each. -/
theorem ll_add_inserts (s : State ν) (x p : ν) (h : WellFormed s) (hp : p ∈ s.rings.flatten)
    (hx : x ∉ s.rings.flatten) :
    (∃ heap', llAdd s.heap x p = some heap' ∧
      WellFormed ⟨heap', s.rings.map (insertAfter p x)⟩ ∧
      (∀ r ∈ s.rings, p ∉ r → ∀ u ∈ r, heap' u = s.heap u) ∧
      ∀ u ≠ x, (u ≠ p → (heap' u).next = (s.heap u).next) ∧
        ((s.heap p).next ≠ some u → (heap' u).prev = (s.heap u).prev)) ∧
    ∃ heap', llAddTail s.heap x p = some heap' ∧
      WellFormed ⟨heap', s.rings.map (insertBeforeCyclic p x)⟩ ∧
      (∀ r ∈ s.rings, p ∉ r → ∀ u ∈ r, heap' u = s.heap u) ∧
      ∀ u ≠ x, ((s.heap p).prev ≠ some u → (heap' u).next = (s.heap u).next) ∧
        (u ≠ p → (heap' u).prev = (s.heap u).prev) := by
  have hm := h.matches
  have hself : ∀ u, u ≠ p → some p ≠ some u := fun u hup hpu => hup (Option.some.inj hpu).symm
  -- both insertions write four links, and differ in the side of `p`
  constructor
  · obtain ⟨s', hstep, hm'⟩ := llAdd_matches hm hx hp
    obtain ⟨heap', hadd, rfl⟩ := Option.map_eq_some_iff.mp hstep
    refine ⟨heap', hadd, hm'.wellFormed, fun r hr hpr u hu => ?_, fun u hux => ?_⟩
    · exact hm.others_unchanged hx hp (Or.inl rfl) (Or.inr rfl) hadd hr hpr hu
    · have hframe := rawLlAdd_frame hadd hux
      exact ⟨fun hup => hframe.1 (hself u hup), hframe.2⟩
  · obtain ⟨s', hstep, hm'⟩ := llAddTail_matches hm hx hp
    obtain ⟨heap', hadd, rfl⟩ := Option.map_eq_some_iff.mp hstep
    refine ⟨heap', hadd, hm'.wellFormed, fun r hr hpr u hu => ?_, fun u hux => ?_⟩
    · exact hm.others_unchanged hx hp (Or.inr rfl) (Or.inl rfl) hadd hr hpr hu
    · have hframe := rawLlAdd_frame hadd hux
      exact ⟨hframe.1, fun hup => hframe.2 (hself u hup)⟩

/-- Two empty lists: node 1 is added to the one whose head is its own neighbour. -/
theorem ll_add_inserts_empty_list :
    ∃ heap', llAdd (llInitList (llInitList (fun _ : Nat => ⟨none, none⟩) 5) 0) 1 0 = some heap' ∧
      WellFormed ⟨heap', [[0, 1], [5]]⟩ := by
  have hempty : Matches (⟨fun _ : Nat => ⟨none, none⟩, []⟩ : State Nat) :=
    ⟨List.nodup_nil, List.not_mem_nil, fun r hr => absurd hr List.not_mem_nil⟩
  have hfive := llInitList_matches hempty (x := 5) (by simp)
  have hzero := llInitList_matches hfive (x := 0) (by simp)
  obtain ⟨heap', hadd, hwf, -⟩ :=
    (ll_add_inserts _ 1 0 hzero.wellFormed (by simp) (by simp)).1
  exact ⟨heap', hadd, hwf⟩

end LinkedList
