import CSnippets.ForStd.LinkRing
import CSnippets.ForStd.Runs
import CSnippets.Native.LinkedList

/-!
# Linked rings and the sequences they stand for

The abstract state is a list of *rings*: each a head followed by the sequence of
its nodes. `Matches` says that the heap links every ring in both directions; it
is kept by `ll_init_list`, `ll_add` and `ll_add_tail`. `ll_del` keeps it exactly
when the deleted node is the only one behind its head, because `__ll_del` stores
the wrong back link.
-/

namespace LinkedList

open LinkRing

variable {ν : Type} [DecidableEq ν]

/-! ## The abstract rings -/

/-- `x` inserted right after `p`; a list without `p` stays as it is. -/
def insertAfter (p x : ν) : List ν → List ν
  | [] => []
  | a :: l => if a = p then a :: x :: l else a :: insertAfter p x l

/-- `x` inserted right before `p`. -/
def insertBefore (p x : ν) : List ν → List ν
  | [] => []
  | a :: l => if a = p then x :: a :: l else a :: insertBefore p x l

/-- `x` inserted right before `p` in cyclic order: before the head is the end. -/
def insertBeforeCyclic (p x : ν) : List ν → List ν
  | [] => []
  | h :: l => if h = p then h :: (l ++ [x]) else h :: insertBefore p x l

/-- A heap and the rings it should hold, each with its head first. -/
structure State (ν : Type) where
  heap : Heap ν
  rings : List (List ν)

/-- One call of the list interface. -/
inductive Op (ν : Type) where
  | init (x : ν)
  | add (x p : ν)
  | addTail (x p : ν)
  | del (x : ν)
deriving Repr, DecidableEq

/-- The source's function on the heap, the ordinary sequence operation beside it. -/
def step (s : State ν) : Op ν → Option (State ν)
  | .init x => some ⟨llInitList s.heap x, [x] :: s.rings⟩
  | .add x p => (llAdd s.heap x p).map (⟨·, s.rings.map (insertAfter p x)⟩)
  | .addTail x p => (llAddTail s.heap x p).map (⟨·, s.rings.map (insertBeforeCyclic p x)⟩)
  | .del x => (llDel s.heap x).map (⟨·, s.rings.map (List.erase · x)⟩)

/-- The callers' side: new nodes are in no list, anchors are in some list, and a
    deleted node is a non-head node of some list. -/
def Admitted (s : State ν) : Op ν → Prop
  | .init x => x ∉ s.rings.flatten
  | .add x p => x ∉ s.rings.flatten ∧ p ∈ s.rings.flatten
  | .addTail x p => x ∉ s.rings.flatten ∧ p ∈ s.rings.flatten
  | .del x => ∃ r ∈ s.rings, x ∈ r.tail

/-- The heap is a set of disjoint circular doubly linked lists that stand for
    the sequences of the abstract state. -/
structure WellFormed (s : State ν) : Prop where
  disjoint : s.rings.flatten.Nodup
  headed : [] ∉ s.rings
  next_prev : ∀ x ∈ s.rings.flatten, ∃ y, (s.heap x).next = some y ∧ (s.heap y).prev = some x
  prev_next : ∀ x ∈ s.rings.flatten, ∃ y, (s.heap x).prev = some y ∧ (s.heap y).next = some x
  walk_next : ∀ h l, h :: l ∈ s.rings → ∀ n > l.length,
    walk (fun x => (s.heap x).next) h n h = some l
  walk_prev : ∀ h l, h :: l ∈ s.rings → ∀ n > l.length,
    walk (fun x => (s.heap x).prev) h n h = some l.reverse
  isEmpty_iff : ∀ h l, h :: l ∈ s.rings → (llIsEmpty s.heap h ↔ l = [])

/-! ## The invariant -/

/-- The nodes of `r` are linked in a ring by the heap. -/
abbrev RingIn (h : Heap ν) (r : List ν) : Prop :=
  IsRing (fun x => (h x).next) (fun x => (h x).prev) r

/-- Every abstract ring is linked, and no node is in two places. -/
structure Matches (s : State ν) : Prop where
  disjoint : s.rings.flatten.Nodup
  headed : [] ∉ s.rings
  ring : ∀ r ∈ s.rings, RingIn s.heap r

/-- Linked rings can be walked both ways, so the heap is well formed. -/
theorem Matches.wellFormed {s : State ν} (h : Matches s) : WellFormed s := by
  have hnodup : ∀ r ∈ s.rings, r.Nodup := (List.nodup_flatten.mp h.disjoint).1
  exact
    { disjoint := h.disjoint
      headed := h.headed
      next_prev := fun x hx => by
        obtain ⟨r, hr, hxr⟩ := List.mem_flatten.mp hx
        exact ((h.ring r hr).neighbours hxr).1
      prev_next := fun x hx => by
        obtain ⟨r, hr, hxr⟩ := List.mem_flatten.mp hx
        obtain ⟨z, hz⟩ := ((h.ring r hr).neighbours hxr).2
        exact ⟨z, hz.2, hz.1⟩
      walk_next := fun a l hl n hn => (h.ring _ hl).walk_next (hnodup _ hl) hn
      walk_prev := fun a l hl n hn => (h.ring _ hl).walk_prev (hnodup _ hl) hn
      isEmpty_iff := fun a l hl => by
        obtain ⟨b, hb, hab⟩ := (h.ring _ hl).ends.1
        have hne : a ∉ l := (List.nodup_cons.mp (hnodup _ hl)).1
        have hnext : (s.heap a).next = some b := hab.1
        -- the head follows itself only when no node does
        rw [llIsEmpty, beq_iff_eq, hnext, Option.some.injEq]
        cases l with
        | nil => simpa [eq_comm] using hb
        | cons c l =>
          obtain rfl : c = b := by simpa using hb
          simpa using fun hca => hne (by simp [hca]) }

/-- In a well formed heap every abstract ring is linked. -/
theorem WellFormed.matches {s : State ν} (h : WellFormed s) : Matches s := by
  refine ⟨h.disjoint, h.headed, fun r hr => ?_⟩
  cases r with
  | nil => exact absurd hr h.headed
  | cons a l =>
    -- the walk along `next` has the forward links of the ring
    have hchain := chain_of_walk (h.walk_next a l hr (l.length + 1) (Nat.lt_succ_self _))
    rw [RingIn, isRing_cons]
    refine hchain.imp_of_mem_imp fun x y hx _ hxy => ⟨hxy, ?_⟩
    -- the link back is the mirror image
    have hmem : x ∈ s.rings.flatten :=
      List.mem_flatten.mpr ⟨a :: l, hr, by simpa [or_comm] using hx⟩
    obtain ⟨z, hz, hback⟩ := h.next_prev x hmem
    obtain rfl : z = y := Option.some.inj (hz.symm.trans hxy)
    exact hback

/-- The heap is well formed exactly if every abstract ring is linked. -/
theorem wellFormed_iff {s : State ν} : WellFormed s ↔ Matches s :=
  ⟨WellFormed.matches, Matches.wellFormed⟩

/-! ## Replacing one ring -/

omit [DecidableEq ν] in
/-- Exchanging one ring for another that the new heap links, when the new heap
    differs from the old one on no node of the other rings. -/
private theorem Matches.replace {s : State ν} {R₁ R₂ : List (List ν)} {r r' : List ν}
    {heap' : Heap ν} (h : Matches s) (hs : s.rings = R₁ ++ r :: R₂)
    (hr' : RingIn heap' r') (hne : r' ≠ []) (hdis : (R₁ ++ r' :: R₂).flatten.Nodup)
    (hframe : ∀ u ∈ (R₁ ++ R₂).flatten, heap' u = s.heap u) :
    Matches ⟨heap', R₁ ++ r' :: R₂⟩ := by
  refine ⟨hdis, ?_, ?_⟩
  · have hhead := h.headed
    rw [hs] at hhead
    simp only [List.mem_append, List.mem_cons, not_or] at hhead ⊢
    exact ⟨hhead.1, hne.symm, hhead.2.2⟩
  · intro q hq
    have hcases : q = r' ∨ q ∈ R₁ ++ R₂ := by
      simp only [List.mem_append, List.mem_cons] at hq ⊢
      tauto
    -- the ring replaced is given; the others lie outside what the operation wrote
    rcases hcases with rfl | hq'
    · exact hr'
    · have hold : q ∈ s.rings := by
        rw [hs]; simp only [List.mem_append, List.mem_cons] at hq' ⊢; tauto
      have hsame : ∀ u ∈ q, heap' u = s.heap u :=
        fun u hu => hframe u (List.mem_flatten.mpr ⟨q, hq', hu⟩)
      exact (h.ring q hold).congr (fun u hu => congrArg ListItem.next (hsame u hu))
        (fun u hu => congrArg ListItem.prev (hsame u hu))

omit [DecidableEq ν] in
/-- The ring of a node, split at the node. -/
private theorem exists_ring_split {rings : List (List ν)} {p : ν} (hp : p ∈ rings.flatten) :
    ∃ R₁ r₁ r₂ R₂, rings = R₁ ++ (r₁ ++ p :: r₂) :: R₂ := by
  obtain ⟨r, hr, hpr⟩ := List.mem_flatten.mp hp
  obtain ⟨R₁, R₂, rfl⟩ := List.append_of_mem hr
  obtain ⟨r₁, r₂, rfl⟩ := List.append_of_mem hpr
  exact ⟨R₁, r₁, r₂, R₂, rfl⟩

omit [DecidableEq ν] in
/-- Applying an edit that leaves lists without `p` alone changes only the ring of `p`. -/
private theorem map_edit {R₁ R₂ : List (List ν)} {r : List ν} {p : ν} {f : List ν → List ν}
    (hf : ∀ q, p ∉ q → f q = q) (hp : p ∈ r) (hdis : (R₁ ++ r :: R₂).flatten.Nodup) :
    (R₁ ++ r :: R₂).map f = R₁ ++ f r :: R₂ := by
  simp only [List.flatten_append, List.flatten_cons, List.nodup_append, List.mem_append,
    List.mem_flatten] at hdis
  have h₁ : ∀ q ∈ R₁, f q = q := fun q hq =>
    hf q fun hpq => hdis.2.2 p ⟨q, hq, hpq⟩ p (Or.inl hp) rfl
  have h₂ : ∀ q ∈ R₂, f q = q := fun q hq =>
    hf q fun hpq => hdis.2.1.2.2 p hp p ⟨q, hq, hpq⟩ rfl
  rw [List.map_append, List.map_cons, List.map_congr_left h₁, List.map_congr_left h₂,
    List.map_id', List.map_id']

omit [DecidableEq ν] in
/-- A node of one ring is in none of the others. -/
private theorem not_mem_others {R₁ R₂ : List (List ν)} {r : List ν} {u : ν}
    (hdis : (R₁ ++ r :: R₂).flatten.Nodup) (hu : u ∈ r) : u ∉ (R₁ ++ R₂).flatten := by
  have hperm : (R₁ ++ r :: R₂).flatten.Perm (r ++ (R₁ ++ R₂).flatten) := by
    simpa using (List.perm_append_comm_assoc R₁.flatten r R₂.flatten)
  have hnodup := hperm.nodup_iff.mp hdis
  exact fun hmem => (List.nodup_append.mp hnodup).2.2 u hu u hmem rfl

/-! ## The pointer writes -/

/-- `__ll_add` links `x` between `a` and `b` (which may be one node) and writes
    nothing else. -/
private theorem rawLlAdd_spec (h : Heap ν) {x a b : ν} (hxa : x ≠ a) (hxb : x ≠ b) :
    ∃ h', rawLlAdd h x (some a) (some b) = some h' ∧
      ((h' a).next = some x ∧ (h' x).prev = some a) ∧
      ((h' x).next = some b ∧ (h' b).prev = some x) ∧
      (∀ u, u ≠ a → u ≠ x → (h' u).next = (h u).next) ∧
      (∀ v, v ≠ b → v ≠ x → (h' v).prev = (h v).prev) := by
  refine ⟨_, rfl, ⟨?_, ?_⟩, ⟨?_, ?_⟩, fun u hua hux => ?_, fun v hvb hvx => ?_⟩
  all_goals simp only [Function.update_apply]
  all_goals grind

/-- `ll_del`, as written, joins the neighbours `a` and `b` of `x` forwards but
    stores `b` as the predecessor of `b`. -/
private theorem llDel_spec (h : Heap ν) {x a b : ν} (hxa : x ≠ a) (hxb : x ≠ b)
    (hprev : (h x).prev = some a) (hnext : (h x).next = some b) :
    ∃ h', llDel h x = some h' ∧ (h' a).next = some b ∧ (h' b).prev = some b ∧
      (∀ u, u ≠ a → u ≠ x → (h' u).next = (h u).next) ∧
      (∀ v, v ≠ b → v ≠ x → (h' v).prev = (h v).prev) := by
  refine ⟨_, by rw [llDel, hprev, hnext]; rfl, ?_, ?_, fun u hua hux => ?_, fun v hvb hvx => ?_⟩
  all_goals simp only [Function.update_apply]
  all_goals grind

/-! ## The operations -/

/-- `ll_init_list` on a node in no list makes it the head of an empty one. -/
theorem llInitList_matches {s : State ν} (h : Matches s) {x : ν} (hx : x ∉ s.rings.flatten) :
    Matches ⟨llInitList s.heap x, [x] :: s.rings⟩ := by
  refine ⟨?_, ?_, ?_⟩
  · simpa using ⟨by simpa using hx, h.disjoint⟩
  · simpa using h.headed
  · intro r hr
    rcases List.mem_cons.mp hr with rfl | hr'
    · rw [RingIn, isRing_cons]
      simp [Linked, llInitList]
    · have hsame : ∀ u ∈ r, llInitList s.heap x u = s.heap u := fun u hu => by
        have hux : u ≠ x := fun hux => hx (hux ▸ List.mem_flatten.mpr ⟨r, hr', hu⟩)
        rw [llInitList, Function.update_of_ne hux]
      exact (h.ring r hr').congr (fun u hu => congrArg ListItem.next (hsame u hu))
        (fun u hu => congrArg ListItem.prev (hsame u hu))

/-- Splicing a new node `x` in front of `l`, a rotation of one of the rings. -/
private theorem rawLlAdd_matches {s : State ν} (h : Matches s) {R₁ R₂ : List (List ν)}
    {r r' l : List ν} {a b x : ν} (hs : s.rings = R₁ ++ r :: R₂) (hl : r ~r l)
    (hfirst : l.head? = some b) (hlast : l.getLast? = some a)
    (hx : x ∉ s.rings.flatten) (hr' : x :: l ~r r') :
    ∃ heap', rawLlAdd s.heap x (some a) (some b) = some heap' ∧
      Matches ⟨heap', R₁ ++ r' :: R₂⟩ := by
  have hdis := h.disjoint
  rw [hs] at hdis hx
  have hrx : ∀ u ∈ r, u ≠ x := fun u hu hux => hx (by
    rw [← hux]; exact List.mem_flatten.mpr ⟨r, by simp, hu⟩)
  have har : a ∈ r := hl.mem_iff.mpr (List.mem_of_getLast? hlast)
  have hbr : b ∈ r := hl.mem_iff.mpr (List.mem_of_mem_head? hfirst)
  have hnodup : l.Nodup := hl.nodup_iff.mp ((List.nodup_flatten.mp hdis).1 r (by simp))
  obtain ⟨heap', hadd, hax, hxb, hn, hp⟩ :=
    rawLlAdd_spec s.heap (hrx a har).symm (hrx b hbr).symm
  have hring : RingIn heap' (x :: l) :=
    ((h.ring r (by simp [hs])).rotate hl).insert hfirst hlast hnodup
      (fun hmem => hrx x (hl.mem_iff.mpr hmem) rfl) hax hxb hn hp
  have hperm : (R₁ ++ r' :: R₂).flatten.Perm (x :: (R₁ ++ r :: R₂).flatten) := by
    have hr'' : r'.Perm (x :: r) := hr'.perm.symm.trans (hl.perm.symm.cons x)
    simp only [List.flatten_append, List.flatten_cons]
    exact ((hr''.append_right _).append_left _).trans List.perm_middle
  refine ⟨heap', hadd, h.replace hs (hring.rotate hr') ?_ ?_ fun u hu => ?_⟩
  · intro hnil
    rw [hnil] at hr'
    simpa using hr'.perm.length_eq
  · exact hperm.nodup_iff.mpr (List.nodup_cons.mpr ⟨hx, hdis⟩)
  · -- the nodes of the other rings are neither `a`, `b` nor `x`
    have hua : u ≠ a := fun hua => not_mem_others hdis har (hua ▸ hu)
    have hub : u ≠ b := fun hub => not_mem_others hdis hbr (hub ▸ hu)
    have hux : u ≠ x := by
      intro hux
      apply hx
      simp only [List.flatten_append, List.flatten_cons, List.mem_append] at hu ⊢
      rw [← hux]
      tauto
    have h₁ := hn u hua hux
    have h₂ := hp u hub hux
    -- both links agree, so the nodes do
    cases hu' : heap' u
    cases hu'' : s.heap u
    simp_all

omit [DecidableEq ν] in
/-- The node `p` moved to the front of its ring. -/
private theorem rotate_front (r₁ r₂ : List ν) (p : ν) : r₁ ++ p :: r₂ ~r p :: (r₂ ++ r₁) :=
  List.isRotated_append

/-- A ring without the node in question is left alone. -/
private theorem insertAfter_of_not_mem {p x : ν} {l : List ν} (hp : p ∉ l) :
    insertAfter p x l = l := by
  induction l with
  | nil => rfl
  | cons a l ih =>
    rw [List.mem_cons, not_or] at hp
    rw [insertAfter, if_neg (Ne.symm hp.1), ih hp.2]

/-- The new node comes right behind the given one. -/
private theorem insertAfter_split {p x : ν} {r₁ r₂ : List ν} (hp : p ∉ r₁) :
    insertAfter p x (r₁ ++ p :: r₂) = r₁ ++ p :: x :: r₂ := by
  induction r₁ with
  | nil => simp [insertAfter]
  | cons a r₁ ih =>
    rw [List.mem_cons, not_or] at hp
    rw [List.cons_append, insertAfter, if_neg (Ne.symm hp.1), ih hp.2, List.cons_append]

/-- A ring without the node in question is left alone. -/
private theorem insertBefore_of_not_mem {p x : ν} {l : List ν} (hp : p ∉ l) :
    insertBefore p x l = l := by
  induction l with
  | nil => rfl
  | cons a l ih =>
    rw [List.mem_cons, not_or] at hp
    rw [insertBefore, if_neg (Ne.symm hp.1), ih hp.2]

/-- The new node comes right before the given one. -/
private theorem insertBefore_split {p x : ν} {r₁ r₂ : List ν} (hp : p ∉ r₁) :
    insertBefore p x (r₁ ++ p :: r₂) = r₁ ++ x :: p :: r₂ := by
  induction r₁ with
  | nil => simp [insertBefore]
  | cons a r₁ ih =>
    rw [List.mem_cons, not_or] at hp
    rw [List.cons_append, insertBefore, if_neg (Ne.symm hp.1), ih hp.2, List.cons_append]

/-- A ring without the node in question is left alone. -/
private theorem insertBeforeCyclic_of_not_mem {p x : ν} {l : List ν} (hp : p ∉ l) :
    insertBeforeCyclic p x l = l := by
  cases l with
  | nil => rfl
  | cons a l =>
    rw [List.mem_cons, not_or] at hp
    rw [insertBeforeCyclic, if_neg (Ne.symm hp.1), insertBefore_of_not_mem hp.2]

/-- Inserting before `p` in cyclic order puts `x` in front of the ring rotated to `p`. -/
private theorem insertBeforeCyclic_rotate {p x : ν} {r₁ r₂ : List ν} (hp : p ∉ r₁) :
    x :: p :: (r₂ ++ r₁) ~r insertBeforeCyclic p x (r₁ ++ p :: r₂) := by
  cases r₁ with
  | nil =>
    have hrot : [x] ++ (p :: r₂) ~r (p :: r₂) ++ [x] := List.isRotated_append
    simpa [insertBeforeCyclic] using hrot
  | cons h r₁ =>
    rw [List.mem_cons, not_or] at hp
    rw [List.cons_append, insertBeforeCyclic, if_neg (Ne.symm hp.1), insertBefore_split hp.2]
    have hrot : (x :: p :: r₂) ++ (h :: r₁) ~r (h :: r₁) ++ (x :: p :: r₂) :=
      List.isRotated_append
    simpa using hrot

omit [DecidableEq ν] in
/-- In rings without repetition a node stands once in its ring. -/
private theorem not_mem_front {R₁ R₂ : List (List ν)} {r₁ r₂ : List ν} {p : ν}
    (hdis : (R₁ ++ (r₁ ++ p :: r₂) :: R₂).flatten.Nodup) : p ∉ r₁ := by
  have hr : (r₁ ++ p :: r₂).Nodup := (List.nodup_flatten.mp hdis).1 _ (by simp)
  exact fun hmem => (List.nodup_append.mp hr).2.2 p hmem p (by simp) rfl

/-- `ll_add` inserts the new node after its anchor. -/
theorem llAdd_matches {s : State ν} (h : Matches s) {x p : ν} (hx : x ∉ s.rings.flatten)
    (hp : p ∈ s.rings.flatten) : ∃ s', step s (.add x p) = some s' ∧ Matches s' := by
  obtain ⟨R₁, r₁, r₂, R₂, hs⟩ := exists_ring_split hp
  have hdis := h.disjoint
  rw [hs] at hdis
  have hpr₁ := not_mem_front hdis
  obtain ⟨⟨b, hb, hnext, -⟩, -⟩ :=
    ((h.ring (r₁ ++ p :: r₂) (by simp [hs])).rotate (rotate_front r₁ r₂ p)).ends
  -- the gap after `p` at the front of the ring rotated to end in `p`
  have hl : r₁ ++ p :: r₂ ~r (r₂ ++ r₁) ++ [p] :=
    (rotate_front r₁ r₂ p).trans (List.isRotated_append (l := [p]))
  have hr' : x :: ((r₂ ++ r₁) ++ [p]) ~r r₁ ++ p :: x :: r₂ := by
    have hrot : (x :: r₂) ++ (r₁ ++ [p]) ~r (r₁ ++ [p]) ++ (x :: r₂) := List.isRotated_append
    simpa using hrot
  obtain ⟨heap', hadd, hm⟩ := rawLlAdd_matches (a := p) h hs hl hb (by simp) hx hr'
  refine ⟨⟨heap', R₁ ++ (r₁ ++ p :: x :: r₂) :: R₂⟩, ?_, hm⟩
  have hmap : s.rings.map (insertAfter p x) = R₁ ++ (r₁ ++ p :: x :: r₂) :: R₂ := by
    rw [hs, map_edit (fun q => insertAfter_of_not_mem) (by simp) hdis, insertAfter_split hpr₁]
  have hnext' : (s.heap p).next = some b := hnext
  rw [step, llAdd, hnext', hadd, hmap]
  rfl

/-- `ll_add_tail` inserts the new node before its anchor. -/
theorem llAddTail_matches {s : State ν} (h : Matches s) {x p : ν} (hx : x ∉ s.rings.flatten)
    (hp : p ∈ s.rings.flatten) : ∃ s', step s (.addTail x p) = some s' ∧ Matches s' := by
  obtain ⟨R₁, r₁, r₂, R₂, hs⟩ := exists_ring_split hp
  have hdis := h.disjoint
  rw [hs] at hdis
  have hpr₁ := not_mem_front hdis
  obtain ⟨-, a, ha, -, hprev⟩ :=
    ((h.ring (r₁ ++ p :: r₂) (by simp [hs])).rotate (rotate_front r₁ r₂ p)).ends
  obtain ⟨heap', hadd, hm⟩ := rawLlAdd_matches h hs (rotate_front r₁ r₂ p) rfl ha hx
    (insertBeforeCyclic_rotate hpr₁)
  refine ⟨_, ?_, hm⟩
  have hmap : s.rings.map (insertBeforeCyclic p x) =
      R₁ ++ insertBeforeCyclic p x (r₁ ++ p :: r₂) :: R₂ := by
    rw [hs, map_edit (fun q => insertBeforeCyclic_of_not_mem) (by simp) hdis]
  have hprev' : (s.heap p).prev = some a := hprev
  rw [step, llAddTail, hprev', hadd, hmap]
  rfl

/-- The deleted node is the only one behind its head: its two links agree. -/
def OnlyNode (s : State ν) : Op ν → Prop
  | .del x => (s.heap x).prev = (s.heap x).next
  | _ => True

/-- Leaving a node out of the rings touches its own ring only. -/
private theorem map_erase_ring {R₁ R₂ : List (List ν)} {hd x : ν} {l₁ l₂ : List ν}
    (hdis : (R₁ ++ (hd :: (l₁ ++ x :: l₂)) :: R₂).flatten.Nodup) :
    (R₁ ++ (hd :: (l₁ ++ x :: l₂)) :: R₂).map (List.erase · x) =
      R₁ ++ (hd :: (l₁ ++ l₂)) :: R₂ := by
  have hfront : x ∉ hd :: l₁ := by
    apply not_mem_front (p := x)
    exact hdis
  rw [List.mem_cons, not_or] at hfront
  have hne : ¬ (hd == x) = true := by simpa using Ne.symm hfront.1
  rw [map_edit (fun q hq => List.erase_of_not_mem hq) (by simp) hdis,
    List.erase_cons_tail hne, List.erase_append_right _ hfront.2, List.erase_cons_head]

omit [DecidableEq ν] in
/-- ... and keeps the nodes distinct. -/
private theorem nodup_flatten_erase {R₁ R₂ : List (List ν)} {hd x : ν} {l₁ l₂ : List ν}
    (hdis : (R₁ ++ (hd :: (l₁ ++ x :: l₂)) :: R₂).flatten.Nodup) :
    (R₁ ++ (hd :: (l₁ ++ l₂)) :: R₂).flatten.Nodup := by
  apply List.Nodup.sublist _ hdis
  simp only [List.flatten_append, List.flatten_cons]
  apply List.Sublist.append_left
  apply List.Sublist.append_right
  exact (List.sublist_cons_self x l₂).append_left (hd :: l₁)

/-- `ll_del` keeps the rings exactly when it deletes the only node of its list. -/
theorem llDel_matches_iff {s : State ν} (h : Matches s) {x : ν}
    (hx : ∃ r ∈ s.rings, x ∈ r.tail) :
    (∃ s', step s (.del x) = some s' ∧ Matches s') ↔ (s.heap x).prev = (s.heap x).next := by
  obtain ⟨r, hr, hxr⟩ := hx
  obtain ⟨R₁, R₂, hs⟩ := List.append_of_mem hr
  cases r with
  | nil => simp at hxr
  | cons hd t =>
    obtain ⟨l₁, l₂, rfl⟩ := List.append_of_mem hxr
    have hdis := h.disjoint
    rw [hs] at hdis
    have hnodup : (hd :: (l₁ ++ x :: l₂)).Nodup := (List.nodup_flatten.mp hdis).1 _ (by simp)
    -- the ring without `x`, rotated to start behind it
    have hrot : hd :: (l₁ ++ x :: l₂) ~r x :: (l₂ ++ hd :: l₁) :=
      List.isRotated_append (l := hd :: l₁)
    have hback : l₂ ++ hd :: l₁ ~r hd :: (l₁ ++ l₂) := List.isRotated_append
    have hring := (h.ring _ hr).rotate hrot
    have hnodup' : (x :: (l₂ ++ hd :: l₁)).Nodup := hrot.nodup_iff.mp hnodup
    obtain ⟨⟨b, hb, hnext, -⟩, a, ha, -, hprev⟩ := hring.ends
    replace hb : (l₂ ++ hd :: l₁).head? = some b := by
      cases l₂ <;> simpa using hb
    replace ha : (l₂ ++ hd :: l₁).getLast? = some a := by
      rw [List.getLast?_cons_of_ne_nil (by simp)] at ha
      exact ha
    -- both neighbours are in the rest of the ring, so neither is `x`
    have hxl := (List.nodup_cons.mp hnodup').1
    have hxa : x ≠ a := fun hxa => hxl (hxa ▸ List.mem_of_getLast? ha)
    have hxb : x ≠ b := fun hxb => hxl (hxb ▸ List.mem_of_mem_head? hb)
    obtain ⟨heap', hdel, hab, hbb, hn, hp⟩ := llDel_spec s.heap hxa hxb hprev hnext
    have hstep : step s (.del x) = some ⟨heap', R₁ ++ (hd :: (l₁ ++ l₂)) :: R₂⟩ := by
      rw [step, hdel, hs, map_erase_ring hdis]
      rfl
    have hcond : (s.heap x).prev = (s.heap x).next ↔ a = b := by
      have hprev' : (s.heap x).prev = some a := hprev
      have hnext' : (s.heap x).next = some b := hnext
      rw [hprev', hnext', Option.some.injEq]
    rw [hcond]
    constructor
    · intro hm
      obtain ⟨s', hs', hm⟩ := hm
      obtain rfl : _ = s' := Option.some.inj (hstep.symm.trans hs')
      -- `b` is still the successor of `a`, but its back link is `b` itself
      have hmem : a ∈ hd :: (l₁ ++ l₂) := hback.mem_iff.mp (List.mem_of_getLast? ha)
      obtain ⟨⟨c, hc, hca⟩, -⟩ := (hm.ring (hd :: (l₁ ++ l₂)) (by simp)).neighbours hmem
      obtain rfl : b = c := Option.some.inj (hab.symm.trans hc)
      exact (Option.some.inj (hbb.symm.trans hca)).symm
    · -- with one neighbour `a`, the link back to `a` itself is the right one
      intro hab'
      subst hab'
      refine ⟨_, hstep, h.replace hs ?_ (by simp) (nodup_flatten_erase hdis) fun u hu => ?_⟩
      · exact (hring.remove hb ha hnodup' ⟨hab, hbb⟩ hn hp).rotate hback
      · have hmem : a ∈ hd :: (l₁ ++ x :: l₂) := hrot.mem_iff.mpr
          (List.mem_cons_of_mem x (List.mem_of_getLast? ha))
        have hua : u ≠ a := fun hua => not_mem_others hdis hmem (hua ▸ hu)
        have hux : u ≠ x := fun hux => not_mem_others hdis (by simp) (hux ▸ hu)
        have h₁ := hn u hua hux
        have h₂ := hp u hua hux
        cases hu' : heap' u
        cases hu'' : s.heap u
        simp_all

/-! ## Whole runs -/

/-- One admitted call keeps the rings exactly when it is no deletion or deletes
    the only node of its list. -/
theorem step_matches_iff {s : State ν} (h : Matches s) (op : Op ν) (hop : Admitted s op) :
    (∃ s', step s op = some s' ∧ Matches s') ↔ OnlyNode s op := by
  cases op with
  | init x => exact ⟨fun _ => trivial, fun _ => ⟨_, rfl, llInitList_matches h hop⟩⟩
  | add x p => exact ⟨fun _ => trivial, fun _ => llAdd_matches h hop.1 hop.2⟩
  | addTail x p => exact ⟨fun _ => trivial, fun _ => llAddTail_matches h hop.1 hop.2⟩
  | del x => exact llDel_matches_iff h hop

/-- A run of admitted calls keeps the heap a set of disjoint well-formed circular
    lists that match their sequences exactly when every deletion takes the only
    node of its list. -/
theorem ll_wellFormed_iff (heap : Heap ν) (ops : List (Op ν))
    (hops : Runs.StepsMeet step Admitted ⟨heap, []⟩ ops) :
    Runs.Safe step WellFormed ⟨heap, []⟩ ops ↔ Runs.StepsMeet step OnlyNode ⟨heap, []⟩ ops := by
  have hempty : Matches (⟨heap, []⟩ : State ν) :=
    ⟨List.nodup_nil, List.not_mem_nil, fun r hr => absurd hr List.not_mem_nil⟩
  refine Runs.safe_iff_stepsMeet (J := fun _ => True) (fun _ _ _ _ _ _ _ => trivial)
    (fun s op _ hs hop => ?_) trivial hempty.wellFormed hops
  simp only [wellFormed_iff] at hs ⊢
  exact step_matches_iff hs op hop

/-- Adding a node to an empty list and deleting it again is fine. -/
theorem ll_wellFormed_iff_single :
    Runs.Safe step WellFormed ⟨fun _ : Nat => ⟨none, none⟩, []⟩ [.init 0, .add 1 0, .del 1] := by
  refine (ll_wellFormed_iff _ _ ?_).mpr ?_
  · refine (Runs.stepsMeet_cons rfl).mpr ⟨by simp [Admitted], ?_⟩
    refine (Runs.stepsMeet_cons rfl).mpr ⟨by simp [Admitted], ?_⟩
    refine (Runs.stepsMeet_cons rfl).mpr ⟨⟨_, List.mem_singleton_self _, by decide⟩, trivial⟩
  · refine (Runs.stepsMeet_cons rfl).mpr ⟨trivial, ?_⟩
    refine (Runs.stepsMeet_cons rfl).mpr ⟨trivial, ?_⟩
    exact (Runs.stepsMeet_cons rfl).mpr ⟨rfl, trivial⟩

/-- Deleting the last of two nodes leaves the head's `prev` at the head itself:
    walking back from the head misses the node still in the list. -/
theorem ll_del_breaks_ring :
    Runs.StepsMeet step Admitted ⟨fun _ : Nat => ⟨none, none⟩, []⟩
        [.init 0, .add 1 0, .addTail 2 0, .del 2] ∧
      ¬ Runs.Safe step WellFormed ⟨fun _ : Nat => ⟨none, none⟩, []⟩
        [.init 0, .add 1 0, .addTail 2 0, .del 2] := by
  constructor
  · refine (Runs.stepsMeet_cons rfl).mpr ⟨by simp [Admitted], ?_⟩
    refine (Runs.stepsMeet_cons rfl).mpr ⟨by simp [Admitted], ?_⟩
    refine (Runs.stepsMeet_cons rfl).mpr ⟨by simp [Admitted, insertAfter], ?_⟩
    exact (Runs.stepsMeet_cons rfl).mpr ⟨⟨_, List.mem_singleton_self _, by decide⟩, trivial⟩
  · intro h
    obtain ⟨s, hs, hw⟩ := h.final
    obtain rfl := Option.some.inj hs
    have hback := hw.walk_prev 0 [1] (by decide) 2 (by decide)
    exact absurd hback (by decide)

end LinkedList
