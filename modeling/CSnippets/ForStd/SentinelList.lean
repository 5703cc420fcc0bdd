import Mathlib.Data.Finmap
import Mathlib.Data.List.Nodup
import Mathlib.Data.List.TakeWhile

/-!
# Singly linked lists behind a sentinel

Memory is a finite map from addresses to nodes: a node that was never allocated
or has been freed is not in it, and reading or writing such a node has no
defined result. The list hangs off a sentinel node that is itself in memory.

`Seg m a l z` says that following the links from the node at `a` meets exactly
the nodes `l`, addresses and contents, and then the link `z`; `IsList m a l` is
the null-terminated case. The rules say what an allocation, a change of a link,
a change of contents and a `free` do to a list, and what a search loop with a
trailing cursor returns.
-/

namespace SentinelList

/-- Addresses of nodes. -/
abbrev Addr := Nat

/-- A list node: its contents and its link, `none` for `NULL`. -/
structure Node (β : Type*) where
  val : β
  next : Option Addr
deriving Repr, DecidableEq

/-- The nodes that are allocated. -/
abbrev Memory (β : Type*) := Finmap fun _ : Addr => Node β

variable {β : Type*} {m m' : Memory β} {a b : Addr} {l l₁ l₂ : List (Addr × β)}
  {z : Option Addr}

/-! ## Reading and writing nodes -/

/-- `a->next` -/
def nextOf (m : Memory β) (a : Addr) : Option (Option Addr) := (m.lookup a).map Node.next

/-- The contents of the node at `a`. -/
def valOf (m : Memory β) (a : Addr) : Option β := (m.lookup a).map Node.val

/-- `a->next = z` -/
def setNext (m : Memory β) (a : Addr) (z : Option Addr) : Option (Memory β) :=
  (m.lookup a).map fun n => m.insert a { n with next := z }

/-- Change the contents of the node at `a`. -/
def setVal (m : Memory β) (a : Addr) (f : β → β) : Option (Memory β) :=
  (m.lookup a).map fun n => m.insert a { n with val := f n.val }

/-- A fresh node with contents `v` and a null link; the allocator picks an
    address that is not in use. -/
def alloc (m : Memory β) (a : Addr) (v : β) : Option (Memory β) :=
  if a ∈ m then none else some (m.insert a ⟨v, none⟩)

/-- `free`: undefined for what is not allocated. -/
def free (m : Memory β) (a : Addr) : Option (Memory β) :=
  if a ∈ m then some (m.erase a) else none

/-- A node has a link just when it is allocated. -/
theorem nextOf_isSome : (nextOf m a).isSome ↔ a ∈ m := by
  rw [nextOf, Option.isSome_map, Finmap.lookup_isSome]

/-- A node whose link could be read is allocated. -/
theorem mem_of_nextOf (h : nextOf m a = some z) : a ∈ m := by
  rw [← nextOf_isSome, h, Option.isSome_some]

/-- A node whose value could be read is allocated. -/
theorem mem_of_valOf {v : β} (h : valOf m a = some v) : a ∈ m := by
  rw [← Finmap.lookup_isSome, ← Option.isSome_map (f := Node.val), ← valOf, h, Option.isSome_some]

/-- Every allocated node has a value. -/
theorem exists_valOf (h : a ∈ m) : ∃ v, valOf m a = some v := by
  obtain ⟨n, hn⟩ := Finmap.mem_iff.mp h
  exact ⟨n.val, by rw [valOf, hn, Option.map_some]⟩

/-- The link of an allocated node can be written. -/
theorem exists_setNext (h : a ∈ m) (z : Option Addr) : ∃ m', setNext m a z = some m' := by
  obtain ⟨n, hn⟩ := Finmap.mem_iff.mp h
  exact ⟨_, by rw [setNext, hn, Option.map_some]⟩

/-- The value of an allocated node can be written. -/
theorem exists_setVal (h : a ∈ m) (f : β → β) : ∃ m', setVal m a f = some m' := by
  obtain ⟨n, hn⟩ := Finmap.mem_iff.mp h
  exact ⟨_, by rw [setVal, hn, Option.map_some]⟩

/-- A new node can be put at every address not in use. -/
theorem exists_alloc (h : a ∉ m) (v : β) : ∃ m', alloc m a v = some m' :=
  ⟨_, by rw [alloc, if_neg h]⟩

/-- An allocated node can be freed. -/
theorem exists_free (h : a ∈ m) : ∃ m', free m a = some m' := ⟨_, by rw [free, if_pos h]⟩

/-- Writing a link changes that link and no other. -/
theorem nextOf_setNext (h : setNext m a z = some m') (b : Addr) :
    nextOf m' b = if b = a then some z else nextOf m b := by
  obtain ⟨n, hn, rfl⟩ := Option.map_eq_some_iff.mp h
  by_cases hb : b = a
  · subst hb; simp [nextOf]
  · simp [nextOf, hb, Finmap.lookup_insert_of_ne]

/-- Writing a link changes no value. -/
theorem valOf_setNext (h : setNext m a z = some m') (b : Addr) : valOf m' b = valOf m b := by
  obtain ⟨n, hn, rfl⟩ := Option.map_eq_some_iff.mp h
  by_cases hb : b = a
  · subst hb; simp [valOf, hn]
  · simp [valOf, hb, Finmap.lookup_insert_of_ne]

/-- Writing a value changes no link. -/
theorem nextOf_setVal {f : β → β} (h : setVal m a f = some m') (b : Addr) :
    nextOf m' b = nextOf m b := by
  obtain ⟨n, hn, rfl⟩ := Option.map_eq_some_iff.mp h
  by_cases hb : b = a
  · subst hb; simp [nextOf, hn]
  · simp [nextOf, hb, Finmap.lookup_insert_of_ne]

/-- Writing a value changes that value and no other. -/
theorem valOf_setVal {f : β → β} (h : setVal m a f = some m') (b : Addr) :
    valOf m' b = if b = a then (valOf m b).map f else valOf m b := by
  obtain ⟨n, hn, rfl⟩ := Option.map_eq_some_iff.mp h
  by_cases hb : b = a
  · subst hb; simp [valOf, hn]
  · simp [valOf, hb, Finmap.lookup_insert_of_ne]

/-- Writing a value allocates and frees nothing. -/
theorem keys_setVal {f : β → β} (h : setVal m a f = some m') : m'.keys = m.keys := by
  ext b
  rw [Finmap.mem_keys, Finmap.mem_keys, ← nextOf_isSome, nextOf_setVal h, nextOf_isSome]

/-- A node is allocated after a value is written just when it was before. -/
theorem mem_setVal {f : β → β} (h : setVal m a f = some m') (b : Addr) : b ∈ m' ↔ b ∈ m := by
  rw [← Finmap.mem_keys, keys_setVal h, Finmap.mem_keys]

/-- Two changes of one node make one. -/
theorem setVal_setVal {f g : β → β} (h : setVal m a f = some m') :
    setVal m' a g = setVal m a (g ∘ f) := by
  obtain ⟨n, hn, rfl⟩ := Option.map_eq_some_iff.mp h
  simp [setVal, hn, Finmap.insert_insert]

/-- Changes of different nodes may be made in either order. -/
theorem setVal_comm {m₁ m₂ : Memory β} {f g : β → β} (hab : a ≠ b)
    (h₁ : setVal m a f = some m₁) (h₂ : setVal m b g = some m₂) :
    setVal m₁ b g = setVal m₂ a f := by
  obtain ⟨n, hn, rfl⟩ := Option.map_eq_some_iff.mp h₁
  obtain ⟨k, hk, rfl⟩ := Option.map_eq_some_iff.mp h₂
  simp [setVal, hn, hk, hab, hab.symm, Finmap.lookup_insert_of_ne, Finmap.insert_insert_of_ne]

/-- Only what a change does to the contents at hand matters. -/
theorem setVal_congr {v : β} {f g : β → β} (hv : valOf m a = some v) (hfg : f v = g v) :
    setVal m a f = setVal m a g := by
  obtain ⟨n, hn, rfl⟩ := Option.map_eq_some_iff.mp hv
  simp [setVal, hn, hfg]

/-- An update that leaves the stored value as it is leaves the memory as it is. -/
theorem setVal_id {v : β} {f : β → β} (hv : valOf m a = some v) (hf : f v = v) :
    setVal m a f = some m := by
  obtain ⟨n, hn, rfl⟩ := Option.map_eq_some_iff.mp hv
  rw [setVal, hn, Option.map_some, hf, Option.some.injEq]
  apply Finmap.ext_lookup
  intro b
  by_cases hb : b = a
  · rw [hb, Finmap.lookup_insert, hn]
  · rw [Finmap.lookup_insert_of_ne _ hb]

/-- A new node has a null link, and the other links stay. -/
theorem nextOf_alloc {v : β} (h : alloc m a v = some m') (b : Addr) :
    nextOf m' b = if b = a then some none else nextOf m b := by
  unfold alloc at h
  split at h
  · cases h
  · cases h
    by_cases hb : b = a
    · subst hb; simp [nextOf]
    · simp [nextOf, hb, Finmap.lookup_insert_of_ne]

/-- A new node holds its value, and the other values stay. -/
theorem valOf_alloc {v : β} (h : alloc m a v = some m') (b : Addr) :
    valOf m' b = if b = a then some v else valOf m b := by
  unfold alloc at h
  split at h
  · cases h
  · cases h
    by_cases hb : b = a
    · subst hb; simp [valOf]
    · simp [valOf, hb, Finmap.lookup_insert_of_ne]

/-- A new node stands at an address that was not in use. -/
theorem not_mem_of_alloc {v : β} (h : alloc m a v = some m') : a ∉ m := by
  intro hm
  rw [alloc, if_pos hm] at h
  cases h

/-- Freeing a node takes its link and no other. -/
theorem nextOf_free (h : free m a = some m') (b : Addr) :
    nextOf m' b = if b = a then none else nextOf m b := by
  unfold free at h
  split at h
  · cases h
    by_cases hb : b = a
    · subst hb; simp [nextOf]
    · simp [nextOf, hb, Finmap.lookup_erase_ne]
  · cases h

/-- Freeing a node takes its value and no other. -/
theorem valOf_free (h : free m a = some m') (b : Addr) :
    valOf m' b = if b = a then none else valOf m b := by
  unfold free at h
  split at h
  · cases h
    by_cases hb : b = a
    · subst hb; simp [valOf]
    · simp [valOf, hb, Finmap.lookup_erase_ne]
  · cases h

/-- After a free all other nodes are still allocated. -/
theorem mem_free (h : free m a = some m') (b : Addr) : b ∈ m' ↔ b ≠ a ∧ b ∈ m := by
  rw [← nextOf_isSome, nextOf_free h, ← nextOf_isSome]
  by_cases hb : b = a
  · simp [hb]
  · simp [hb]

/-! ## Segments and lists -/

/-- Following the links from `a` meets exactly `l` and then the link `z`. -/
def Seg (m : Memory β) : Addr → List (Addr × β) → Option Addr → Prop
  | a, [], z => nextOf m a = some z
  | a, (b, v) :: l, z => nextOf m a = some (some b) ∧ valOf m b = some v ∧ Seg m b l z

/-- The list behind the sentinel at `a` is `l`. -/
abbrev IsList (m : Memory β) (a : Addr) (l : List (Addr × β)) : Prop := Seg m a l none

/-- The address of the last node of `l`, of the sentinel `a` when there is none. -/
def lastAddr (a : Addr) : List (Addr × β) → Addr
  | [] => a
  | e :: l => lastAddr e.1 l

/-- A segment can be cut at each of its nodes, into the one up to it and the one behind it. -/
theorem seg_append {v : β} :
    Seg m a (l₁ ++ (b, v) :: l₂) z ↔ Seg m a l₁ (some b) ∧ valOf m b = some v ∧ Seg m b l₂ z := by
  induction l₁ generalizing a with
  | nil => simp [Seg]
  | cons e l₁ ih =>
    obtain ⟨c, w⟩ := e
    simp only [List.cons_append, Seg, ih, and_assoc]

/-- The last node of a segment links to where the segment ends. -/
theorem Seg.nextOf_lastAddr (h : Seg m a l z) : nextOf m (lastAddr a l) = some z := by
  induction l generalizing a with
  | nil => exact h
  | cons e l ih => exact ih h.2.2

/-- The last address of a segment is that of its last node. -/
@[simp] theorem lastAddr_concat (e : Addr × β) : lastAddr a (l ++ [e]) = e.1 := by
  induction l generalizing a with
  | nil => rfl
  | cons e' l ih => exact ih

/-- The last address depends on the addresses only. -/
theorem lastAddr_congr {l' : List (Addr × β)} (h : l'.map Prod.fst = l.map Prod.fst) :
    lastAddr a l' = lastAddr a l := by
  induction l generalizing a l' with
  | nil => rw [List.map_eq_nil_iff.mp h]
  | cons e l ih =>
    obtain ⟨e', l', rfl, hfst, hrest⟩ := List.map_eq_cons_iff.mp h
    rw [lastAddr, lastAddr, hfst]
    exact ih hrest

/-- The last address is the start's or one of the segment's. -/
theorem lastAddr_mem : lastAddr a l ∈ a :: l.map Prod.fst := by
  induction l generalizing a with
  | nil => simp [lastAddr]
  | cons e l ih => exact List.mem_cons_of_mem a ih

/-- The start and all nodes of a segment are allocated. -/
theorem Seg.mem (h : Seg m a l z) : ∀ u ∈ a :: l.map Prod.fst, u ∈ m := by
  induction l generalizing a with
  | nil =>
    intro u hu
    obtain rfl : u = a := by simpa using hu
    exact mem_of_nextOf h
  | cons e l ih =>
    intro u hu
    rcases List.mem_cons.mp hu with rfl | hu
    · exact mem_of_nextOf h.1
    · exact ih h.2.2 u hu

/-- Memory holds every entry of the list. -/
theorem Seg.valOf_of_mem {v : β} (h : Seg m a l z) (hb : (b, v) ∈ l) : valOf m b = some v := by
  obtain ⟨l₁, l₂, rfl⟩ := List.append_of_mem hb
  exact (seg_append.mp h).2.1

/-- A segment survives every change of memory outside it. -/
theorem Seg.congr (h : Seg m a l z) (hn : ∀ u ∈ a :: l.map Prod.fst, nextOf m' u = nextOf m u)
    (hv : ∀ u ∈ l.map Prod.fst, valOf m' u = valOf m u) : Seg m' a l z := by
  induction l generalizing a with
  | nil => exact (hn a (by simp)).trans h
  | cons e l ih =>
    refine ⟨(hn a (by simp)).trans h.1, (hv e.1 (by simp)).trans h.2.1, ih h.2.2 ?_ ?_⟩
    · exact fun u hu => hn u (List.mem_cons_of_mem a hu)
    · exact fun u hu => hv u (List.mem_cons_of_mem e.1 hu)

/-- Memory and the first node determine a list. -/
theorem IsList.unique (h : IsList m a l) {l' : List (Addr × β)} (h' : IsList m a l') : l = l' := by
  induction l generalizing a l' with
  | nil =>
    cases l' with
    | nil => rfl
    | cons e l' => cases (show nextOf m a = some none from h).symm.trans h'.1
  | cons e l ih =>
    cases l' with
    | nil => cases (show nextOf m a = some none from h').symm.trans h.1
    | cons e' l' =>
      obtain ⟨b, v⟩ := e
      obtain ⟨b', v'⟩ := e'
      obtain rfl : b = b' := by simpa using h.1.symm.trans h'.1
      obtain rfl : v = v' := by simpa using h.2.1.symm.trans h'.2.1
      rw [ih h.2.2 h'.2.2]

/-- A null-terminated list never comes back to a node. -/
theorem IsList.nodup (h : IsList m a l) : (a :: l.map Prod.fst).Nodup := by
  induction l generalizing a with
  | nil => simp
  | cons e l ih =>
    refine List.nodup_cons.mpr ⟨fun hmem => ?_, ih h.2.2⟩
    -- if `a` came again, the rest from there would be the whole list
    obtain ⟨⟨c, w⟩, hc, hca⟩ := List.mem_map.mp hmem
    obtain rfl : c = a := hca
    obtain ⟨l₁, l₂, hsplit⟩ := List.append_of_mem hc
    have h' := h
    rw [hsplit] at h'
    have hlen := congrArg List.length (h'.unique (seg_append.mp h').2.2)
    simp only [List.length_append, List.length_cons] at hlen
    omega

/-- A segment without repetition is shorter than the number of allocated nodes. -/
theorem Seg.length_lt_card (h : Seg m a l z) (hnodup : (a :: l.map Prod.fst).Nodup) :
    l.length < m.keys.card := by
  -- the sentinel and the nodes are distinct addresses of the memory
  have hsub : (a :: l.map Prod.fst).toFinset ⊆ m.keys := fun u hu =>
    Finmap.mem_keys.mpr (Seg.mem h u (List.mem_toFinset.mp hu))
  have hcard := Finset.card_le_card hsub
  rw [List.toFinset_card_of_nodup hnodup, List.length_cons, List.length_map] at hcard
  exact hcard

/-- The nodes of a list and its sentinel are at most the allocated ones. -/
theorem IsList.length_lt_card (h : IsList m a l) : l.length < m.keys.card :=
  Seg.length_lt_card h h.nodup

/-- The link at the end of a front part leads to the part behind it. -/
theorem IsList.nextOf_front (h : IsList m a (l₁ ++ l₂)) :
    nextOf m (lastAddr a l₁) = some (l₂.head?.map Prod.fst) := by
  cases l₂ with
  | nil =>
    rw [List.append_nil] at h
    exact Seg.nextOf_lastAddr h
  | cons e l₂ => exact (seg_append.mp h).1.nextOf_lastAddr

/-! ## Searching with a trailing cursor -/

/-- The loop `for (it = a; it->next && cont(it->next); it = it->next);`, as the
    final value of `it`. `none` when it reads a node that is not in memory, or
    does not end within `fuel` rounds. -/
def seek (m : Memory β) (cont : β → Bool) : Nat → Addr → Option Addr
  | 0, _ => none
  | fuel + 1, it =>
    match nextOf m it with
    | none => none
    | some none => some it
    | some (some b) =>
      match valOf m b with
      | none => none
      | some v => if cont v then seek m cont fuel b else some it

/-- The cursor stops in front of the first node at which the loop ends. -/
theorem seek_eq (cont : β → Bool) {fuel : Nat} (h : IsList m a l) (hfuel : l.length < fuel) :
    seek m cont fuel a = some (lastAddr a (l.takeWhile fun e => cont e.2)) := by
  -- one round of the loop for each node, and one to find the end
  induction l generalizing a fuel with
  | nil =>
    obtain ⟨fuel, rfl⟩ : ∃ k, fuel = k + 1 := ⟨fuel - 1, by simp at hfuel; omega⟩
    have hnext : nextOf m a = some none := h
    simp [seek, hnext, lastAddr]
  | cons e l ih =>
    obtain ⟨b, v⟩ := e
    obtain ⟨fuel, rfl⟩ : ∃ k, fuel = k + 1 := ⟨fuel - 1, by simp at hfuel; omega⟩
    simp only [seek, h.1, h.2.1]
    by_cases hv : cont v
    · rw [if_pos hv, ih h.2.2 (by simpa using hfuel), List.takeWhile_cons, if_pos hv, lastAddr]
    · rw [if_neg hv, List.takeWhile_cons, if_neg hv, lastAddr]

/-- How a search ends: behind the last node, or in front of the first node `d`
    at which the loop condition fails. -/
theorem IsList.seek_cases (h : IsList m a l) (cont : β → Bool) :
    ((∀ e ∈ l, cont e.2 = true) ∧ seek m cont m.keys.card a = some (lastAddr a l) ∧
      nextOf m (lastAddr a l) = some none) ∨
    ∃ l₁ d w l₂, l = l₁ ++ (d, w) :: l₂ ∧ (∀ e ∈ l₁, cont e.2 = true) ∧ cont w = false ∧
      seek m cont m.keys.card a = some (lastAddr a l₁) ∧
      nextOf m (lastAddr a l₁) = some (some d) ∧ valOf m d = some w ∧
      nextOf m d = some (l₂.head?.map Prod.fst) := by
  have hseek := seek_eq cont h h.length_lt_card
  have hfront : ∀ e ∈ l.takeWhile fun e => cont e.2, cont e.2 = true :=
    fun e he => List.mem_takeWhile_imp (p := fun e : Addr × β => cont e.2) he
  have hsplit : l.takeWhile (fun e => cont e.2) ++ l.dropWhile (fun e => cont e.2) = l :=
    List.takeWhile_append_dropWhile
  cases hdrop : l.dropWhile fun e => cont e.2 with
  | nil =>
    -- the condition holds of every node
    rw [hdrop, List.append_nil] at hsplit
    rw [hsplit] at hfront hseek
    exact Or.inl ⟨hfront, hseek, Seg.nextOf_lastAddr h⟩
  | cons e l₂ =>
    obtain ⟨d, w⟩ := e
    have hd : cont w = false := by
      have hne : l.dropWhile (fun e => cont e.2) ≠ [] := by simp [hdrop]
      have hnot := List.head_dropWhile_not (fun e : Addr × β => cont e.2) hne
      simpa [hdrop] using hnot
    rw [hdrop] at hsplit
    have h' : IsList m a (l.takeWhile (fun e => cont e.2) ++ (d, w) :: l₂) := by
      rw [hsplit]; exact h
    refine Or.inr ⟨_, d, w, l₂, hsplit.symm, hfront, hd, hseek, h'.nextOf_front,
      (seg_append.mp h').2.1, ?_⟩
    have hrest : IsList m d ([] ++ l₂) := (seg_append.mp h').2.2
    exact hrest.nextOf_front

/-! ## Changing a list -/

/-- A list does not see a fresh node. -/
theorem Seg.of_alloc {p : Addr} {v : β} (h : Seg m a l z) (halloc : alloc m p v = some m') :
    Seg m' a l z := by
  have hp : ∀ u ∈ a :: l.map Prod.fst, u ≠ p := fun u hu hup =>
    not_mem_of_alloc halloc (hup ▸ Seg.mem h u hu)
  apply h.congr
  · intro u hu
    rw [nextOf_alloc halloc, if_neg (hp u hu)]
  · intro u hu
    rw [valOf_alloc halloc, if_neg (hp u (List.mem_cons_of_mem a hu))]

/-- Linking a node that is not in the list behind the last one appends it. -/
theorem IsList.link {p : Addr} {v : β} (h : IsList m a l) (hp : p ∉ a :: l.map Prod.fst)
    (hval : valOf m p = some v) (hnext : nextOf m p = some none)
    (hlink : setNext m (lastAddr a l) (some p) = some m') : IsList m' a (l ++ [(p, v)]) := by
  have hlast : p ≠ lastAddr a l := fun hpl => hp (hpl ▸ lastAddr_mem)
  rw [IsList, seg_append]
  refine ⟨?_, ?_, ?_⟩
  · -- the old nodes, the last of them now with a link to `p`
    clear hlast hp
    induction l generalizing a with
    | nil => rw [Seg, nextOf_setNext hlink, lastAddr, if_pos rfl]
    | cons e l ih =>
      have hne : a ≠ lastAddr e.1 l := fun hal => (List.nodup_cons.mp h.nodup).1 (by
        rw [hal]; exact lastAddr_mem)
      refine ⟨?_, ?_, ih h.2.2 hlink⟩
      · rw [nextOf_setNext hlink, lastAddr, if_neg hne]
        exact h.1
      · rw [valOf_setNext hlink]
        exact h.2.1
  · rw [valOf_setNext hlink, hval]
  · rw [Seg, nextOf_setNext hlink, if_neg hlast, hnext]

/-- Linking a fresh node behind the last one appends it. -/
theorem IsList.append {p : Addr} {v : β} {m₁ m₂ : Memory β} (h : IsList m a l)
    (halloc : alloc m p v = some m₁) (hlink : setNext m₁ (lastAddr a l) (some p) = some m₂) :
    IsList m₂ a (l ++ [(p, v)]) := by
  apply IsList.link (Seg.of_alloc h halloc) _ _ _ hlink
  · exact fun hp => not_mem_of_alloc halloc (Seg.mem h p hp)
  · rw [valOf_alloc halloc, if_pos rfl]
  · rw [nextOf_alloc halloc, if_pos rfl]

/-- Redirecting the link in front of a node past it takes the node out. -/
theorem IsList.unlink {d : Addr} {w : β} (h : IsList m a (l₁ ++ (d, w) :: l₂))
    (hlink : setNext m (lastAddr a l₁) (l₂.head?.map Prod.fst) = some m') :
    IsList m' a (l₁ ++ l₂) := by
  induction l₁ generalizing a with
  | nil =>
    -- `a` itself gets the new link; the rest behind `d` does not see it
    have hnodup := h.nodup
    have hrest : IsList m d l₂ := h.2.2
    have hua : ∀ u ∈ d :: l₂.map Prod.fst, u ≠ a := by
      intro u hu hua
      subst hua
      exact (List.nodup_cons.mp hnodup).1 (by simpa using hu)
    have hd : IsList m' d l₂ := Seg.congr hrest
      (fun u hu => by rw [nextOf_setNext hlink, lastAddr, if_neg (hua u hu)])
      (fun u _ => valOf_setNext hlink u)
    have hnext : nextOf m' a = some (l₂.head?.map Prod.fst) := by
      rw [nextOf_setNext hlink, lastAddr, if_pos rfl]
    cases l₂ with
    | nil => exact hnext
    | cons e l₂ => exact ⟨hnext, hd.2.1, hd.2.2⟩
  | cons e l₁ ih =>
    -- the write is further down the list
    have hne : a ≠ lastAddr e.1 l₁ := fun hal => (List.nodup_cons.mp h.nodup).1 (by
      have hmem := lastAddr_mem (a := e.1) (l := l₁)
      rw [← hal] at hmem
      simp only [List.map_cons, List.map_append, List.mem_cons, List.mem_append] at hmem ⊢
      tauto)
    refine ⟨?_, ?_, ih h.2.2 hlink⟩
    · rw [nextOf_setNext hlink, lastAddr, if_neg hne]; exact h.1
    · rw [valOf_setNext hlink]; exact h.2.1

/-- Freeing a node that is not in the list leaves the list alone. -/
theorem IsList.of_free {d : Addr} (h : IsList m a l) (hd : d ∉ a :: l.map Prod.fst)
    (hfree : free m d = some m') : IsList m' a l := by
  have hne : ∀ u ∈ a :: l.map Prod.fst, u ≠ d := by
    intro u hu hud
    exact hd (hud ▸ hu)
  apply Seg.congr h
  · intro u hu
    rw [nextOf_free hfree, if_neg (hne u hu)]
  · intro u hu
    rw [valOf_free hfree, if_neg (hne u (List.mem_cons_of_mem a hu))]

/-- Changing the contents of one node changes that entry of the list. -/
theorem Seg.of_setVal {f : β → β} (h : Seg m a l z) (hset : setVal m b f = some m') :
    Seg m' a (l.map fun e => if e.1 = b then (e.1, f e.2) else e) z := by
  induction l generalizing a with
  | nil => exact (nextOf_setVal hset a).trans h
  | cons e l ih =>
    obtain ⟨c, w⟩ := e
    have hnext := (nextOf_setVal hset a).trans h.1
    have hval := valOf_setVal hset c
    by_cases hc : c = b
    · -- the entry itself; a later one at `b` would change in the same way
      simp only [List.map_cons, hc, if_true, Seg]
      refine ⟨hc ▸ hnext, ?_, hc ▸ ih h.2.2⟩
      rw [hc, if_pos rfl, ← hc, h.2.1] at hval
      rw [← hc]; exact hval
    · simp only [List.map_cons, hc, if_false, Seg]
      rw [if_neg hc, h.2.1] at hval
      exact ⟨hnext, hval, ih h.2.2⟩

/-- A node occurs nowhere else in its list. -/
theorem IsList.not_mem_rest {d : Addr} {w : β} (h : IsList m a (l₁ ++ (d, w) :: l₂)) :
    d ∉ a :: (l₁ ++ l₂).map Prod.fst := by
  have hnodup := h.nodup
  simp only [List.map_append, List.map_cons] at hnodup
  have hperm : (a :: (l₁.map Prod.fst ++ d :: l₂.map Prod.fst)).Perm
      (d :: a :: (l₁.map Prod.fst ++ l₂.map Prod.fst)) :=
    (List.perm_middle.cons a).trans (List.Perm.swap d a _)
  have hd := (List.nodup_cons.mp (hperm.nodup_iff.mp hnodup)).1
  rwa [List.map_append]

/-- The nodes in front of a node are different ones, -/
theorem IsList.nodup_front {d : Addr} {w : β} (h : IsList m a (l₁ ++ (d, w) :: l₂)) :
    (a :: l₁.map Prod.fst).Nodup := by
  have hnodup := h.nodup
  rw [List.map_append, ← List.cons_append] at hnodup
  exact (List.nodup_append.mp hnodup).1

/-- and it is none of them. -/
theorem IsList.lastAddr_ne {d : Addr} {w : β} (h : IsList m a (l₁ ++ (d, w) :: l₂)) :
    lastAddr a l₁ ≠ d := by
  intro hlast
  have hmem : d ∈ a :: l₁.map Prod.fst := hlast ▸ lastAddr_mem
  apply h.not_mem_rest
  rw [List.map_append, ← List.cons_append]
  exact List.mem_append_left _ hmem

/-- Changing the contents of a node, seen with the list around it. -/
theorem IsList.update {d : Addr} {w : β} {f : β → β} (h : IsList m a (l₁ ++ (d, w) :: l₂))
    (hset : setVal m d f = some m') : IsList m' a (l₁ ++ (d, f w) :: l₂) := by
  have hd := h.not_mem_rest
  rw [IsList, seg_append] at h ⊢
  obtain ⟨hfront, hval, hrest⟩ := h
  have hne : ∀ u ∈ (l₁ ++ l₂).map Prod.fst, u ≠ d := fun u hu hud =>
    hd (List.mem_cons_of_mem a (hud ▸ hu))
  refine ⟨?_, ?_, ?_⟩
  · apply hfront.congr fun u _ => nextOf_setVal hset u
    intro u hu
    rw [valOf_setVal hset, if_neg (hne u (by rw [List.map_append]; exact List.mem_append_left _ hu))]
  · rw [valOf_setVal hset, if_pos rfl, hval, Option.map_some]
  · apply hrest.congr fun u _ => nextOf_setVal hset u
    intro u hu
    rw [valOf_setVal hset, if_neg (hne u (by rw [List.map_append]; exact List.mem_append_right _ hu))]

/-- Both writes of an append are defined, and they append. -/
theorem IsList.exists_append {p : Addr} (h : IsList m a l) (hp : p ∉ m) (v : β) :
    ∃ m₁ m₂, alloc m p v = some m₁ ∧ setNext m₁ (lastAddr a l) (some p) = some m₂ ∧
      IsList m₂ a (l ++ [(p, v)]) := by
  obtain ⟨m₁, h₁⟩ := exists_alloc hp v
  have hlast : lastAddr a l ∈ m := Seg.mem h _ lastAddr_mem
  have hne : lastAddr a l ≠ p := fun hlp => hp (hlp ▸ hlast)
  have hlast₁ : lastAddr a l ∈ m₁ := by
    rw [← nextOf_isSome, nextOf_alloc h₁, if_neg hne, nextOf_isSome]
    exact hlast
  obtain ⟨m₂, h₂⟩ := exists_setNext hlast₁ (some p)
  exact ⟨m₁, m₂, h₁, h₂, h.append h₁ h₂⟩

/-- Both writes of a removal are defined, and they take out the node `d`. -/
theorem IsList.exists_remove {d : Addr} {w : β} (h : IsList m a (l₁ ++ (d, w) :: l₂)) :
    ∃ m₁ m₂, setNext m (lastAddr a l₁) (l₂.head?.map Prod.fst) = some m₁ ∧
      SentinelList.free m₁ d = some m₂ ∧ IsList m₂ a (l₁ ++ l₂) := by
  obtain ⟨m₁, h₁⟩ := exists_setNext (mem_of_nextOf h.nextOf_front) (l₂.head?.map Prod.fst)
  have hdm : d ∈ m₁ := by
    rw [← nextOf_isSome, nextOf_setNext h₁]
    split
    · rfl
    · exact nextOf_isSome.mpr (Seg.mem h d (by simp))
  obtain ⟨m₂, h₂⟩ := exists_free hdm
  exact ⟨m₁, m₂, h₁, h₂, (h.unlink h₁).of_free h.not_mem_rest h₂⟩

/-! ## Searching for an entry -/

/-- A search for the first entry that satisfies `p` ends in front of it. -/
theorem IsList.seek_find (h : IsList m a l) (p : β → Bool) :
    ∃ it, seek m (fun v => !p v) m.keys.card a = some it ∧
      nextOf m it = some ((l.find? fun e => p e.2).map Prod.fst) := by
  rcases h.seek_cases fun v => !p v with ⟨hall, hseek, hnext⟩ |
    ⟨l₁, d, w, l₂, rfl, hall, hd, hseek, hnext, -, -⟩
  · have hnone : (l.find? fun e => p e.2) = none := by
      rw [List.find?_eq_none]
      intro e he
      simpa using hall e he
    exact ⟨_, hseek, by rw [hnext, hnone]; rfl⟩
  · have hfront : (l₁.find? fun e => p e.2) = none := by
      rw [List.find?_eq_none]
      intro e he
      simpa using hall e he
    have hw : p w = true := by simpa using hd
    exact ⟨_, hseek, by simp [hnext, List.find?_append, hfront, hw]⟩

/-- When the search finds an entry, redirecting the link in front of it and freeing
    it are defined and erase it from the list. -/
theorem IsList.seek_erase (h : IsList m a l) (p : β → Bool) :
    ∃ it, seek m (fun v => !p v) m.keys.card a = some it ∧
      ((∀ e ∈ l, p e.2 = false) ∧ nextOf m it = some none ∨
        ∃ d w n m₁ m₂, (d, w) ∈ l ∧ p w = true ∧ nextOf m it = some (some d) ∧
          valOf m d = some w ∧ nextOf m d = some n ∧ setNext m it n = some m₁ ∧
          SentinelList.free m₁ d = some m₂ ∧ IsList m₂ a (l.eraseP fun e => p e.2)) := by
  -- the search stops at the end of the list or in front of the first hit
  rcases h.seek_cases fun v => !p v with ⟨hall, hseek, hnext⟩ |
    ⟨l₁, d, w, l₂, rfl, hall, hd, hseek, hnext, hval, hnextd⟩
  · refine ⟨_, hseek, Or.inl ⟨fun e he => ?_, hnext⟩⟩
    simpa using hall e he
  · have hw : p w = true := by simpa using hd
    have hfront : ∀ e ∈ l₁, ¬ p e.2 = true := by
      intro e he
      simpa using hall e he
    obtain ⟨m₁, m₂, h₁, h₂, hlist⟩ := h.exists_remove
    refine ⟨_, hseek, Or.inr ⟨d, w, _, m₁, m₂, by simp, hw, hnext, hval, hnextd, h₁, h₂, ?_⟩⟩
    -- no item in front of the hit fulfils `p`, so `eraseP` erases the hit
    have herase : ((d, w) :: l₂).eraseP (fun e => p e.2) = l₂ := List.eraseP_cons_of_pos hw
    rw [List.eraseP_append_right _ hfront, herase]
    exact hlist

end SentinelList
