import CSnippets.Spec.ButtonsCorrect

/-!
# The count of the buttons

`bt.button_count` is kept apart from the list. `buttonAdd` counts the one node it links, and
`buttonDelete` counts down only where it has unlinked one, so the two agree modulo 2 ^ 32;
with fewer buttons than that the count does not wrap in either direction.
-/

namespace Buttons

open SentinelList

/-- `button_count` counts the registered buttons, modulo 2^32. -/
def Counted (bt : Bt) (l : List (Addr × Button)) : Prop :=
  Registered bt l ∧ bt.buttonCount.toNat = l.length % 2 ^ 32

variable {bt : Bt} {l : List (Addr × Button)}

/-- The empty list has the count zero. -/
theorem counted_zero : Counted Bt.zero [] := ⟨registered_zero, rfl⟩

/-- Adding a button makes the list and the count longer by one. -/
theorem Counted.add (h : Counted bt l) {p : Addr} (hp : p ∉ bt.mem) (args : ButtonArgs) :
    ∃ bt' l', buttonAdd bt p args = some bt' ∧ Counted bt' l' ∧ l'.length = l.length + 1 := by
  obtain ⟨hlist, hcount⟩ := h
  obtain ⟨bt', hadd, hlist', hcount'⟩ := buttonAdd_spec hlist hp args
  have hlen : (storeLast args l ++ [(p, Button.zero)]).length = l.length + 1 := by
    rw [List.length_append, storeLast, List.length_map, List.length_singleton]
  refine ⟨bt', _, hadd, ⟨hlist', ?_⟩, hlen⟩
  rw [hcount', UInt32.toNat_add, UInt32.toNat_one, hlen]
  omega

/-- A button that is deleted was counted. -/
theorem Counted.delete (h : Counted bt l) (identifier : UInt8) :
    ∃ bt' l', buttonDelete bt identifier = some bt' ∧ Counted bt' l' ∧
      l'.length ≤ l.length := by
  obtain ⟨hlist, hcount⟩ := h
  obtain ⟨bt', hdelete, hlist', hcount'⟩ := buttonDelete_spec hlist identifier
  refine ⟨bt', _, hdelete, ⟨hlist', ?_⟩, List.length_eraseP_le⟩
  rw [hcount', List.length_eraseP]
  split
  · rename_i hany
    have hpos : 0 < l.length := List.length_pos_of_mem (List.any_eq_true.mp hany).choose_spec.1
    rw [UInt32.toNat_sub, UInt32.toNat_one, hcount]
    omega
  · exact hcount

/-! ## Fewer than 2 ^ 32 buttons -/

/-- The list ends, comes back to no node and has as many nodes as are counted; no delete
    takes the count below zero. -/
structure ListCounted (bt : Bt) : Prop where
  list : ∃ l, Registered bt l ∧ (headAddr :: l.map Prod.fst).Nodup ∧
    bt.buttonCount.toNat = l.length
  noUnderflow : ∀ identifier bt', buttonDelete bt identifier = some bt' →
    bt'.buttonCount.toNat ≤ bt.buttonCount.toNat

/-- The allocator returns an address that is not in use, and with the new button there are
    fewer than 2 ^ 32. -/
def AdmittedBelow (r : Registry) : Op → Prop
  | .add p _ => p ∉ r.bt.mem ∧ ∀ l, Registered r.bt l → l.length + 1 < 2 ^ 32
  | .delete _ => True

/-- Below 2^32 buttons the counter has not wrapped around, and counts the list. -/
theorem Counted.listCounted (h : Counted bt l) (hlt : l.length < 2 ^ 32) : ListCounted bt := by
  have hcount : bt.buttonCount.toNat = l.length := by rw [h.2, Nat.mod_eq_of_lt hlt]
  refine ⟨⟨l, h.1, h.1.nodup, hcount⟩, ?_⟩
  intro identifier bt' hdelete
  obtain ⟨bt'', l', hdelete', hcounted, hle⟩ := h.delete identifier
  rw [hdelete, Option.some.injEq] at hdelete'
  subst hdelete'
  rw [hcounted.2, Nat.mod_eq_of_lt (by omega), hcount]
  exact hle

/-- Every step keeps the count right while there are less than 2^32 buttons. -/
theorem Counted.step {r : Registry} (h : Counted r.bt l) (hlt : l.length < 2 ^ 32) {op : Op}
    (hop : AdmittedBelow r op) :
    ∃ r', Buttons.step r op = some r' ∧ ∃ l', Counted r'.bt l' ∧ l'.length < 2 ^ 32 := by
  cases op with
  | add p args =>
    obtain ⟨bt', l', hadd, hcounted, hlen⟩ := h.add hop.1 args
    have hroom := hop.2 l h.1
    exact ⟨_, by rw [Buttons.step, hadd, Option.map_some], l', hcounted, by omega⟩
  | delete identifier =>
    obtain ⟨bt', l', hdelete, hcounted, hle⟩ := h.delete identifier
    exact ⟨_, by rw [Buttons.step, hdelete, Option.map_some], l', hcounted, by omega⟩

/-- Whatever is added and deleted, with memory for each new button and fewer than 2 ^ 32 of
    them at a time: in every state reached the list ends, and its nodes are counted. -/
theorem buttons_counted (ops : List Op)
    (hops : Runs.StepsMeet step AdmittedBelow Registry.zero ops) :
    Runs.Safe step (fun r => ListCounted r.bt) Registry.zero ops := by
  apply Runs.Safe.of_invariant (J := fun r => ∃ l, Counted r.bt l ∧ l.length < 2 ^ 32) _ _
    ⟨[], counted_zero, by decide⟩ hops
  · intro r ⟨l, h, hlt⟩
    exact h.listCounted hlt
  · intro r op ⟨l, h, hlt⟩ hop
    exact h.step hlt hop

/-- There are fewer buttons than nodes in memory, of which one is `bt.head`. -/
theorem admittedBelow_of_card {r : Registry} {p : Addr} (hp : p ∉ r.bt.mem)
    (hcard : r.bt.mem.keys.card < 2 ^ 32) (args : ButtonArgs) : AdmittedBelow r (.add p args) := by
  refine ⟨hp, ?_⟩
  intro l hl
  have hlt := hl.length_lt_card
  omega

/-- Two buttons are added; the first, the second and one that is not there are deleted. -/
theorem buttons_counted_two :
    Runs.Safe step (fun r => ListCounted r.bt) Registry.zero
      [.add 1 ⟨65, none, 0, 0⟩, .add 2 ⟨65, none, 0, 0⟩, .delete 65, .delete 0, .delete 66] := by
  apply buttons_counted
  apply (Runs.stepsMeet_cons rfl).mpr
  refine ⟨admittedBelow_of_card (by decide) (by decide) _, (Runs.stepsMeet_cons rfl).mpr ?_⟩
  refine ⟨admittedBelow_of_card (by decide) (by decide) _, trivial, ?_⟩
  exact fun _ _ => ⟨trivial, fun _ _ => ⟨trivial, fun _ _ => trivial⟩⟩

end Buttons
