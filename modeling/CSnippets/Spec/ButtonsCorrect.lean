import CSnippets.ForStd.Runs
import CSnippets.Native.Buttons

/-!
# The list of registered buttons

Beside the list runs a registry of the `buttonAdd` calls whose button has not
been deleted: the node each allocated and its arguments. The list should hold
exactly these. `buttonDelete` and `buttonFind` are right, but `buttonAdd` stores
its arguments in the node in front of the new one, so the list agrees with the
registry exactly when all arguments are the zeros `calloc` leaves in a new node.
-/

namespace Buttons

open SentinelList

/-- The registered buttons, in list order. -/
abbrev Registered (bt : Bt) (l : List (Addr × Button)) : Prop := IsList bt.mem headAddr l

/-- Nothing is registered at the start. -/
theorem registered_zero : Registered Bt.zero [] := rfl

/-- The arguments of `buttonAdd` a button holds. -/
def Button.toArgs (b : Button) : ButtonArgs :=
  { identifier := b.identifier, poll := b.poll, portArg := b.portArg, pinArg := b.pinArg }

/-- Store arguments in a button. -/
def ButtonArgs.store (args : ButtonArgs) (b : Button) : Button :=
  { b with poll := args.poll, portArg := args.portArg, pinArg := args.pinArg,
           identifier := args.identifier }

/-- What was stored in a button is read back from it. -/
@[simp] theorem ButtonArgs.toArgs_store (args : ButtonArgs) (b : Button) :
    (args.store b).toArgs = args := rfl

/-- Store arguments in the last node of the list. -/
def storeLast (args : ButtonArgs) (l : List (Addr × Button)) : List (Addr × Button) :=
  l.map fun e => if e.1 = lastAddr headAddr l then (e.1, args.store e.2) else e

variable {bt bt' : Bt} {l : List (Addr × Button)} {p : Addr} {args : ButtonArgs}

/-! ## One lemma for each function -/

/-- `buttonAdd` appends a zeroed node and stores its arguments in the node that
    was last before. -/
theorem buttonAdd_spec (h : Registered bt l) (hp : p ∉ bt.mem) (args : ButtonArgs) :
    ∃ bt', buttonAdd bt p args = some bt' ∧
      Registered bt' (storeLast args l ++ [(p, Button.zero)]) ∧
      bt'.buttonCount = bt.buttonCount + 1 := by
  rcases h.seek_cases (fun _ => true) with ⟨-, hseek, -⟩ | ⟨_, _, _, _, _, _, hfalse, -⟩
  · obtain ⟨m₁, m₂, h₁, h₂, hlist₂⟩ := h.exists_append hp Button.zero
    have hlast : lastAddr headAddr l ≠ p := fun hlp => hp (hlp ▸ Seg.mem h _ lastAddr_mem)
    have hlast₂ : lastAddr headAddr l ∈ m₂ := by
      rw [← nextOf_isSome, nextOf_setNext h₂, if_pos rfl]
      rfl
    -- the fields go to the last node before the insertion, not to the new one
    obtain ⟨m₃, h₃⟩ := exists_setVal hlast₂ args.store
    have hlist₃ := Seg.of_setVal hlist₂ h₃
    refine ⟨{ mem := m₃, buttonCount := bt.buttonCount + 1 }, ?_, ?_, rfl⟩
    · have hstore : setVal m₂ (lastAddr headAddr l) (fun b => { b with
          poll := args.poll, portArg := args.portArg, pinArg := args.pinArg,
          identifier := args.identifier }) = some m₃ := h₃
      simp [buttonAdd, hseek, h₁, h₂, hstore]
    · rw [List.map_append, List.map_singleton, if_neg hlast.symm] at hlist₃
      exact hlist₃
  · cases hfalse

/-- `buttonFind` returns the first registered button with that identifier. -/
theorem buttonFind_spec (h : Registered bt l) (identifier : UInt8) :
    buttonFind bt identifier =
      some ((l.find? fun e => e.2.identifier == identifier).map Prod.fst) := by
  obtain ⟨it, hseek, hnext⟩ := h.seek_find fun b => b.identifier == identifier
  simp only [buttonFind, bne, hseek, Option.bind_eq_bind, Option.bind_some, hnext]

/-- `buttonDelete` takes out the first registered button with that identifier. -/
theorem buttonDelete_spec (h : Registered bt l) (identifier : UInt8) :
    ∃ bt', buttonDelete bt identifier = some bt' ∧
      Registered bt' (l.eraseP fun e => e.2.identifier == identifier) ∧
      bt'.buttonCount = if l.any (fun e => e.2.identifier == identifier) then bt.buttonCount - 1
        else bt.buttonCount := by
  obtain ⟨it, hseek, ⟨hnot, hnext⟩ |
      ⟨d, w, n, m₁, m₂, hmem, hw, hnext, hval, hnextd, h₁, h₂, hlist⟩⟩ :=
    h.seek_erase fun b => b.identifier == identifier
  · -- no button has the identifier
    have hnot' : ∀ e ∈ l, ¬ (e.2.identifier == identifier) = true := by
      intro e he
      simpa using hnot e he
    refine ⟨bt, by simp [buttonDelete, bne, hseek, hnext], ?_, ?_⟩
    · rw [List.eraseP_of_forall_not hnot']
      exact h
    · rw [if_neg (by simpa using hnot')]
  · -- the list has no zero test on the identifier, unlike that of the states
    have hany : l.any (fun e => e.2.identifier == identifier) = true :=
      List.any_eq_true.mpr ⟨_, hmem, hw⟩
    refine ⟨{ mem := m₂, buttonCount := bt.buttonCount - 1 }, ?_, hlist, by rw [if_pos hany]⟩
    have hw' : w.identifier = identifier := by simpa using hw
    cases n with
    | none => simp [buttonDelete, bne, hseek, hnext, hval, hnextd, hw', h₁, h₂]
    | some b => simp [buttonDelete, bne, hseek, hnext, hval, hnextd, hw', h₁, h₂]

/-! ## The registry -/

/-- The buttons, and the `buttonAdd` calls whose button is registered: the node
    each allocated and its arguments, in order. -/
structure Registry where
  bt : Bt
  buttons : List (Addr × ButtonArgs)

/-- Nothing is registered. -/
def Registry.zero : Registry := { bt := Bt.zero, buttons := [] }

/-- The calls that change the list. -/
inductive Op where
  | add (p : Addr) (args : ButtonArgs)
  | delete (identifier : UInt8)

/-- A call, and what it should make of the registry. -/
def step (r : Registry) : Op → Option Registry
  | .add p args => (buttonAdd r.bt p args).map fun bt =>
    { bt := bt, buttons := r.buttons ++ [(p, args)] }
  | .delete identifier => (buttonDelete r.bt identifier).map fun bt =>
    { bt := bt, buttons := r.buttons.eraseP fun e => e.2.identifier == identifier }

/-- The allocator returns an address that is not in use. -/
def Admitted (r : Registry) : Op → Prop
  | .add p _ => p ∉ r.bt.mem
  | .delete _ => True

/-- `buttonFind` returns the button of the earliest call with the identifier, and
    the list holds the registered buttons with their arguments, in order. -/
structure Faithful (r : Registry) : Prop where
  find : ∀ identifier, buttonFind r.bt identifier =
    some ((r.buttons.find? fun e => e.2.identifier == identifier).map Prod.fst)
  carries : ∀ e ∈ r.buttons, ∃ b, valOf r.bt.mem e.1 = some b ∧ b.toArgs = e.2
  order : ∃ l, Registered r.bt l ∧ l.map Prod.fst = r.buttons.map Prod.fst

/-- All arguments are what `calloc` leaves in a new node. -/
def Op.Zeroed : Op → Prop
  | .add _ args => args = Button.zero.toArgs
  | .delete _ => True

/-- The list as a registry would list it. -/
def entries (l : List (Addr × Button)) : List (Addr × ButtonArgs) :=
  l.map fun e => (e.1, e.2.toArgs)

/-- A list with the entries of the registry is faithful to it. -/
theorem Registered.faithful {r : Registry} (h : Registered r.bt l)
    (heq : entries l = r.buttons) : Faithful r := by
  refine ⟨fun identifier => ?_, fun e he => ?_, ⟨l, h, ?_⟩⟩
  · rw [buttonFind_spec h, ← heq, entries, List.find?_map, Option.map_map]
    rfl
  · rw [← heq] at he
    obtain ⟨⟨a, b⟩, hab, rfl⟩ := List.mem_map.mp he
    exact ⟨b, Seg.valOf_of_mem h hab, rfl⟩
  · rw [← heq, entries, List.map_map]
    rfl

/-- The registry is right and all its arguments are zero. -/
structure Zero (r : Registry) (l : List (Addr × Button)) : Prop where
  list : Registered r.bt l
  entries_eq : entries l = r.buttons
  zero : ∀ e ∈ l, e.2.toArgs = Button.zero.toArgs

/-- Storing zeros in the last node changes no argument. -/
private theorem entries_storeLast (hzero : ∀ e ∈ l, e.2.toArgs = Button.zero.toArgs) :
    entries (storeLast Button.zero.toArgs l) = entries l := by
  rw [entries, storeLast, List.map_map, entries]
  apply List.map_congr_left
  intro e he
  simp only [Function.comp_apply]
  split
  · rw [ButtonArgs.toArgs_store, hzero e he]
  · rfl

/-- While all buttons are zero, an addition stores what it is given only if that is zero. -/
theorem Zero.add {r : Registry} (h : Zero r l) (hp : p ∉ r.bt.mem) (args : ButtonArgs) :
    (∃ r', step r (.add p args) = some r' ∧ Faithful r') ↔ args = Button.zero.toArgs := by
  obtain ⟨bt', hadd, hreg, -⟩ := buttonAdd_spec h.list hp args
  have hstep : step r (.add p args) = some ⟨bt', r.buttons ++ [(p, args)]⟩ := by
    rw [step, hadd, Option.map_some]
  constructor
  · intro h'
    obtain ⟨r', hr', hf⟩ := h'
    obtain rfl := Option.some.inj (hstep.symm.trans hr')
    -- the new node is the last one, and it holds zeros
    obtain ⟨b, hb, hargs⟩ := hf.carries (p, args) (by simp)
    have hval := (seg_append.mp hreg).2.1
    obtain rfl : b = Button.zero := Option.some.inj (hb.symm.trans hval)
    exact hargs.symm
  · -- zeros in the old last node and zeros in the new one: nothing is misplaced
    intro hargs
    subst hargs
    refine ⟨_, hstep, hreg.faithful ?_⟩
    rw [← h.entries_eq, ← entries_storeLast h.zero]
    simp [entries]

/-- As long as only zeros are added, all buttons of the list stay zero. -/
theorem Zero.step {r r' : Registry} (h : Zero r l) {op : Op} (hadm : Admitted r op)
    (hop : op.Zeroed) (hstep : Buttons.step r op = some r') : ∃ l', Zero r' l' := by
  cases op with
  | add p args =>
    obtain rfl : args = Button.zero.toArgs := hop
    obtain ⟨bt', hadd, hreg, -⟩ := buttonAdd_spec h.list hadm Button.zero.toArgs
    rw [Buttons.step, hadd, Option.map_some, Option.some.injEq] at hstep
    subst hstep
    refine ⟨_, hreg, ?_, ?_⟩
    · -- `buttonAdd` stores its arguments in the last node, which are zero as well
      rw [← h.entries_eq, ← entries_storeLast h.zero]
      simp [entries]
    · intro e he
      rcases List.mem_append.mp he with he | he
      · obtain ⟨x, hx, rfl⟩ := List.mem_map.mp he
        split
        · rfl
        · exact h.zero x hx
      · obtain rfl : e = (p, Button.zero) := by simpa using he
        rfl
  | delete identifier =>
    obtain ⟨bt', hdel, hreg, -⟩ := buttonDelete_spec h.list identifier
    rw [Buttons.step, hdel, Option.map_some, Option.some.injEq] at hstep
    subst hstep
    refine ⟨_, hreg, ?_, fun e he => h.zero e (List.mem_of_mem_eraseP he)⟩
    -- what `buttonDelete` leaves out is found by the identifier alone
    rw [← h.entries_eq, entries, entries, List.eraseP_map]
    rfl

/-- The program starts with an empty list. -/
theorem zero_zero : Zero Registry.zero [] := ⟨registered_zero, rfl, by simp⟩

/-- A list of zeros is faithful to a registry of zeros. -/
theorem Zero.faithful {r : Registry} (h : Zero r l) : Faithful r := h.list.faithful h.entries_eq

/-- `buttonDelete` keeps the list equal to the registry. -/
theorem Zero.delete {r : Registry} (h : Zero r l) (identifier : UInt8) :
    ∃ r', Buttons.step r (.delete identifier) = some r' ∧ Faithful r' := by
  obtain ⟨bt', hdel, -⟩ := buttonDelete_spec h.list identifier
  have hstep : Buttons.step r (.delete identifier) =
      some ⟨bt', r.buttons.eraseP fun e => e.2.identifier == identifier⟩ := by
    rw [Buttons.step, hdel, Option.map_some]
  obtain ⟨l', h'⟩ := h.step (show Admitted r (.delete identifier) from trivial) trivial hstep
  exact ⟨_, hstep, h'.faithful⟩

/-- In a run of `buttonAdd` and `buttonDelete` calls the list is the registry, in
    every state reached, exactly when every `buttonAdd` is given identifier 0, a
    null poll function, port 0 and pin 0. -/
theorem buttons_faithful_iff (ops : List Op)
    (hops : Runs.StepsMeet step Admitted Registry.zero ops) :
    Runs.Safe step Faithful Registry.zero ops ↔ ∀ op ∈ ops, op.Zeroed := by
  -- the invariant: the list holds the registry's buttons, and all their arguments are zero
  have hiff : Runs.Safe step Faithful Registry.zero ops ↔
      Runs.StepsMeet step (fun _ op => op.Zeroed) Registry.zero ops := by
    apply Runs.safe_iff_stepsMeet (J := fun r => ∃ l, Zero r l) _ _ ⟨[], zero_zero⟩
      zero_zero.faithful hops
    · intro r op r' hr hadm hop hstep
      obtain ⟨l, hl⟩ := hr
      exact hl.step hadm hop hstep
    · intro r op hr _ hadm
      obtain ⟨l, hl⟩ := hr
      cases op with
      | add p args => exact hl.add hadm args
      | delete identifier => exact ⟨fun _ => trivial, fun _ => hl.delete identifier⟩
  constructor
  · intro h
    exact h.stepsMeet_iff.mp (hiff.mp h)
  · intro h
    exact hiff.mpr (Runs.stepsMeet_of_forall fun op hop _ => h op hop)

/-- A button of zeros is added and deleted. -/
theorem buttons_faithful_iff_zeros :
    Runs.Safe step Faithful Registry.zero [.add 1 ⟨0, none, 0, 0⟩, .delete 0] := by
  apply (buttons_faithful_iff [.add 1 ⟨0, none, 0, 0⟩, .delete 0] _).mpr
  · intro op hop
    rcases List.mem_cons.mp hop with rfl | hop
    · rfl
    · obtain rfl := List.mem_singleton.mp hop
      trivial
  · apply (Runs.stepsMeet_cons rfl).mpr
    exact ⟨by simp only [Admitted]; decide, trivial, fun _ _ => trivial⟩

/-- One `buttonAdd(65, …)`: its arguments went to the sentinel, and no button with
    identifier 65 is found. -/
theorem buttonAdd_args_lost :
    Runs.StepsMeet step Admitted Registry.zero [.add 1 ⟨65, some 5, 1, 2⟩] ∧
      ¬ Runs.Safe step Faithful Registry.zero [.add 1 ⟨65, some 5, 1, 2⟩] := by
  constructor
  · exact ⟨by simp only [Admitted]; decide, fun _ _ => trivial⟩
  · intro h
    obtain ⟨r, hr, hf⟩ := h.final
    obtain rfl := Option.some.inj hr
    exact absurd (hf.find 65) (by decide)

end Buttons
