import CSnippets.Spec.ButtonsCounted

/-!
# The presses that are reported

What one call of `buttonGetPresses` does with a list of buttons: which identifiers its
loop appends (those in front of all buttons that were not released) and whether they fit
into the block it has allocated.
-/

namespace Buttons

open SentinelList

variable (debounceDelay : UInt32) (readings : Addr → Reading)

/-! ## One button -/

/-- The button is polled: its debounce delay is over. -/
def Due (r : Reading) (b : Button) : Prop := debounceDelay < r.ticks - b.previousPressTime

/-- The poll function is called and null. -/
def Stops (r : Reading) (b : Button) : Prop := Due debounceDelay r b ∧ b.poll = none

/-- The poll function returns another state than the one recorded. -/
def Changes (r : Reading) (b : Button) : Prop :=
  Due debounceDelay r b ∧ r.polled ≠ if b.state then 1 else 0

/-- The change is a release. -/
def Released (r : Reading) (b : Button) : Prop := Changes debounceDelay r b ∧ b.state = true

/-- The change is a press. -/
def Pressed (r : Reading) (b : Button) : Prop := Changes debounceDelay r b ∧ b.state = false

instance (r : Reading) (b : Button) : Decidable (Due debounceDelay r b) :=
  inferInstanceAs (Decidable (_ < _))

instance (r : Reading) (b : Button) : Decidable (Stops debounceDelay r b) :=
  inferInstanceAs (Decidable (_ ∧ _))

instance (r : Reading) (b : Button) : Decidable (Changes debounceDelay r b) :=
  inferInstanceAs (Decidable (_ ∧ _))

instance (r : Reading) (b : Button) : Decidable (Released debounceDelay r b) :=
  inferInstanceAs (Decidable (_ ∧ _))

instance (r : Reading) (b : Button) : Decidable (Pressed debounceDelay r b) :=
  inferInstanceAs (Decidable (_ ∧ _))

/-- The button after it has been checked. -/
def after (r : Reading) (b : Button) : Button :=
  if Changes debounceDelay r b then { b with state := !b.state } else b

/-- The bytes appended for a button behind a node with the identifier `front`. -/
def reported (front : UInt8) (r : Reading) (b : Button) : List UInt8 :=
  if Released debounceDelay r b ∨ front = 0 then [] else [front]

variable {debounceDelay} {readings} {r : Reading} {b : Button}

/-- A null poll function that is called has no result. -/
theorem checkButton_of_stops (h : Stops debounceDelay r b) :
    checkButton debounceDelay r.ticks r.polled b = none := by
  have hdue : r.ticks - b.previousPressTime > debounceDelay := h.1
  simp [checkButton, hdue, h.2]

/-- `checkButton` returns 0 for a release, 1 for a press and -1 otherwise. -/
theorem checkButton_eq (h : ¬ Stops debounceDelay r b) :
    checkButton debounceDelay r.ticks r.polled b =
      some (if Changes debounceDelay r b then (if b.state then 0 else 1) else -1,
        after debounceDelay r b) := by
  by_cases hdue : r.ticks - b.previousPressTime > debounceDelay
  · obtain ⟨f, hpoll⟩ := Option.ne_none_iff_exists'.mp fun hpoll => h ⟨hdue, hpoll⟩
    have hdue' : Due debounceDelay r b := hdue
    cases hstate : b.state <;>
      by_cases hpolled : r.polled = if b.state then 1 else 0 <;>
      simp_all [checkButton, Changes, after]
  · have hdue' : ¬ Due debounceDelay r b := hdue
    simp [checkButton, hdue, Changes, hdue', after]

/-- What the result of `checkButton` makes `strncat` append. -/
theorem reported_eq (front : UInt8) (h : ¬ Stops debounceDelay r b) :
    ∃ result, checkButton debounceDelay r.ticks r.polled b = some (result, after debounceDelay r b) ∧
      ((if result ≠ 0 then [front] else [0]).take 1).takeWhile (· != 0) =
        reported debounceDelay front r b := by
  obtain ⟨result, hresult⟩ : ∃ result : Int, result =
      if Changes debounceDelay r b then (if b.state then 0 else 1) else -1 := ⟨_, rfl⟩
  -- checkButton answers 0 for a release, 1 for a press and -1 for no change
  have hzero : result = 0 ↔ Released debounceDelay r b := by
    rw [hresult, Released]
    by_cases hchanges : Changes debounceDelay r b
    · cases hstate : b.state <;> simp [hchanges]
    · simp [hchanges]
  refine ⟨result, hresult ▸ checkButton_eq h, ?_⟩
  rw [reported]
  by_cases hreleased : Released debounceDelay r b
  · simp [hzero.mpr hreleased, hreleased]
  · have hne : result ≠ 0 := fun hresult => hreleased (hzero.mp hresult)
    by_cases hfront : front = 0
    · simp [hne, hreleased, hfront]
    · simp [hne, hreleased, hfront]

/-- A release appends nothing. -/
theorem reported_of_released {front : UInt8} (h : Released debounceDelay r b) :
    reported debounceDelay front r b = [] :=
  if_pos (Or.inl h)

/-- Anything else appends the identifier of the node in front. -/
theorem reported_of_not_released {front : UInt8} (h : ¬ Released debounceDelay r b)
    (hfront : front ≠ 0) : reported debounceDelay front r b = [front] :=
  if_neg (not_or.mpr ⟨h, hfront⟩)

/-- A check leaves the identifier as it is. -/
@[simp] theorem after_identifier : (after debounceDelay r b).identifier = b.identifier := by
  rw [after]
  split <;> rfl

/-- No terminator is appended. -/
theorem zero_not_mem_reported {front : UInt8} : 0 ∉ reported debounceDelay front r b := by
  rw [reported]
  split
  · exact List.not_mem_nil
  · rename_i h
    exact fun hmem => h (Or.inr (List.mem_singleton.mp hmem).symm)

/-- A button appends at most one byte. -/
theorem length_reported_le {front : UInt8} : (reported debounceDelay front r b).length ≤ 1 := by
  rw [reported]
  split <;> simp

/-! ## The loop -/

variable (debounceDelay) (readings)

/-- The bytes appended for the buttons of a list behind a node with the identifier
    `front`. -/
def reportedAll : UInt8 → List (Addr × Button) → List UInt8
  | _, [] => []
  | front, (a, b) :: l =>
    reported debounceDelay front (readings a) b ++ reportedAll b.identifier l

/-- The number of bytes appended before a null poll function is called. -/
def reports : UInt8 → List (Addr × Button) → Nat
  | _, [] => 0
  | front, (a, b) :: l =>
    if Stops debounceDelay (readings a) b then 0
    else (reported debounceDelay front (readings a) b).length + reports b.identifier l

/-- The buttons after all have been checked. -/
def afterAll (l : List (Addr × Button)) : List (Addr × Button) :=
  l.map fun e => (e.1, after debounceDelay (readings e.1) e.2)

variable {debounceDelay} {readings}
variable {mem mem' : Memory Button} {a : Addr} {w : Button} {l : List (Addr × Button)}
  {text : List UInt8}

/-- One round of the loop, on a block that holds `text` and `k` zeros behind it. -/
theorem pressesLoop_cons (fuel k : Nat) {e : Addr × Button} (h : IsList mem a (e :: l))
    (hval : valOf mem a = some w) (hstops : ¬ Stops debounceDelay (readings e.1) e.2)
    (htext : 0 ∉ text) :
    ∃ mem₁, setVal mem e.1 (fun _ => after debounceDelay (readings e.1) e.2) = some mem₁ ∧
      pressesLoop debounceDelay readings (fuel + 1) mem a (text ++ List.replicate k 0) =
        if (reported debounceDelay w.identifier (readings e.1) e.2).length < k then
          pressesLoop debounceDelay readings fuel mem₁ e.1
            (text ++ reported debounceDelay w.identifier (readings e.1) e.2 ++
              List.replicate
                (k - (reported debounceDelay w.identifier (readings e.1) e.2).length) 0)
        else .error .outOfBounds := by
  obtain ⟨b, v⟩ := e
  have hab : a ≠ b := List.ne_of_not_mem_cons (List.nodup_cons.mp h.nodup).1
  obtain ⟨hnext, hb, -⟩ := h
  obtain ⟨mem₁, hset⟩ := exists_setVal (mem_of_valOf hb) fun _ =>
    after debounceDelay (readings b) v
  obtain ⟨result, hcheck, happended⟩ := reported_eq w.identifier hstops
  have hval₁ : valOf mem₁ a = some w := by rw [valOf_setVal hset, if_neg hab, hval]
  have hsrc : 1 ≤ (if result ≠ 0 then [w.identifier] else [0]).length ∨
      0 ∈ (if result ≠ 0 then [w.identifier] else [0]) := by
    left
    split <;> simp
  refine ⟨mem₁, hset, ?_⟩
  have happend := CMemory.strncat_zeros (k := k) htext hsrc
  rw [happended] at happend
  by_cases hlt : (reported debounceDelay w.identifier (readings b) v).length < k
  · rw [if_pos hlt] at happend ⊢
    simp only [pressesLoop, hnext, hb, hcheck, hset, hval₁, access, bind, Except.bind, happend]
  · rw [if_neg hlt] at happend ⊢
    simp only [pressesLoop, hnext, hb, hcheck, hset, hval₁, access, bind, Except.bind, happend]

/-- The list behind a button that has been checked. -/
private theorem isList_rest {e : Addr × Button} {v : Button} (h : IsList mem a (e :: l))
    (hset : setVal mem e.1 (fun _ => v) = some mem') :
    IsList mem' e.1 l ∧ valOf mem' e.1 = some v := by
  have hnodup : e.1 ∉ l.map Prod.fst :=
    (List.nodup_cons.mp (List.nodup_cons.mp h.nodup).2).1
  constructor
  · apply Seg.congr h.2.2
    · exact fun u _ => nextOf_setVal hset u
    · intro u hu
      have hue : u ≠ e.1 := fun hue => hnodup (hue ▸ hu)
      rw [valOf_setVal hset, if_neg hue]
  · rw [valOf_setVal hset, if_pos rfl, h.2.1, Option.map_some]

/-- `strncat` writes inside the block, which ends up with a terminator. -/
def WritesInBounds {α : Type} : Except Halt (List UInt8 × α) → Prop
  | .ok (ret, _) => 0 ∈ ret
  | .error why => why ≠ .outOfBounds

variable {fuel k : Nat}

variable (debounceDelay) (readings) in
/-- A byte is left for the terminator when all buttons have reported; a block without
    any bytes will do only if the first button already ends the program. -/
def Fits (front : UInt8) (l : List (Addr × Button)) (size : Nat) : Prop :=
  reports debounceDelay readings front l < size ∨
    (size = 0 ∧ ∃ e ∈ l.head?, Stops debounceDelay (readings e.1) e.2)

/-- On a list of buttons the loop stays inside its block exactly if the reports fit. -/
theorem pressesLoop_inBounds_iff (h : IsList mem a l) (hval : valOf mem a = some w)
    (hfuel : l.length < fuel) (htext : 0 ∉ text) :
    WritesInBounds (pressesLoop debounceDelay readings fuel mem a (text ++ List.replicate k 0)) ↔
      Fits debounceDelay readings w.identifier l k := by
  -- the text written so far and the room behind it change from node to node
  induction l generalizing mem a w fuel text k with
  | nil =>
    obtain ⟨fuel, rfl⟩ : ∃ n, fuel = n + 1 := ⟨fuel - 1, by simp at hfuel; omega⟩
    have hnext : nextOf mem a = some none := h
    have hloop : pressesLoop debounceDelay readings (fuel + 1) mem a
        (text ++ List.replicate k 0) = .ok (text ++ List.replicate k 0, mem) := by
      simp only [pressesLoop, hnext, access, bind, Except.bind, pure, Except.pure]
    rw [hloop]
    simp [WritesInBounds, htext, Fits, reports, Nat.pos_iff_ne_zero]
  | cons e l ih =>
    obtain ⟨fuel, rfl⟩ : ∃ n, fuel = n + 1 := ⟨fuel - 1, by simp at hfuel; omega⟩
    -- a poll function that is called and null stops the loop here
    by_cases hstops : Stops debounceDelay (readings e.1) e.2
    · have hloop : pressesLoop debounceDelay readings (fuel + 1) mem a
          (text ++ List.replicate k 0) = .error .nullPointer := by
        simp only [pressesLoop, h.1, h.2.1, checkButton_of_stops hstops, access, bind, Except.bind]
      rw [hloop]
      simp [WritesInBounds, Fits, reports, hstops]
      omega
    · obtain ⟨mem₁, hset, hloop⟩ := pressesLoop_cons fuel k h hval hstops htext
      obtain ⟨hrest, hval₁⟩ := isList_rest h hset
      rw [hloop]
      split
      · rename_i hlt
        have htext' : 0 ∉ text ++ reported debounceDelay w.identifier (readings e.1) e.2 := by
          rw [List.mem_append, not_or]
          exact ⟨htext, zero_not_mem_reported⟩
        -- the report of this button takes at most one byte of the room
        rw [ih hrest hval₁ (by simpa using hfuel) htext', after_identifier]
        simp only [Fits, reports, List.head?_cons, Option.mem_some_iff, exists_eq_left', hstops,
          and_false, or_false, if_false]
        omega
      · -- the report does not fit, and `reports` counts at least this one
        rename_i hge
        simp [WritesInBounds, Fits, reports, hstops]
        omega

/-- A loop that comes to its end has appended what every button reports and changed
    nothing but the states of the buttons. -/
theorem pressesLoop_ok {ret : List UInt8} (h : IsList mem a l) (hval : valOf mem a = some w)
    (hfuel : l.length < fuel) (htext : 0 ∉ text)
    (hok : pressesLoop debounceDelay readings fuel mem a (text ++ List.replicate k 0) =
      .ok (ret, mem')) :
    (∀ e ∈ l, ¬ Stops debounceDelay (readings e.1) e.2) ∧
      (∃ n, ret = text ++ reportedAll debounceDelay readings w.identifier l ++
        List.replicate n 0) ∧
      IsList mem' a (afterAll debounceDelay readings l) ∧
      ∀ u, nextOf mem' u = nextOf mem u ∧ (u ∉ l.map Prod.fst → valOf mem' u = valOf mem u) := by
  -- the text written so far and the room behind it change from node to node
  induction l generalizing mem a w fuel text k with
  | nil =>
    obtain ⟨fuel, rfl⟩ : ∃ n, fuel = n + 1 := ⟨fuel - 1, by simp at hfuel; omega⟩
    have hnext : nextOf mem a = some none := h
    simp only [pressesLoop, hnext, access, bind, Except.bind, pure, Except.pure, Except.ok.injEq,
      Prod.mk.injEq] at hok
    obtain ⟨rfl, rfl⟩ := hok
    exact ⟨by simp, ⟨k, by simp [reportedAll]⟩, h, fun u => ⟨rfl, fun _ => rfl⟩⟩
  | cons e l ih =>
    obtain ⟨fuel, rfl⟩ : ∃ n, fuel = n + 1 := ⟨fuel - 1, by simp at hfuel; omega⟩
    by_cases hstops : Stops debounceDelay (readings e.1) e.2
    · simp [pressesLoop, h.1, h.2.1, checkButton_of_stops hstops, access, bind, Except.bind] at hok
    · obtain ⟨mem₁, hset, hloop⟩ := pressesLoop_cons fuel k h hval hstops htext
      obtain ⟨hrest, hval₁⟩ := isList_rest h hset
      rw [hloop] at hok
      split at hok
      · have htext' : 0 ∉ text ++ reported debounceDelay w.identifier (readings e.1) e.2 := by
          rw [List.mem_append, not_or]
          exact ⟨htext, zero_not_mem_reported⟩
        obtain ⟨hall, ⟨n, hret⟩, hlist, hframe⟩ :=
          ih hrest hval₁ (by simpa using hfuel) htext' hok
        -- the node of this button is none of the later ones
        have hne : e.1 ∉ l.map Prod.fst :=
          (List.nodup_cons.mp (List.nodup_cons.mp h.nodup).2).1
        refine ⟨?_, ⟨n, ?_⟩, ⟨?_, ?_, hlist⟩, fun u => ⟨?_, fun hu => ?_⟩⟩
        · exact List.forall_mem_cons.mpr ⟨hstops, hall⟩
        · rw [hret, after_identifier, reportedAll, List.append_assoc text]
        · show nextOf mem' a = some (some e.1)
          rw [(hframe a).1, nextOf_setVal hset, h.1]
        · show valOf mem' e.1 = some (after debounceDelay (readings e.1) e.2)
          rw [(hframe e.1).2 hne, hval₁]
        · rw [(hframe u).1, nextOf_setVal hset]
        · rw [List.map_cons, List.mem_cons, not_or] at hu
          rw [(hframe u).2 hu.2, valOf_setVal hset, if_neg hu.1]
      · cases hok

/-- With room for an identifier of every button and no null poll function called, the
    loop comes to its end. -/
theorem exists_pressesLoop (h : IsList mem a l) (hval : valOf mem a = some w)
    (hfuel : l.length < fuel) (htext : 0 ∉ text) (hroom : l.length < k)
    (hall : ∀ e ∈ l, ¬ Stops debounceDelay (readings e.1) e.2) :
    ∃ ret mem', pressesLoop debounceDelay readings fuel mem a (text ++ List.replicate k 0) =
      .ok (ret, mem') := by
  induction l generalizing mem a w fuel text k with
  | nil =>
    obtain ⟨fuel, rfl⟩ : ∃ n, fuel = n + 1 := ⟨fuel - 1, by simp at hfuel; omega⟩
    have hnext : nextOf mem a = some none := h
    refine ⟨text ++ List.replicate k 0, mem, ?_⟩
    simp only [pressesLoop, hnext, access, bind, Except.bind, pure, Except.pure]
  | cons e l ih =>
    obtain ⟨fuel, rfl⟩ : ∃ n, fuel = n + 1 := ⟨fuel - 1, by simp at hfuel; omega⟩
    obtain ⟨hstops, hall⟩ := List.forall_mem_cons.mp hall
    obtain ⟨mem₁, hset, hloop⟩ := pressesLoop_cons fuel k h hval hstops htext
    obtain ⟨hrest, hval₁⟩ := isList_rest h hset
    have htext' : 0 ∉ text ++ reported debounceDelay w.identifier (readings e.1) e.2 := by
      rw [List.mem_append, not_or]
      exact ⟨htext, zero_not_mem_reported⟩
    have hone : (reported debounceDelay w.identifier (readings e.1) e.2).length ≤ 1 :=
      length_reported_le
    have hlength : (e :: l).length = l.length + 1 := rfl
    rw [hloop, if_pos (by omega)]
    exact ih hrest hval₁ (by omega) htext' (by omega) hall

/-- There are at most as many reports as buttons. -/
theorem reports_le_length {front : UInt8} :
    reports debounceDelay readings front l ≤ l.length := by
  induction l generalizing front with
  | nil => exact Nat.le_refl 0
  | cons e l ih =>
    have hrest : reports debounceDelay readings e.2.identifier l ≤ l.length := ih
    have hone : (reported debounceDelay front (readings e.1) e.2).length ≤ 1 := length_reported_le
    rw [reports, List.length_cons]
    split <;> omega

/-- No button appends a terminator. -/
theorem zero_not_mem_reportedAll {front : UInt8} :
    0 ∉ reportedAll debounceDelay readings front l := by
  induction l generalizing front with
  | nil => exact List.not_mem_nil
  | cons e l ih =>
    rw [reportedAll, List.mem_append, not_or]
    exact ⟨zero_not_mem_reported, ih⟩

/-- One report is missing exactly if some button does not report: its poll ends the
    program, it is released, or no identifier is in front. -/
theorem reports_lt_length_iff {front : UInt8} :
    reports debounceDelay readings front l < l.length ↔
      ∃ p ∈ (front :: l.map fun e => e.2.identifier).zip l,
        Stops debounceDelay (readings p.2.1) p.2.2 ∨
          Released debounceDelay (readings p.2.1) p.2.2 ∨ p.1 = 0 := by
  induction l generalizing front with
  | nil => simp
  | cons e l ih =>
    have hrest : reports debounceDelay readings e.2.identifier l ≤ l.length := reports_le_length
    rw [List.map_cons, List.zip_cons_cons, List.exists_mem_cons_iff, ← ih, reports,
      List.length_cons]
    -- a button that stops the loop ends the reports, and each of the others adds one or none
    by_cases hstops : Stops debounceDelay (readings e.1) e.2
    · rw [if_pos hstops]
      exact ⟨fun _ => Or.inl (Or.inl hstops), fun _ => Nat.succ_pos _⟩
    · rw [if_neg hstops, reported]
      by_cases hsilent : Released debounceDelay (readings e.1) e.2 ∨ front = 0
      · rw [if_pos hsilent, List.length_nil]
        exact ⟨fun _ => Or.inl (Or.inr hsilent), fun _ => by omega⟩
      · rw [if_neg hsilent, List.length_singleton]
        constructor
        · exact fun h => Or.inr (by omega)
        · rintro ((h | h) | h)
          · exact absurd h hstops
          · exact absurd h hsilent
          · omega

/-- A block of one byte for each button holds the reports unless every button reports. -/
theorem fits_length_iff {front : UInt8} :
    Fits debounceDelay readings front l l.length ↔
      reports debounceDelay readings front l < l.length := by
  constructor
  · rintro (h | ⟨hlength, e, he, -⟩)
    · exact h
    · obtain rfl := List.eq_nil_of_length_eq_zero hlength
      simp at he
  · exact Or.inl

/-! ## One call -/

variable {bt bt' : Bt}

/-- The call allocates one byte for each counted button and runs the loop from the head. -/
theorem buttonGetPresses_eq :
    buttonGetPresses debounceDelay true readings bt = (do
      let (ret, mem) ← pressesLoop debounceDelay readings bt.mem.keys.card bt.mem headAddr
        ([] ++ List.replicate bt.buttonCount.toNat 0)
      return (ret, { bt with mem := mem })) := by
  have hcount := bt.buttonCount.toNat_lt
  have hcalloc : CMemory.calloc true bt.buttonCount.toUInt64 1 =
      some (List.replicate bt.buttonCount.toNat 0) := by
    rw [CMemory.calloc, if_pos]
    · simp
    · refine ⟨rfl, ?_⟩
      simp only [UInt32.toNat_toUInt64, UInt64.toNat_one, UInt64.size]
      omega
  rw [buttonGetPresses, hcalloc]
  rfl

/-- The call stays inside its block exactly if there is none or the reports fit. -/
theorem buttonGetPresses_inBounds_iff (h : Registered bt l) {hd : Button}
    (hhead : valOf bt.mem headAddr = some hd) (avail : Bool) :
    WritesInBounds (buttonGetPresses debounceDelay avail readings bt) ↔
      (avail = true → Fits debounceDelay readings hd.identifier l bt.buttonCount.toNat) := by
  cases avail with
  | false => simp [buttonGetPresses, CMemory.calloc, access, bind, Except.bind, WritesInBounds]
  | true =>
    have hiff : WritesInBounds (pressesLoop debounceDelay readings bt.mem.keys.card bt.mem headAddr
        ([] ++ List.replicate bt.buttonCount.toNat 0)) ↔
          Fits debounceDelay readings hd.identifier l bt.buttonCount.toNat :=
      pressesLoop_inBounds_iff h hhead h.length_lt_card List.not_mem_nil
    rw [buttonGetPresses_eq]
    simp only [forall_const]
    rw [← hiff]
    cases pressesLoop debounceDelay readings bt.mem.keys.card bt.mem headAddr
      ([] ++ List.replicate bt.buttonCount.toNat 0) with
    | error why => exact Iff.rfl
    | ok p => exact Iff.rfl

/-- A call that returns keeps the list. -/
theorem buttonGetPresses_ok (h : Registered bt l) {hd : Button}
    (hhead : valOf bt.mem headAddr = some hd) {avail : Bool} {ret : List UInt8}
    (hok : buttonGetPresses debounceDelay avail readings bt = .ok (ret, bt')) :
    (∀ e ∈ l, ¬ Stops debounceDelay (readings e.1) e.2) ∧
      (∃ n, ret = reportedAll debounceDelay readings hd.identifier l ++ List.replicate n 0) ∧
      Registered bt' (afterAll debounceDelay readings l) ∧ bt'.buttonCount = bt.buttonCount := by
  cases avail with
  | false => simp [buttonGetPresses, CMemory.calloc, access, bind, Except.bind] at hok
  | true =>
    rw [buttonGetPresses_eq] at hok
    cases hloop : pressesLoop debounceDelay readings bt.mem.keys.card bt.mem headAddr
        ([] ++ List.replicate bt.buttonCount.toNat 0) with
    | error why =>
      rw [hloop] at hok
      cases hok
    | ok p =>
      obtain ⟨ret', mem'⟩ := p
      rw [hloop] at hok
      obtain ⟨rfl, rfl⟩ := Prod.mk.inj (Except.ok.inj hok)
      obtain ⟨hall, ⟨n, hret⟩, hlist, -⟩ :=
        pressesLoop_ok h hhead h.length_lt_card List.not_mem_nil hloop
      exact ⟨hall, ⟨n, by rw [hret, List.nil_append]⟩, hlist, rfl⟩

/-- With room for all identifiers and no null poll function called, the call returns. -/
theorem exists_buttonGetPresses (h : Registered bt l) {hd : Button}
    (hhead : valOf bt.mem headAddr = some hd) (hroom : l.length < bt.buttonCount.toNat)
    (hall : ∀ e ∈ l, ¬ Stops debounceDelay (readings e.1) e.2) :
    ∃ ret bt', buttonGetPresses debounceDelay true readings bt = .ok (ret, bt') ∧ 0 ∈ ret := by
  have hnil : (0 : UInt8) ∉ [] := List.not_mem_nil
  obtain ⟨ret, mem', hloop⟩ := exists_pressesLoop h hhead h.length_lt_card hnil hroom hall
  have hok : buttonGetPresses debounceDelay true readings bt =
      .ok (ret, { bt with mem := mem' }) := by
    rw [buttonGetPresses_eq, hloop]
    rfl
  have hfits : Fits debounceDelay readings hd.identifier l bt.buttonCount.toNat :=
    Or.inl (Nat.lt_of_le_of_lt reports_le_length hroom)
  have hbounds := (buttonGetPresses_inBounds_iff h hhead true).mpr fun _ => hfits
  rw [hok] at hbounds
  exact ⟨ret, _, hok, hbounds⟩

/-! ## Runs -/

/-- A call of the interface. -/
inductive Request where
  | change (op : Op)
  | getPresses (readings : Addr → Reading)

variable (debounceDelay) in
/-- The buttons after a call; a call of `buttonGetPresses` that leaves its block or ends
    the program has none. -/
def serve (bt : Bt) : Request → Option Bt
  | .change (.add p args) => buttonAdd bt p args
  | .change (.delete identifier) => buttonDelete bt identifier
  | .getPresses readings =>
    match buttonGetPresses debounceDelay true readings bt with
    | .ok (_, bt) => some bt
    | .error _ => none

/-- The allocator returns an address that is not in use. -/
def FreshAddr (bt : Bt) : Request → Prop
  | .change (.add p _) => p ∉ bt.mem
  | .change (.delete _) => True
  | .getPresses _ => True

/-- The head is a button too, with an identifier of its own. -/
theorem Registered.exists_head (h : Registered bt l) : ∃ hd, valOf bt.mem headAddr = some hd :=
  exists_valOf (Seg.mem h headAddr List.mem_cons_self)

/-- Every call keeps the count of buttons right. -/
theorem Counted.serve (h : Counted bt l) {req : Request} (hfresh : FreshAddr bt req)
    (hstep : serve debounceDelay bt req = some bt') : ∃ l', Counted bt' l' := by
  cases req with
  | change op =>
    cases op with
    | add p args =>
      obtain ⟨bt'', l', hadd, hcounted, -⟩ := h.add hfresh args
      obtain rfl : bt' = bt'' := Option.some.inj (hstep.symm.trans hadd)
      exact ⟨l', hcounted⟩
    | delete identifier =>
      obtain ⟨bt'', l', hdel, hcounted, -⟩ := h.delete identifier
      obtain rfl : bt' = bt'' := Option.some.inj (hstep.symm.trans hdel)
      exact ⟨l', hcounted⟩
  | getPresses readings =>
    obtain ⟨hlist, hcount⟩ := h
    obtain ⟨hd, hhead⟩ := hlist.exists_head
    simp only [Buttons.serve] at hstep
    split at hstep
    · rename_i ret bt'' hok
      obtain rfl := Option.some.inj hstep
      obtain ⟨-, -, hlist', hcount'⟩ := buttonGetPresses_ok hlist hhead hok
      refine ⟨_, hlist', ?_⟩
      rw [hcount', afterAll, List.length_map, hcount]
    · cases hstep

/-- For the buttons left by any run of calls, and whatever the next poll brings: the
    writes of `buttonGetPresses` stay in its block, terminated, exactly if fewer bytes
    are reported than `button_count` says. While that has not wrapped, this is to say
    that some registered button reports none. -/
theorem presses_in_bounds_iff (debounceDelay : UInt32) (reqs : List Request) (bt : Bt)
    (hfresh : Runs.StepsMeet (serve debounceDelay) FreshAddr Bt.zero reqs)
    (hrun : reqs.foldlM (serve debounceDelay) Bt.zero = some bt)
    (avail : Bool) (readings : Addr → Reading) :
    ∃ hd l, valOf bt.mem headAddr = some hd ∧ Registered bt l ∧
      (WritesInBounds (buttonGetPresses debounceDelay avail readings bt) ↔
        (avail = true → Fits debounceDelay readings hd.identifier l bt.buttonCount.toNat)) ∧
      (l.length < 2 ^ 32 → (Fits debounceDelay readings hd.identifier l bt.buttonCount.toNat ↔
        ∃ p ∈ (hd.identifier :: l.map fun e => e.2.identifier).zip l,
          Stops debounceDelay (readings p.2.1) p.2.2 ∨
            Released debounceDelay (readings p.2.1) p.2.2 ∨ p.1 = 0)) := by
  -- button_count is the length of the list modulo 2 ^ 32 in every state of the run
  have halways : Runs.Always (serve debounceDelay) (fun bt => ∃ l, Counted bt l) Bt.zero reqs := by
    apply Runs.Always.of_invariant (fun _ h => h) _ ⟨[], counted_zero⟩ hfresh
    intro bt req bt' ⟨l, h⟩ hreq hstep
    exact h.serve hreq hstep
  obtain ⟨l, hlist, hcount⟩ := halways.final hrun
  obtain ⟨hd, hhead⟩ := hlist.exists_head
  refine ⟨hd, l, hhead, hlist, buttonGetPresses_inBounds_iff hlist hhead avail, fun hlt => ?_⟩
  rw [hcount, Nat.mod_eq_of_lt hlt, fits_length_iff, reports_lt_length_iff]

/-- Two buttons, of which only one has an identifier in front of it. -/
theorem presses_in_bounds_iff_zero_identifier :
    ∃ bt, [Request.change (.add 1 ⟨65, some 5, 0, 0⟩),
        .change (.add 2 ⟨0, some 6, 0, 0⟩)].foldlM (serve 5) Bt.zero = some bt ∧
      WritesInBounds (buttonGetPresses 5 true (fun _ => ⟨0, 0⟩) bt) := by
  refine ⟨_, rfl, ?_⟩
  obtain ⟨hd, l, hhead, hlist, hiff, hfits⟩ := presses_in_bounds_iff 5
    [.change (.add 1 ⟨65, some 5, 0, 0⟩), .change (.add 2 ⟨0, some 6, 0, 0⟩)] _
    ((Runs.stepsMeet_cons rfl).mpr ⟨by simp only [FreshAddr]; decide,
      (Runs.stepsMeet_cons rfl).mpr ⟨by simp only [FreshAddr]; decide, trivial⟩⟩)
    rfl true fun _ => ⟨0, 0⟩
  obtain rfl : l = [(1, ⟨0, false, 0, some 6, 0, 0⟩), (2, Button.zero)] :=
    IsList.unique hlist ⟨rfl, rfl, rfl, rfl, rfl⟩
  refine hiff.mpr fun _ => (hfits (by decide)).mpr ⟨(0, 2, Button.zero), ?_, Or.inr (Or.inr rfl)⟩
  exact List.mem_cons_of_mem _ List.mem_cons_self

/-- The only button reports within its debounce window, and its identifier leaves no
    byte for the terminator; without a button there is no byte at all. -/
theorem all_reports_overflow :
    (∃ bt, [Request.change (.add 1 ⟨65, some 5, 0, 0⟩)].foldlM (serve 5) Bt.zero = some bt ∧
      ¬ WritesInBounds (buttonGetPresses 5 true (fun _ => ⟨0, 0⟩) bt)) ∧
    ¬ WritesInBounds (buttonGetPresses 5 true (fun _ => ⟨0, 0⟩) Bt.zero) := by
  constructor
  · refine ⟨_, rfl, ?_⟩
    show ¬ Halt.outOfBounds ≠ .outOfBounds
    exact fun h => h rfl
  · show (0 : UInt8) ∉ []
    exact List.not_mem_nil

end Buttons
