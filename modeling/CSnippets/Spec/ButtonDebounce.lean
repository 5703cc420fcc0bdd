import CSnippets.Spec.ButtonPresses

/-!
# Debouncing

A history of `checkButton` calls on one button, with the times of the calls that
reported a change. The tick counter is the time modulo 2^32. `checkButton` compares it
with `previous_press_time`, which nothing ever sets, so a change opens no window: two
changes are far enough apart exactly if the input itself does not bounce.
-/

namespace Buttons

/-- A call of `checkButton`, `delay` ticks after the one before, and what the poll
    function returns in it. -/
structure Check where
  delay : Nat
  polled : Int
deriving Repr, DecidableEq

/-- A button, the time, and the times at which a change was reported. -/
structure History where
  button : Button
  now : Nat
  changes : List Nat
deriving Repr, DecidableEq

/-- The tick count and the poll result of the next call. -/
def History.reading (h : History) (c : Check) : Reading :=
  { ticks := UInt32.ofNat (h.now + c.delay), polled := c.polled }

/-- One call of `checkButton`; results 0 and 1 report a change. -/
def check (debounceDelay : UInt32) (h : History) (c : Check) : Option History := do
  let r := h.reading c
  let (result, button) ← checkButton debounceDelay r.ticks r.polled h.button
  return { button := button, now := h.now + c.delay,
           changes := if result = -1 then h.changes else h.changes ++ [h.now + c.delay] }

/-- Any two changes reported within one wrap of the tick counter are more than the
    debounce delay apart. -/
def Debounced (debounceDelay : UInt32) (h : History) : Prop :=
  h.changes.Pairwise fun t u => u - t < 2 ^ 32 → debounceDelay.toNat < u - t

/-- Within the debounce delay of the last change the input does not bounce: if it is
    polled at all, it is the state stored. -/
def NoBounce (debounceDelay : UInt32) (h : History) (c : Check) : Prop :=
  ∀ t ∈ h.changes.getLast?, h.now + c.delay - t ≤ debounceDelay.toNat →
    Due debounceDelay (h.reading c) h.button → c.polled = if h.button.state then 1 else 0

variable {debounceDelay : UInt32} {h h' : History} {c : Check}

/-- What a call does to the history. -/
theorem check_eq (hstops : ¬ Stops debounceDelay (h.reading c) h.button) :
    check debounceDelay h c = some
      { button := after debounceDelay (h.reading c) h.button, now := h.now + c.delay,
        changes := if Changes debounceDelay (h.reading c) h.button then
          h.changes ++ [h.now + c.delay] else h.changes } := by
  rw [check, checkButton_eq hstops]
  by_cases hchanges : Changes debounceDelay (h.reading c) h.button
  · cases hstate : h.button.state <;> simp [hchanges]
  · simp [hchanges]

/-- With a null poll function due, there is no state after the check. -/
theorem check_eq_none (hstops : Stops debounceDelay (h.reading c) h.button) :
    check debounceDelay h c = none := by
  rw [check, checkButton_of_stops hstops]
  rfl

/-- The times are in order, and a button that has changed has a poll function. -/
structure Recorded (h : History) : Prop where
  sorted : h.changes.Pairwise (· ≤ ·)
  le_now : ∀ t ∈ h.changes, t ≤ h.now
  poll : h.changes ≠ [] → h.button.poll ≠ none

/-- A check keeps the times in order and the record complete. -/
theorem Recorded.check (hrec : Recorded h) (hcheck : check debounceDelay h c = some h') :
    Recorded h' := by
  by_cases hstops : Stops debounceDelay (h.reading c) h.button
  · rw [check_eq_none hstops] at hcheck
    cases hcheck
  · rw [check_eq hstops, Option.some.injEq] at hcheck
    subst hcheck
    -- what was recorded before was recorded before the clock went on
    have hle : ∀ t ∈ h.changes, t ≤ h.now + c.delay := fun t ht =>
      Nat.le_add_right_of_le (hrec.le_now t ht)
    -- only a change is recorded, and at the present time
    by_cases hchanges : Changes debounceDelay (h.reading c) h.button
    · have hpoll : h.button.poll ≠ none := fun hpoll => hstops ⟨hchanges.1, hpoll⟩
      refine ⟨?_, ?_, fun _ => ?_⟩
      · simp only [if_pos hchanges, List.pairwise_append]
        exact ⟨hrec.sorted, List.pairwise_singleton _ _, by simpa using hle⟩
      · simp only [if_pos hchanges]
        intro t ht
        cases List.mem_append.mp ht with
        | inl ht => exact hle t ht
        | inr ht => exact Nat.le_of_eq (List.mem_singleton.mp ht)
      · rw [after, if_pos hchanges]
        exact hpoll
    · refine ⟨?_, ?_, ?_⟩
      · simpa only [if_neg hchanges] using hrec.sorted
      · simpa only [if_neg hchanges] using hle
      · simpa only [if_neg hchanges, after] using hrec.poll

/-- A call that changes the button does so within the debounce delay of the last change
    exactly if the input bounces. -/
theorem noBounce_iff (hchanges : Changes debounceDelay (h.reading c) h.button) :
    NoBounce debounceDelay h c ↔
      ∀ t ∈ h.changes.getLast?, debounceDelay.toNat < h.now + c.delay - t := by
  constructor
  · intro hno t ht
    refine Nat.lt_of_not_le fun hle => ?_
    exact hchanges.2 (hno t ht hle hchanges.1)
  · intro hfar t ht hle
    have := hfar t ht
    omega

/-- No recorded change is later than the last one. -/
theorem Recorded.le_last (hrec : Recorded h) {t u : Nat} (ht : t ∈ h.changes)
    (hu : u ∈ h.changes.getLast?) : t ≤ u := by
  obtain ⟨front, hfront⟩ := List.getLast?_eq_some_iff.mp hu
  have hsorted := hrec.sorted
  rw [hfront] at ht hsorted
  cases List.mem_append.mp ht with
  | inl ht => exact (List.pairwise_append.mp hsorted).2.2 t ht u (List.mem_singleton_self u)
  | inr ht => exact Nat.le_of_eq (List.mem_singleton.mp ht)

/-- Only the last change matters for the next one. -/
theorem Recorded.append_iff (hrec : Recorded h)
    (hdeb : h.changes.Pairwise fun t u => u - t < 2 ^ 32 → debounceDelay.toNat < u - t)
    {u : Nat} (hu : h.now ≤ u) :
    ((h.changes ++ [u]).Pairwise fun t u => u - t < 2 ^ 32 → debounceDelay.toNat < u - t) ↔
      ∀ t ∈ h.changes.getLast?, debounceDelay.toNat < u - t := by
  have hdelay : debounceDelay.toNat < 2 ^ 32 := debounceDelay.toNat_lt
  rw [List.pairwise_append]
  constructor
  · intro hpair t ht
    have hfar := hpair.2.2 t (List.mem_of_getLast? ht) u (List.mem_singleton_self u)
    by_cases hwrap : u - t < 2 ^ 32
    · exact hfar hwrap
    · omega
  · intro hlast
    refine ⟨hdeb, List.pairwise_singleton _ _, fun t ht v hv hwrap => ?_⟩
    obtain rfl := List.mem_singleton.mp hv
    -- an earlier change is still further away
    have hmem := List.getLast?_eq_some_getLast (List.ne_nil_of_mem ht)
    have hle := hrec.le_last ht hmem
    have hfar := hlast _ hmem
    omega

/-- A call keeps the changes apart exactly if the input does not bounce. -/
theorem Recorded.debounced_iff (hrec : Recorded h) (hdeb : Debounced debounceDelay h) :
    (∀ h', Buttons.check debounceDelay h c = some h' → Debounced debounceDelay h') ↔
      NoBounce debounceDelay h c := by
  by_cases hstops : Stops debounceDelay (h.reading c) h.button
  · -- a null poll function is called: the button has not changed before
    have hnil : h.changes = [] := by
      by_contra hne
      exact hrec.poll hne hstops.2
    simp [check_eq_none hstops, NoBounce, hnil]
  · rw [check_eq hstops]
    simp only [Option.some.injEq, forall_eq']
    by_cases hchanges : Changes debounceDelay (h.reading c) h.button
    · rw [noBounce_iff hchanges, ← hrec.append_iff hdeb (Nat.le_add_right _ _), Debounced,
        if_pos hchanges]
    · rw [Debounced, if_neg hchanges]
      -- the input is the state stored, whatever the time
      refine ⟨fun _ t _ _ hdue => ?_, fun _ => hdeb⟩
      by_contra hpolled
      exact hchanges ⟨hdue, hpolled⟩

/-- From any button at any time, the changes reported stay more than the debounce delay
    apart exactly if in every call the input does not bounce. -/
theorem checks_debounced_iff (debounceDelay : UInt32) (button : Button) (now : Nat)
    (calls : List Check) :
    Runs.Always (check debounceDelay) (Debounced debounceDelay)
        { button := button, now := now, changes := [] } calls ↔
      Runs.StepsMeet (check debounceDelay) (NoBounce debounceDelay)
        { button := button, now := now, changes := [] } calls := by
  have hrec : Recorded { button := button, now := now, changes := [] } :=
    ⟨List.Pairwise.nil, by simp, by simp⟩
  exact Runs.always_iff_stepsMeet
    (fun h c h' hrec hcheck => hrec.check hcheck)
    (fun h c hrec hdeb => hrec.debounced_iff hdeb) hrec List.Pairwise.nil

/-- With a delay of 5 ticks, a press at tick 10 and the bounce back at tick 11 are both
    reported. -/
theorem bounce_reported :
    ¬ ∀ (debounceDelay : UInt32) (button : Button) (now : Nat) (calls : List Check),
      1 ≤ debounceDelay →
      Runs.Always (check debounceDelay) (Debounced debounceDelay)
        { button := button, now := now, changes := [] } calls := by
  intro hdebounced
  have hrun := hdebounced 5 { Button.zero with poll := some 1 } 10
    [{ delay := 0, polled := 1 }, { delay := 1, polled := 0 }] (by decide)
  have hreach : [{ delay := 0, polled := 1 }, { delay := 1, polled := 0 }].foldlM (check 5)
      { button := { Button.zero with poll := some 1 }, now := 10, changes := [] } =
        some { button := { Button.zero with poll := some 1 },
               now := 11, changes := [10, 11] } := by decide
  have hfinal : Debounced 5 _ := hrun.final hreach
  exact absurd hfinal (by simp [Debounced])

end Buttons
