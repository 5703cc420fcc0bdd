import Mathlib.Data.List.Basic
import Mathlib.Logic.Function.Basic

/-!
# A shared record copied field by field

Processes copy a shared record out of memory or into it, one field after the other and in
any order of the fields; other processes may go on in between. A copy is a section of the
process: it is entered, its fields are accessed, and it is left.

- Whatever a process has copied out, each field of it was put there by somebody
  (`Sourced`), though not all of them need be from the same record.
- When no two sections overlap, the record copied out is the last one that was copied in
  (`Serial`).
-/

namespace RecordCopy

variable {ι α κ : Type*}

/-- What is left to do in a section. -/
inductive Section (ι α : Type*) where
  | load (left : List ι) (copy : ι → α)
  | store (left : List ι) (record : ι → α)

/-- A section that has been left. -/
inductive Access (ι α κ : Type*) where
  | loaded (k : κ) (copy : ι → α)
  | stored (k : κ) (record : ι → α)

/-- The record in memory, the copy that each caller is at, and what has been copied so far. -/
structure State (ι α κ : Type*) where
  shared : ι → α
  sections : κ → Option (Section ι α)
  history : List (Access ι α κ)

/-- No process is in a section. -/
def State.Idle (s : State ι α κ) : Prop := ∀ k, s.sections k = none

/-! ## Where the fields come from -/

/-- The value `v` of the field `i` is the one of some record. -/
def From (written : List (ι → α)) (i : ι) (v : α) : Prop := ∃ r ∈ written, r i = v

/-- What the section has done so far. -/
def Section.Sourced (written : List (ι → α)) : Section ι α → Prop
  | .load left copy => ∀ i, i ∉ left → From written i (copy i)
  | .store _ record => record ∈ written

/-- The record that was copied in or out comes from what was written. -/
def Access.Sourced (written : List (ι → α)) : Access ι α κ → Prop
  | .loaded _ copy => ∀ i, From written i (copy i)
  | .stored _ record => record ∈ written

/-- Every field in memory, and every field that was copied out, is of some record that was
    there at the start or that somebody has begun to copy in. -/
structure Sourced (written : List (ι → α)) (s : State ι α κ) : Prop where
  shared : ∀ i, From written i (s.shared i)
  sections : ∀ k sec, s.sections k = some sec → sec.Sourced written
  history : ∀ a ∈ s.history, a.Sourced written

variable {s s' : State ι α κ} {k u : κ} {i j : ι} {left : List ι} {copy record : ι → α}
  {written new : List (ι → α)}

/-- A value that came from a writer still does when more is written. -/
theorem From.append {v : α} (h : From written i v) : From (written ++ new) i v := by
  obtain ⟨r, hr, hv⟩ := h
  exact ⟨r, List.mem_append_left new hr, hv⟩

/-- A section's copies stay sourced when more is written. -/
theorem Section.Sourced.append {sec : Section ι α} (h : sec.Sourced written) :
    sec.Sourced (written ++ new) := by
  cases sec with
  | load left copy => exact fun i hi => (h i hi).append
  | store left record => exact List.mem_append_left new h

/-- A logged access stays sourced when more is written. -/
theorem Access.Sourced.append {a : Access ι α κ} (h : a.Sourced written) :
    a.Sourced (written ++ new) := by
  cases a with
  | loaded k copy => exact fun i => (h i).append
  | stored k record => exact List.mem_append_left new h

/-- Every value in the state stays sourced when more is written. -/
theorem Sourced.append (h : Sourced written s) : Sourced (written ++ new) s where
  shared i := (h.shared i).append
  sections k sec hsec := (h.sections k sec hsec).append
  history a ha := (h.history a ha).append

/-- Logging an access whose values are sourced keeps the state sourced. -/
theorem Sourced.log (h : Sourced written s) {a : Access ι α κ} (ha : a.Sourced written) :
    Sourced written { s with history := s.history ++ [a] } where
  shared := h.shared
  sections := h.sections
  history b hb := by
    obtain hb | hb := List.mem_append.mp hb
    · exact h.history b hb
    · rw [List.mem_singleton.mp hb]
      exact ha

/-! ## Steps -/

section

variable [DecidableEq κ] {sec : Option (Section ι α)}

/-- The process `k` is at `sec` from now on. -/
def State.put (s : State ι α κ) (k : κ) (sec : Option (Section ι α)) : State ι α κ :=
  { s with sections := Function.update s.sections k sec }

/-- The section that was put is found under its key. -/
theorem put_self : (s.put k sec).sections k = sec := Function.update_self ..

/-- Putting a section leaves the sections of the other callers alone. -/
theorem put_of_ne (h : u ≠ k) : (s.put k sec).sections u = s.sections u :=
  Function.update_of_ne h ..

/-- A process that moves on to a section of which this holds. -/
theorem Sourced.put (h : Sourced written s)
    (hsec : ∀ sec', sec = some sec' → sec'.Sourced written) :
    Sourced written (s.put k sec) where
  shared := h.shared
  history := h.history
  sections u sec' hu := by
    by_cases huk : u = k
    · subst huk
      rw [put_self] at hu
      exact hsec sec' hu
    · rw [put_of_ne huk] at hu
      exact h.sections u sec' hu

end

variable [DecidableEq ι] [DecidableEq κ]

/-- A step, and the records that somebody begins to copy in with it. If the sections are
    `exclusive`, one is entered only when nobody is in one. -/
inductive Step (exclusive : Prop) (s : State ι α κ) : List (ι → α) → State ι α κ → Prop where
  | stay : Step exclusive s [] s
  | enterLoad (k : κ) (left : List ι) (copy : ι → α) (hall : ∀ i, i ∈ left)
      (hfree : exclusive → s.Idle) :
    Step exclusive s [] (s.put k (some (.load left copy)))
  | enterStore (k : κ) (left : List ι) (record : ι → α) (hall : ∀ i, i ∈ left)
      (hfree : exclusive → s.Idle) :
    Step exclusive s [record] (s.put k (some (.store left record)))
  | load (k : κ) (i : ι) (left : List ι) (copy : ι → α)
      (hsec : s.sections k = some (.load left copy)) :
    Step exclusive s []
      (s.put k (some (.load (left.erase i) (Function.update copy i (s.shared i)))))
  | store (k : κ) (i : ι) (left : List ι) (record : ι → α)
      (hsec : s.sections k = some (.store left record)) :
    Step exclusive s []
      { s.put k (some (.store (left.erase i) record)) with
          shared := Function.update s.shared i (record i) }
  | leaveLoad (k : κ) (copy : ι → α) (hsec : s.sections k = some (.load [] copy)) :
    Step exclusive s [] { s.put k none with history := s.history ++ [.loaded k copy] }
  | leaveStore (k : κ) (record : ι → α) (hsec : s.sections k = some (.store [] record)) :
    Step exclusive s [] { s.put k none with history := s.history ++ [.stored k record] }

variable {exclusive : Prop}

omit [DecidableEq κ] in
/-- A field that is not left any more was done before, or it is the one done now. -/
theorem not_mem_erase (h : j ∉ left.erase i) : j = i ∨ j ∉ left := by
  by_cases hj : j = i
  · exact Or.inl hj
  · exact Or.inr fun hmem => h ((List.mem_erase_of_ne hj).mpr hmem)

/-- No value comes out of thin air. -/
theorem Sourced.step (h : Sourced written s) (hstep : Step exclusive s new s') :
    Sourced (written ++ new) s' := by
  cases hstep with
  | stay => exact h.append
  | enterLoad k left copy hall hfree =>
    apply h.append.put
    rintro _ ⟨⟩
    -- nothing has been copied yet
    exact fun i hi => absurd (hall i) hi
  | enterStore k left record hall hfree =>
    apply h.append.put
    rintro _ ⟨⟩
    -- the record that the section brings counts as written from now on
    exact List.mem_append_right written (List.mem_singleton_self record)
  | load k i left copy hsec =>
    -- one more field is read, from a record in memory that is sourced
    have hdone : ∀ j, j ∉ left → From written j (copy j) := h.sections k _ hsec
    apply h.append.put
    rintro _ ⟨⟩ j hj
    apply From.append
    by_cases hji : j = i
    · subst hji
      rw [Function.update_self]
      exact h.shared j
    · rw [Function.update_of_ne hji]
      exact hdone j ((not_mem_erase hj).resolve_left hji)
  | store k i left record hsec =>
    have hrecord : record ∈ written := h.sections k _ hsec
    -- one more field in memory is that of the record being written
    have hput : Sourced (written ++ []) (s.put k (some (.store (left.erase i) record))) := by
      apply h.append.put
      rintro _ ⟨⟩
      exact List.mem_append_left [] hrecord
    refine { hput with shared := fun j => From.append ?_ }
    show From written j (Function.update s.shared i (record i) j)
    by_cases hji : j = i
    · subst hji
      rw [Function.update_self]
      exact ⟨record, hrecord, rfl⟩
    · rw [Function.update_of_ne hji]
      exact h.shared j
  | leaveLoad k copy hsec =>
    -- no field is left, so all of the copy is sourced
    have hdone : ∀ j, j ∉ [] → From written j (copy j) := h.sections k _ hsec
    have hput : Sourced (written ++ []) (s.put k none) := h.append.put nofun
    exact hput.log fun j => (hdone j List.not_mem_nil).append
  | leaveStore k record hsec =>
    have hrecord : record ∈ written := h.sections k _ hsec
    have hput : Sourced (written ++ []) (s.put k none) := h.append.put nofun
    exact hput.log (List.mem_append_left [] hrecord)

/-! ## Sections that do not overlap -/

/-- The record that was copied in last, or the one that was there at the start. -/
def last (start : ι → α) : List (Access ι α κ) → ι → α
  | [] => start
  | .loaded _ _ :: history => last start history
  | .stored _ record :: history => last record history

/-- Every copy out is of the record that was copied in last. -/
def Legal (start : ι → α) : List (Access ι α κ) → Prop
  | [] => True
  | .loaded _ copy :: history => copy = start ∧ Legal start history
  | .stored _ record :: history => Legal record history

omit [DecidableEq ι] [DecidableEq κ] in
/-- The record after one more access is that access applied to the record before it. -/
theorem last_append {start : ι → α} {history : List (Access ι α κ)} {a : Access ι α κ} :
    last start (history ++ [a]) = last (last start history) [a] := by
  induction history generalizing start with
  | nil => rfl
  | cons b history ih =>
    cases b with
    | loaded k copy => exact ih
    | stored k record => exact ih

omit [DecidableEq ι] [DecidableEq κ] in
/-- A history is legal when all but its last access are, and the last is in the state they leave. -/
theorem legal_append {start : ι → α} {history : List (Access ι α κ)} {a : Access ι α κ} :
    Legal start (history ++ [a]) ↔ Legal start history ∧ Legal (last start history) [a] := by
  induction history generalizing start with
  | nil => simp [Legal, last]
  | cons b history ih =>
    cases b with
    | loaded k copy => simp [Legal, last, ih, and_assoc]
    | stored k record => simp [Legal, last, ih]

omit [DecidableEq ι] [DecidableEq κ] in
/-- What a copy out is, wherever it stands in the history. -/
theorem Legal.loaded_eq {start : ι → α} {before after : List (Access ι α κ)}
    (h : Legal start (before ++ .loaded k copy :: after)) : copy = last start before := by
  induction before generalizing start with
  | nil => exact h.1
  | cons b before ih =>
    cases b with
    | loaded u other => exact ih h.2
    | stored u record => exact ih h

/-- What the section knows while `record` is the last one that was copied in. -/
def Section.Serial (record shared : ι → α) : Option (Section ι α) → Prop
  | none => shared = record
  | some (.load left copy) => shared = record ∧ ∀ i, i ∉ left → copy i = record i
  | some (.store left new) => ∀ i, i ∉ left → shared i = new i

/-- At most one process is in a section, and the history is the one of a register. -/
structure Serial (start : ι → α) (s : State ι α κ) : Prop where
  legal : Legal start s.history
  /-- All are out, or `k` is in and alone. -/
  alone : ∃ k, (∀ u, u ≠ k → s.sections u = none) ∧
    Section.Serial (last start s.history) s.shared (s.sections k)

variable {start : ι → α}

omit [DecidableEq ι] [DecidableEq κ] in
/-- Whoever is in a section is alone in it. -/
theorem Serial.at_section {sec : Section ι α} (h : Serial start s)
    (hsec : s.sections k = some sec) :
    (∀ u, u ≠ k → s.sections u = none) ∧
      Section.Serial (last start s.history) s.shared (some sec) := by
  obtain ⟨v, hothers, hserial⟩ := h.alone
  obtain rfl : k = v := by
    by_contra hne
    rw [hothers k hne] at hsec
    cases hsec
  exact ⟨hothers, hsec ▸ hserial⟩

omit [DecidableEq ι] [DecidableEq κ] in
/-- Between two sections the shared record is the one the history leaves. -/
theorem Serial.shared_eq (h : Serial start s) (hidle : s.Idle) :
    s.shared = last start s.history := by
  obtain ⟨v, -, hserial⟩ := h.alone
  rw [hidle v] at hserial
  exact hserial

omit [DecidableEq ι] in
/-- The process `k` moves on while all others are out. -/
theorem alone_put {sec : Option (Section ι α)} {record shared : ι → α}
    (hothers : ∀ u, u ≠ k → s.sections u = none) (hsec : Section.Serial record shared sec) :
    ∃ v, (∀ u, u ≠ v → (s.put k sec).sections u = none) ∧
      Section.Serial record shared ((s.put k sec).sections v) := by
  refine ⟨k, fun u hu => ?_, ?_⟩
  · rw [put_of_ne hu]
    exact hothers u hu
  · rw [put_self]
    exact hsec

/-- Sections that do not overlap make the record a register. -/
theorem Serial.step (h : Serial start s) (hexclusive : exclusive)
    (hstep : Step exclusive s new s') : Serial start s' := by
  cases hstep with
  | stay => exact h
  | enterLoad k left copy hall hfree =>
    have hidle := hfree hexclusive
    refine ⟨h.legal, alone_put (fun u _ => hidle u) ⟨h.shared_eq hidle, ?_⟩⟩
    exact fun i hi => absurd (hall i) hi
  | enterStore k left record hall hfree =>
    have hidle := hfree hexclusive
    refine ⟨h.legal, alone_put (fun u _ => hidle u) ?_⟩
    exact fun i hi => absurd (hall i) hi
  | load k i left copy hsec =>
    obtain ⟨hothers, hshared, hdone⟩ := h.at_section hsec
    refine ⟨h.legal, alone_put hothers ⟨hshared, fun j hj => ?_⟩⟩
    by_cases hji : j = i
    · subst hji
      rw [Function.update_self]
      exact congrFun hshared j
    · rw [Function.update_of_ne hji]
      exact hdone j ((not_mem_erase hj).resolve_left hji)
  | store k i left record hsec =>
    obtain ⟨hothers, hdone⟩ := h.at_section hsec
    refine ⟨h.legal, alone_put hothers fun j hj => ?_⟩
    show Function.update s.shared i (record i) j = record j
    by_cases hji : j = i
    · subst hji
      rw [Function.update_self]
    · rw [Function.update_of_ne hji]
      exact hdone j ((not_mem_erase hj).resolve_left hji)
  | leaveLoad k copy hsec =>
    obtain ⟨hothers, hshared, hdone⟩ := h.at_section hsec
    have hcopy : copy = last start s.history := funext fun j => hdone j List.not_mem_nil
    refine ⟨legal_append.mpr ⟨h.legal, hcopy, trivial⟩, ?_⟩
    apply alone_put hothers
    show s.shared = last start (s.history ++ [.loaded k copy])
    rw [last_append]
    exact hshared
  | leaveStore k record hsec =>
    -- all fields have been stored, so the record is the last one from now on
    obtain ⟨hothers, hdone⟩ := h.at_section hsec
    refine ⟨legal_append.mpr ⟨h.legal, trivial⟩, ?_⟩
    apply alone_put hothers
    show s.shared = last start (s.history ++ [.stored k record])
    rw [last_append]
    exact funext fun j => hdone j List.not_mem_nil

end RecordCopy
