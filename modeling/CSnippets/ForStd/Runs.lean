import Mathlib.Algebra.GroupWithZero.Nat
import Mathlib.Data.List.Basic

/-!
# Runs of a partial step function

A system is given by `step : σ → ε → Option σ`: what one event does to a state,
`none` where the event has no defined effect there (undefined behaviour of a
sequential program, a blocked or disabled step of a concurrent one). A run is
`List.foldlM step`.

Three predicates speak about whole runs:

- `Runs.Always step P s es`: every state reached satisfies `P`
- `Runs.Safe step P s es`: moreover every step is defined
- `Runs.StepsMeet step C s es`: every step meets the condition `C` on the event
  and on the state before it
-/

namespace Runs

variable {σ ε : Type*} (step : σ → ε → Option σ)

/-- `P` holds in every state reached by running the events from `s`. -/
def Always (P : σ → Prop) : σ → List ε → Prop
  | s, [] => P s
  | s, e :: es => P s ∧ ∀ s', step s e = some s' → Always P s' es

/-- Every event of the run is defined and `P` holds in every state reached. -/
def Safe (P : σ → Prop) : σ → List ε → Prop
  | s, [] => P s
  | s, e :: es => P s ∧ ∃ s', step s e = some s' ∧ Safe P s' es

/-- Every event of the run meets `C` in the state just before it. -/
def StepsMeet (C : σ → ε → Prop) : σ → List ε → Prop
  | _, [] => True
  | s, e :: es => C s e ∧ ∀ s', step s e = some s' → StepsMeet C s' es

variable {step}

/-- What holds in every state of a run holds in its first. -/
theorem Safe.here {P : σ → Prop} {s : σ} {es : List ε} (h : Safe step P s es) : P s := by
  cases es with
  | nil => exact h
  | cons e es => exact h.1

/-- Unfolding one step of known result. -/
theorem stepsMeet_cons {C : σ → ε → Prop} {s s' : σ} {e : ε} {es : List ε}
    (h : step s e = some s') : StepsMeet step C s (e :: es) ↔ C s e ∧ StepsMeet step C s' es := by
  constructor
  · exact fun hm => ⟨hm.1, hm.2 s' h⟩
  · intro hm
    refine ⟨hm.1, fun s'' h'' => ?_⟩
    obtain rfl : s' = s'' := Option.some.inj (h.symm.trans h'')
    exact hm.2

/-- A run begins with its first step. -/
theorem run_cons {s s' : σ} {e : ε} {es : List ε} :
    (e :: es).foldlM step s = some s' ↔
      ∃ s₁, step s e = some s₁ ∧ es.foldlM step s₁ = some s' := by
  rw [List.foldlM_cons]
  exact Option.bind_eq_some_iff

/-- A run that is defined to its end ends in a state that satisfies `P`. -/
theorem Always.final {P : σ → Prop} {s s' : σ} {es : List ε} (h : Always step P s es)
    (hrun : es.foldlM step s = some s') : P s' := by
  induction es generalizing s with
  | nil => exact Option.some.inj hrun ▸ h
  | cons e es ih =>
    obtain ⟨s₁, h₁, h₂⟩ := run_cons.mp hrun
    exact ih (h.2 s₁ h₁) h₂

/-- A weaker property holds wherever the stronger one always does. -/
theorem Always.imp {P Q : σ → Prop} (hPQ : ∀ s, P s → Q s) {s : σ} {es : List ε}
    (h : Always step P s es) : Always step Q s es := by
  induction es generalizing s with
  | nil => exact hPQ s h
  | cons e es ih => exact ⟨hPQ s h.1, fun s' hs' => ih (h.2 s' hs')⟩

/-- The invariant rule: what the start satisfies and every step meeting `C`
    preserves holds, with all it implies, in every state of a run whose steps meet
    `C`. -/
theorem Always.of_invariant {J P : σ → Prop} {C : σ → ε → Prop} (hP : ∀ s, J s → P s)
    (hstep : ∀ s e s', J s → C s e → step s e = some s' → J s')
    {s : σ} {es : List ε} (hs : J s) (hC : StepsMeet step C s es) :
    Always step P s es := by
  induction es generalizing s with
  | nil => exact hP s hs
  | cons e es ih =>
    exact ⟨hP s hs, fun s' h => ih (hstep s e s' hs hC.1 h) (hC.2 s' h)⟩

/-- The same rule where the invariant also makes every step defined. -/
theorem Safe.of_invariant {J P : σ → Prop} {C : σ → ε → Prop} (hP : ∀ s, J s → P s)
    (hstep : ∀ s e, J s → C s e → ∃ s', step s e = some s' ∧ J s')
    {s : σ} {es : List ε} (hs : J s) (hC : StepsMeet step C s es) : Safe step P s es := by
  induction es generalizing s with
  | nil => exact hP s hs
  | cons e es ih =>
    obtain ⟨s', hs', hJ⟩ := hstep s e hs hC.1
    exact ⟨hP s hs, s', hs', ih hJ (hC.2 s' hs')⟩

/-- Conditions met step by step may be taken together. -/
theorem StepsMeet.and {C D : σ → ε → Prop} {s : σ} {es : List ε} (hC : StepsMeet step C s es)
    (hD : StepsMeet step D s es) : StepsMeet step (fun s e => C s e ∧ D s e) s es := by
  induction es generalizing s with
  | nil => trivial
  | cons e es ih => exact ⟨⟨hC.1, hD.1⟩, fun s' h => ih (hC.2 s' h) (hD.2 s' h)⟩

/-- Among runs whose steps meet the contract `K`: when `P` is kept by exactly the
    steps that meet `C`, a run is safe exactly when all its steps meet `C`. The
    steps that meet `C` may rely on an invariant `J` of their own. -/
theorem safe_iff_stepsMeet {P J : σ → Prop} {K C : σ → ε → Prop}
    (hJ : ∀ s e s', J s → K s e → C s e → step s e = some s' → J s')
    (hstep : ∀ s e, J s → P s → K s e → ((∃ s', step s e = some s' ∧ P s') ↔ C s e))
    {s : σ} {es : List ε} (hjs : J s) (hs : P s) (hK : StepsMeet step K s es) :
    Safe step P s es ↔ StepsMeet step C s es := by
  induction es generalizing s with
  | nil => exact ⟨fun _ => trivial, fun _ => hs⟩
  | cons e es ih =>
    -- `J` is only kept by steps that meet the condition, so it comes along with either side
    have hiff := hstep s e hjs hs hK.1
    constructor
    · intro h
      obtain ⟨s', hs', hrest⟩ := h.2
      have hC := hiff.mp ⟨s', hs', hrest.here⟩
      refine ⟨hC, fun s'' h'' => ?_⟩
      obtain rfl : s' = s'' := Option.some.inj (hs'.symm.trans h'')
      exact (ih (hJ s e s' hjs hK.1 hC hs') hrest.here (hK.2 s' hs')).mp hrest
    · intro h
      obtain ⟨s', hs', hP⟩ := hiff.mpr h.1
      exact ⟨hs, s', hs', (ih (hJ s e s' hjs hK.1 h.1 hs') hP (hK.2 s' hs')).mpr (h.2 s' hs')⟩

/-- When `P` is kept by exactly the steps that meet `C`, it holds in all states of
    exactly the runs whose steps all meet `C`. -/
theorem always_iff_stepsMeet {P J : σ → Prop} {C : σ → ε → Prop}
    (hJ : ∀ s e s', J s → step s e = some s' → J s')
    (hstep : ∀ s e, J s → P s → ((∀ s', step s e = some s' → P s') ↔ C s e))
    {s : σ} {es : List ε} (hjs : J s) (hs : P s) :
    Always step P s es ↔ StepsMeet step C s es := by
  induction es generalizing s with
  | nil => exact ⟨fun _ => trivial, fun _ => hs⟩
  | cons e es ih =>
    have hiff := hstep s e hjs hs
    constructor
    · intro h
      -- unlike a safe run, the run may end at this step
      have hkept : ∀ s', step s e = some s' → P s' := fun s' hs' => by
        have hrest := h.2 s' hs'
        cases es with
        | nil => exact hrest
        | cons _ _ => exact hrest.1
      exact ⟨hiff.mp hkept, fun s' hs' => (ih (hJ s e s' hjs hs') (hkept s' hs')).mp (h.2 s' hs')⟩
    · intro h
      have hkept := hiff.mpr h.1
      exact ⟨hs, fun s' hs' => (ih (hJ s e s' hjs hs') (hkept s' hs')).mpr (h.2 s' hs')⟩

/-- Conditions that agree wherever an invariant holds are met by the same runs. -/
theorem stepsMeet_iff {J : σ → Prop} {K C D : σ → ε → Prop}
    (hJ : ∀ s e s', J s → K s e → step s e = some s' → J s')
    (hiff : ∀ s e, J s → K s e → (C s e ↔ D s e))
    {s : σ} {es : List ε} (hs : J s) (hK : StepsMeet step K s es) :
    StepsMeet step C s es ↔ StepsMeet step D s es := by
  induction es generalizing s with
  | nil => exact Iff.rfl
  | cons e es ih =>
    have hrest : ∀ s', step s e = some s' →
        (StepsMeet step C s' es ↔ StepsMeet step D s' es) := fun s' h =>
      ih (hJ s e s' hs hK.1 h) (hK.2 s' h)
    exact and_congr (hiff s e hs hK.1) (forall₂_congr hrest)

/-- A run that does not meet a condition comes to a first step that does not; until there an
    invariant of the steps that do has been kept. -/
theorem exists_unmet {J : σ → Prop} {K C : σ → ε → Prop}
    (hJ : ∀ s e s', J s → K s e → C s e → step s e = some s' → J s')
    {s : σ} {es : List ε} (hs : J s) (hK : StepsMeet step K s es) (h : ¬ StepsMeet step C s es) :
    ∃ front e rest s', es = front ++ e :: rest ∧ front.foldlM step s = some s' ∧
      J s' ∧ K s' e ∧ ¬ C s' e := by
  induction es generalizing s with
  | nil => exact absurd trivial h
  | cons e es ih =>
    by_cases hC : C s e
    · -- the step is met, so it is a later one
      have hlater : ∃ s₁, step s e = some s₁ ∧ ¬ StepsMeet step C s₁ es := by
        by_contra hnone
        refine h ⟨hC, fun s₁ hs₁ => ?_⟩
        by_contra hunmet
        exact hnone ⟨s₁, hs₁, hunmet⟩
      obtain ⟨s₁, hs₁, hunmet⟩ := hlater
      obtain ⟨front, e', rest, s', rfl, hrun, hkept⟩ :=
        ih (hJ s e s₁ hs hK.1 hC hs₁) (hK.2 s₁ hs₁) hunmet
      exact ⟨e :: front, e', rest, s', rfl, run_cons.mpr ⟨s₁, hs₁, hrun⟩, hkept⟩
    · exact ⟨[], e, es, s, rfl, rfl, hs, hK.1, hC⟩

/-- A count of defects that every step keeps at zero exactly if it meets `C` is zero
    after a run exactly if all its steps meet `C`. -/
theorem count_run {R : Nat → σ → Prop} {C : σ → ε → Prop}
    (hstep : ∀ k s e s', R k s → step s e = some s' →
      ∃ k', R k' s' ∧ (k' = 0 ↔ k = 0 ∧ C s e))
    {k : Nat} {s s' : σ} {es : List ε} (h : R k s) (hrun : es.foldlM step s = some s') :
    ∃ k', R k' s' ∧ (k' = 0 ↔ k = 0 ∧ StepsMeet step C s es) := by
  induction es generalizing s k with
  | nil =>
    obtain rfl : s = s' := Option.some.inj hrun
    exact ⟨k, h, by simp [StepsMeet]⟩
  | cons e es ih =>
    -- a defect once made is never repaired
    obtain ⟨s₁, h₁, h₂⟩ := run_cons.mp hrun
    obtain ⟨k₁, hR, hk₁⟩ := hstep k s e s₁ h h₁
    obtain ⟨k', hR', hk'⟩ := ih hR h₂
    refine ⟨k', hR', ?_⟩
    rw [hk', hk₁, stepsMeet_cons h₁, and_assoc]

/-- On a safe run, a condition on the events alone holds of every event. -/
theorem Safe.stepsMeet_iff {P : σ → Prop} {c : ε → Prop} {s : σ} {es : List ε}
    (h : Safe step P s es) : StepsMeet step (fun _ e => c e) s es ↔ ∀ e ∈ es, c e := by
  induction es generalizing s with
  | nil => simp [StepsMeet]
  | cons e es ih =>
    obtain ⟨-, s', hs', hrest⟩ := h
    rw [stepsMeet_cons hs', ih hrest, List.forall_mem_cons]

/-- A condition that holds of every event is met by every step. -/
theorem stepsMeet_of_forall {C : σ → ε → Prop} {s : σ} {es : List ε}
    (h : ∀ e ∈ es, ∀ s, C s e) : StepsMeet step C s es := by
  induction es generalizing s with
  | nil => trivial
  | cons e es ih =>
    rw [List.forall_mem_cons] at h
    exact ⟨h.1 s, fun s' _ => ih h.2⟩

/-- The invariant rule without a condition on the steps. -/
theorem Always.of_preserved {J P : σ → Prop} (hP : ∀ s, J s → P s)
    (hstep : ∀ s e s', J s → step s e = some s' → J s') {s : σ} {es : List ε} (hs : J s) :
    Always step P s es := by
  have htrue : StepsMeet step (fun _ _ => True) s es := stepsMeet_of_forall fun _ _ _ => trivial
  exact Always.of_invariant hP (fun s e s' hJ _ => hstep s e s' hJ) hs htrue

/-- What is kept together with all that the events bring along. -/
theorem run_gathers {β : Type*} {J : List β → σ → Prop} {brings : ε → List β}
    (hstep : ∀ w s e s', J w s → step s e = some s' → J (w ++ brings e) s') {w : List β}
    {s s' : σ} {es : List ε} (h : J w s) (hrun : es.foldlM step s = some s') :
    J (w ++ es.flatMap brings) s' := by
  induction es generalizing s w with
  | nil =>
    obtain rfl : s = s' := Option.some.inj hrun
    rw [List.flatMap_nil, List.append_nil]
    exact h
  | cons e es ih =>
    obtain ⟨s₁, h₁, h₂⟩ := run_cons.mp hrun
    rw [List.flatMap_cons, ← List.append_assoc]
    exact ih (hstep w s e s₁ h h₁) h₂

/-- What the events cost is paid for by a measure and by what they bring in. -/
theorem run_pays {measure : σ → Nat} {cost income : ε → Nat}
    (hstep : ∀ s e s', step s e = some s' → measure s' + cost e ≤ measure s + income e)
    {s s' : σ} {es : List ε} (hrun : es.foldlM step s = some s') :
    measure s' + (es.map cost).sum ≤ measure s + (es.map income).sum := by
  induction es generalizing s with
  | nil =>
    obtain rfl : s = s' := Option.some.inj hrun
    exact Nat.le_refl _
  | cons e es ih =>
    obtain ⟨s₁, h₁, h₂⟩ := run_cons.mp hrun
    have hfirst := hstep s e s₁ h₁
    have hrest := ih h₂
    rw [List.map_cons, List.map_cons, List.sum_cons, List.sum_cons]
    omega

/-- A safe run is defined to its end, where the property still holds. -/
theorem Safe.final {P : σ → Prop} {s : σ} {es : List ε} (h : Safe step P s es) :
    ∃ s', es.foldlM step s = some s' ∧ P s' := by
  induction es generalizing s with
  | nil => exact ⟨s, rfl, h⟩
  | cons e es ih =>
    obtain ⟨-, s', hs', hrest⟩ := h
    obtain ⟨s'', hs'', hP⟩ := ih hrest
    exact ⟨s'', by simp [List.foldlM_cons, hs', hs''], hP⟩

/-! ## Deciding the predicates on a given run -/

/-- A condition on the state reached by one step. -/
private def decidableNext {p : σ → Prop} [∀ s, Decidable (p s)] (o : Option σ) :
    Decidable (∀ s', o = some s' → p s') :=
  match o with
  | none => isTrue fun _ h => nomatch h
  | some s' => decidable_of_iff (p s')
      ⟨fun hp _ h => Option.some.inj h ▸ hp, fun h => h s' rfl⟩

/-- Whether a step is defined and leads to a state with a decidable property. -/
private def decidableDefined {p : σ → Prop} [∀ s, Decidable (p s)] (o : Option σ) :
    Decidable (∃ s', o = some s' ∧ p s') :=
  match o with
  | none => isFalse fun ⟨_, h, _⟩ => nomatch h
  | some s' => decidable_of_iff (p s')
      ⟨fun hp => ⟨s', rfl, hp⟩, fun ⟨_, h, hp⟩ => Option.some.inj h ▸ hp⟩

instance Always.decidable {P : σ → Prop} [∀ s, Decidable (P s)] :
    ∀ (es : List ε) (s : σ), Decidable (Always step P s es)
  | [], s => inferInstanceAs (Decidable (P s))
  | e :: es, s =>
    have (s' : σ) : Decidable (Always step P s' es) := Always.decidable es s'
    have := decidableNext (p := fun s' => Always step P s' es) (step s e)
    inferInstanceAs (Decidable (P s ∧ ∀ s', step s e = some s' → Always step P s' es))

instance Safe.decidable {P : σ → Prop} [∀ s, Decidable (P s)] :
    ∀ (es : List ε) (s : σ), Decidable (Safe step P s es)
  | [], s => inferInstanceAs (Decidable (P s))
  | e :: es, s =>
    have (s' : σ) : Decidable (Safe step P s' es) := Safe.decidable es s'
    have := decidableDefined (p := fun s' => Safe step P s' es) (step s e)
    inferInstanceAs (Decidable (P s ∧ ∃ s', step s e = some s' ∧ Safe step P s' es))

instance StepsMeet.decidable {C : σ → ε → Prop} [∀ s e, Decidable (C s e)] :
    ∀ (es : List ε) (s : σ), Decidable (StepsMeet step C s es)
  | [], _ => inferInstanceAs (Decidable True)
  | e :: es, s =>
    have (s' : σ) : Decidable (StepsMeet step C s' es) := StepsMeet.decidable es s'
    have := decidableNext (p := fun s' => StepsMeet step C s' es) (step s e)
    inferInstanceAs (Decidable (C s e ∧ ∀ s', step s e = some s' → StepsMeet step C s' es))

/-! ## Refinement of a run with replies -/

variable {τ ω : Type*}

/-- Run a step function that also gives a reply, collecting the replies. -/
def runReplies (step : σ → ε → Option (ω × σ)) : σ → List ε → Option (List ω × σ)
  | s, [] => some ([], s)
  | s, e :: es => do
    let (o, s') ← step s e
    let (os, s'') ← runReplies step s' es
    return (o :: os, s'')

/-- The run of a total step function with replies. -/
def specReplies (spec : τ → ε → ω × τ) : τ → List ε → List ω × τ
  | t, [] => ([], t)
  | t, e :: es =>
    let (o, t') := spec t e
    let (os, t'') := specReplies spec t' es
    (o :: os, t'')

/-- Forward simulation: if related states take every event to related states
    with equal replies, whole runs give equal replies and end related. -/
theorem runReplies_refines {step : σ → ε → Option (ω × σ)} {spec : τ → ε → ω × τ}
    {R : σ → τ → Prop}
    (hstep : ∀ s t e, R s t → ∃ s', step s e = some ((spec t e).1, s') ∧ R s' (spec t e).2)
    {s : σ} {t : τ} (hR : R s t) (es : List ε) :
    ∃ s', runReplies step s es = some ((specReplies spec t es).1, s') ∧
      R s' (specReplies spec t es).2 := by
  induction es generalizing s t with
  | nil => exact ⟨s, rfl, hR⟩
  | cons e es ih =>
    obtain ⟨s₁, h₁, hR₁⟩ := hstep s t e hR
    obtain ⟨s₂, h₂, hR₂⟩ := ih hR₁
    exact ⟨s₂, by simp [runReplies, specReplies, h₁, h₂], hR₂⟩

end Runs
