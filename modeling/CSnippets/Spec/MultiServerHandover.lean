import Mathlib.Data.List.Nodup
import Mathlib.Data.List.Perm.Subperm
import CSnippets.ForStd.Runs
import CSnippets.Native.MultiServer

/-!
# Does every connection get its thread?

The address handed to a thread is that of a variable that the next `accept`
overwrites. As long as every thread reads its argument before that, the threads hold
the accepted descriptors in order, the last one being still in the variable. Once a
descriptor is overwritten unread nobody serves it, and a failed `accept` creates a
thread too many: neither is ever made up for.
-/

namespace MultiServer

variable {s s' : State}

/-- Every thread serves an accepted connection, no two the same one, and when all
    threads created have read their argument no connection is left over. -/
structure Handed (s : State) : Prop where
  served : ∀ fd, some fd ∈ s.threads → fd ∈ s.accepted
  once : (s.threads.filterMap id).Nodup
  all : s.pc ≠ .create → none ∉ s.threads → ∀ fd ∈ s.accepted, some fd ∈ s.threads

/-- `accept` fails with `-1`, and returns a descriptor that is not in use. -/
def Distinct (s : State) : Event → Prop
  | .accept ret => ret = -1 ∨ (0 ≤ ret ∧ ret ∉ s.accepted)
  | .create _ => True
  | .read _ => True

/-- `pthread_create` succeeds. -/
def Created : Event → Prop
  | .accept _ => True
  | .create err => err = 0
  | .read _ => True

/-- `accept` returns a positive descriptor, when all threads have read theirs. -/
def ReadFirst (s : State) : Event → Prop
  | .accept ret => 0 < ret ∧ none ∉ s.threads
  | .create err => err = 0
  | .read _ => True

/-- `main` is about to accept its first connection. -/
structure Start (s : State) : Prop where
  pc : s.pc = .accept
  threads : s.threads = []
  accepted : s.accepted = []

/-- Main is not creating a thread, and all threads have read. -/
def Settled (s : State) : Prop := s.pc ≠ .create ∧ none ∉ s.threads

/-! ## Steps -/

/-- What `accept` does: it overwrites the variable that the last thread was given. -/
theorem step_accept {ret : Int} (h : step s (.accept ret) = some s') :
    s.pc = .accept ∧ s' = { s with
      clientSocket := ret, pc := if ret = 0 then .returned else .create,
      accepted := if ret < 0 then s.accepted else s.accepted ++ [ret] } := by
  obtain ⟨hpc, hs'⟩ := Option.ite_none_right_eq_some.mp (show accept s ret = some s' from h)
  exact ⟨hpc, (Option.some.inj hs').symm⟩

/-- What `pthread_create` does when it succeeds. -/
theorem step_create (h : step s (.create 0) = some s') :
    s.pc = .create ∧ s' = { s with pc := .accept, threads := s.threads ++ [none] } := by
  obtain ⟨hpc, hs'⟩ := Option.ite_none_right_eq_some.mp (show create s 0 = some s' from h)
  exact ⟨hpc, (Option.some.inj hs').symm⟩

/-- A thread reads what the variable holds now. -/
theorem step_read {i : Nat} (h : step s (.read i) = some s') :
    s.pc ≠ .returned ∧ s.threads[i]? = some none ∧
      s' = { s with threads := s.threads.set i (some s.clientSocket) } := by
  obtain ⟨hnew, hs'⟩ :=
    Option.ite_none_right_eq_some.mp (show connectionHandler s i = some s' from h)
  exact ⟨hnew.1, hnew.2, (Option.some.inj hs').symm⟩

/-- A descriptor that is not in use is not among the accepted ones. -/
private theorem nodup_accepted {accepted : List Int} {ret : Int} (h : accepted.Nodup)
    (hnew : ret ∉ accepted) : (accepted ++ [ret]).Nodup := by
  rw [← List.concat_eq_append]
  exact h.concat hnew

/-! ## What the threads will have -/

/-- The descriptors of the threads when those that have not read yet read now, with
    the thread about to be created. -/
def holding (s : State) : List Int :=
  s.threads.map (·.getD s.clientSocket) ++ if s.pc = .create then [s.clientSocket] else []

/-- The threads hold the accepted descriptors in order. -/
structure InOrder (s : State) : Prop where
  holding : holding s = s.accepted
  nodup : s.accepted.Nodup

/-- The values read so far, among those that the threads hold. -/
theorem filterMap_sublist (threads : List (Option Int)) (v : Int) :
    (threads.filterMap id).Sublist (threads.map (·.getD v)) := by
  induction threads with
  | nil => exact List.Sublist.refl _
  | cons t threads ih =>
    cases t with
    | none =>
      rw [List.filterMap_cons, List.map_cons]
      exact ih.cons v
    | some fd =>
      rw [List.filterMap_cons, List.map_cons]
      exact ih.cons_cons fd

/-- Threads that hold the descriptors in order have every connection handed over. -/
theorem InOrder.handed (h : InOrder s) : Handed s := by
  have hsub : (s.threads.map (·.getD s.clientSocket)).Sublist s.accepted := by
    rw [← h.holding]
    exact List.sublist_append_left ..
  refine ⟨fun fd hfd => ?_, ?_, fun hpc hread fd hfd => ?_⟩
  · exact hsub.subset (List.mem_map.mpr ⟨some fd, hfd, rfl⟩)
  · exact h.nodup.sublist ((filterMap_sublist s.threads s.clientSocket).trans hsub)
  · -- with nothing to be created or read, the threads hold exactly what they read
    rw [← h.holding, MultiServer.holding, if_neg hpc, List.append_nil] at hfd
    obtain ⟨t, ht, hget⟩ := List.mem_map.mp hfd
    cases t with
    | none => exact absurd ht hread
    | some fd' => exact hget ▸ ht

/-- When all threads have read, the variable does not matter to what they hold. -/
theorem map_getD_congr {threads : List (Option Int)} (hread : none ∉ threads) (v v' : Int) :
    threads.map (·.getD v) = threads.map (·.getD v') := by
  apply List.map_congr_left
  intro t ht
  cases t with
  | none => exact absurd ht hread
  | some fd => rfl

/-- A read puts down what the thread already held. -/
theorem map_getD_set {threads : List (Option Int)} {i : Nat} (hi : threads[i]? = some none)
    (v : Int) : (threads.set i (some v)).map (·.getD v) = threads.map (·.getD v) := by
  rw [List.map_set]
  apply List.ext_getElem?
  intro j
  by_cases hj : i = j
  · subst hj
    obtain ⟨hlt, -⟩ := List.getElem?_eq_some_iff.mp hi
    rw [List.getElem?_set_self (by rw [List.length_map]; exact hlt), List.getElem?_map, hi]
    rfl
  · rw [List.getElem?_set_ne hj]

/-- Steps that meet the condition keep the order. -/
theorem InOrder.step (h : InOrder s) {e : Event} (hdistinct : Distinct s e)
    (hread : ReadFirst s e) (hstep : MultiServer.step s e = some s') : InOrder s' := by
  have hholding := h.holding
  unfold MultiServer.holding at hholding
  cases e with
  | accept ret =>
    obtain ⟨hpos, hall⟩ := hread
    have hfresh : ret ∉ s.accepted := by
      rcases hdistinct with hfail | ⟨-, hnew⟩
      · omega
      · exact hnew
    obtain ⟨hpc, rfl⟩ := step_accept hstep
    rw [if_neg (by rw [hpc]; simp), List.append_nil] at hholding
    constructor
    · -- the new descriptor is in the variable, all others have been read
      simp only [MultiServer.holding, if_neg (by omega : ¬ ret = 0), if_pos,
        if_neg (by omega : ¬ ret < 0)]
      rw [map_getD_congr hall ret s.clientSocket, hholding]
    · show (if ret < 0 then s.accepted else s.accepted ++ [ret]).Nodup
      rw [if_neg (by omega)]
      exact nodup_accepted h.nodup hfresh
  | create err =>
    obtain rfl : err = 0 := hread
    obtain ⟨hpc, rfl⟩ := step_create hstep
    rw [if_pos hpc] at hholding
    refine ⟨?_, h.nodup⟩
    -- the new thread holds what the variable has
    simpa [MultiServer.holding] using hholding
  | read i =>
    obtain ⟨-, hnew, rfl⟩ := step_read hstep
    refine ⟨?_, h.nodup⟩
    simp only [MultiServer.holding]
    rw [map_getD_set hnew, hholding]

/-! ## What is never made up for -/

/-- The descriptors accepted are distinct, and only they and `-1` are read. -/
structure Seen (s : State) : Prop where
  nodup : s.accepted.Nodup
  nonneg : ∀ fd ∈ s.accepted, 0 ≤ fd
  read : ∀ fd, some fd ∈ s.threads → fd ∈ s.accepted ∨ fd = -1
  current : s.clientSocket ∈ s.accepted ∨ s.clientSocket = -1 ∨
    (s.pc = .accept ∧ s.threads = [])

/-- An accepted connection is no longer in the variable, or the server has ended, and
    nobody has read it. -/
def Lost (s : State) : Prop :=
  ∃ fd ∈ s.accepted, (fd ≠ s.clientSocket ∨ s.pc = .returned) ∧ some fd ∉ s.threads

/-- There are more threads than connections. -/
def Surplus (s : State) : Prop :=
  s.accepted.length < s.threads.length + if s.pc = .create then 1 else 0

/-- Before the first connection nothing has been read. -/
theorem Start.seen (h : Start s) : Seen s := by
  refine ⟨?_, fun fd hfd => ?_, fun fd hfd => ?_, Or.inr (Or.inr ⟨h.pc, h.threads⟩)⟩
  · rw [h.accepted]
    exact List.nodup_nil
  · rw [h.accepted] at hfd
    cases hfd
  · rw [h.threads] at hfd
    cases hfd

/-- Every step keeps the descriptors that are read among those accepted and -1. -/
theorem Seen.step (h : Seen s) {e : Event} (hdistinct : Distinct s e) (hcreated : Created e)
    (hstep : MultiServer.step s e = some s') : Seen s' := by
  cases e with
  | accept ret =>
    obtain ⟨hpc, rfl⟩ := step_accept hstep
    -- -1 is stored as well, and a descriptor is a new one
    rcases hdistinct with rfl | ⟨hpos, hnew⟩
    · exact ⟨h.nodup, h.nonneg, h.read, Or.inr (Or.inl rfl)⟩
    · have haccepted : (if ret < 0 then s.accepted else s.accepted ++ [ret]) =
          s.accepted ++ [ret] := if_neg (by omega)
      rw [haccepted]
      refine ⟨nodup_accepted h.nodup hnew, fun fd hfd => ?_, fun fd hfd => ?_, Or.inl (by simp)⟩
      · rcases List.mem_append.mp hfd with hold | hlast
        · exact h.nonneg fd hold
        · rw [List.mem_singleton.mp hlast]
          exact hpos
      · rcases h.read fd hfd with hold | hfail
        · exact Or.inl (List.mem_append_left _ hold)
        · exact Or.inr hfail
  | create err =>
    obtain rfl : err = 0 := hcreated
    obtain ⟨hpc, rfl⟩ := step_create hstep
    refine ⟨h.nodup, h.nonneg, fun fd hfd => ?_, ?_⟩
    · rcases List.mem_append.mp hfd with hold | hnew
      · exact h.read fd hold
      · simp at hnew
    · rcases h.current with hcur | hfail | ⟨hpc', -⟩
      · exact Or.inl hcur
      · exact Or.inr (Or.inl hfail)
      · rw [hpc] at hpc'
        cases hpc'
  | read i =>
    obtain ⟨-, hnew, rfl⟩ := step_read hstep
    -- the thread reads what `accept` stored last
    have hcurrent : s.clientSocket ∈ s.accepted ∨ s.clientSocket = -1 := by
      rcases h.current with hcur | hfail | ⟨-, hnil⟩
      · exact Or.inl hcur
      · exact Or.inr hfail
      · rw [hnil] at hnew
        cases hnew
    refine ⟨h.nodup, h.nonneg, fun fd hfd => ?_, ?_⟩
    · rcases List.mem_or_eq_of_mem_set hfd with hold | hread
      · exact h.read fd hold
      · rw [Option.some.inj hread]
        exact hcurrent
    · rcases hcurrent with hcur | hfail
      · exact Or.inl hcur
      · exact Or.inr (Or.inl hfail)

/-- The next descriptor accepted is not one that was lost, and what is lost is not in
    the variable to be read. -/
theorem Lost.step (h : Lost s) (hseen : Seen s) {e : Event} (hdistinct : Distinct s e)
    (hcreated : Created e)
    (hstep : MultiServer.step s e = some s') : Lost s' := by
  obtain ⟨fd, hfd, hgone, hunread⟩ := h
  cases e with
  | accept ret =>
    obtain ⟨hpc, rfl⟩ := step_accept hstep
    refine ⟨fd, ?_, Or.inl ?_, hunread⟩
    · show fd ∈ if ret < 0 then s.accepted else s.accepted ++ [ret]
      split
      · exact hfd
      · exact List.mem_append_left _ hfd
    · show fd ≠ ret
      -- the lost descriptor is in use, so `accept` does not return it again
      rintro rfl
      have hnonneg := hseen.nonneg fd hfd
      rcases hdistinct with hfail | ⟨-, hnew⟩
      · omega
      · exact hnew hfd
  | create err =>
    obtain rfl : err = 0 := hcreated
    obtain ⟨hpc, rfl⟩ := step_create hstep
    refine ⟨fd, hfd, ?_, ?_⟩
    · rcases hgone with hne | hpc'
      · exact Or.inl hne
      · rw [hpc] at hpc'
        cases hpc'
    · simpa using hunread
  | read i =>
    obtain ⟨hpc, hnew, rfl⟩ := step_read hstep
    have hne : fd ≠ s.clientSocket := hgone.resolve_right hpc
    refine ⟨fd, hfd, Or.inl hne, fun hmem => ?_⟩
    -- the thread reads the present descriptor, which is another one
    rcases List.mem_or_eq_of_mem_set hmem with hold | hread
    · exact hunread hold
    · exact hne (Option.some.inj hread)

/-- The loop ends with a connection that nobody serves. -/
theorem lost_of_end (hseen : Seen s) (hdistinct : Distinct s (.accept 0))
    (hstep : MultiServer.step s (.accept 0) = some s') : Lost s' := by
  obtain ⟨hpc, rfl⟩ := step_accept hstep
  refine ⟨0, ?_, Or.inr rfl, fun hmem => ?_⟩
  · show (0 : Int) ∈ s.accepted ++ [0]
    simp
  · rcases hdistinct with hfail | ⟨-, hnew⟩
    · omega
    · rcases hseen.read 0 hmem with hold | hfail
      · exact hnew hold
      · omega

/-- A thread too many stays one too many, unless a connection is lost. -/
theorem Surplus.step (h : Surplus s) (hseen : Seen s) {e : Event} (hdistinct : Distinct s e)
    (hcreated : Created e) (hstep : MultiServer.step s e = some s') : Lost s' ∨ Surplus s' := by
  cases e with
  | accept ret =>
    by_cases hend : ret = 0
    · subst hend
      exact Or.inl (lost_of_end hseen hdistinct hstep)
    · -- one more thread to create, and at most one more connection
      obtain ⟨hpc, rfl⟩ := step_accept hstep
      right
      unfold Surplus at h
      rw [if_neg (by rw [hpc]; simp)] at h
      show (if ret < 0 then s.accepted else s.accepted ++ [ret]).length <
        s.threads.length + if (if ret = 0 then Pc.returned else Pc.create) = .create then 1 else 0
      rw [if_neg hend, if_pos rfl]
      split
      · omega
      · rw [List.length_append, List.length_singleton]
        omega
  | create err =>
    obtain rfl : err = 0 := hcreated
    obtain ⟨hpc, rfl⟩ := step_create hstep
    right
    unfold Surplus at h
    rw [if_pos hpc] at h
    show s.accepted.length < (s.threads ++ [none]).length + 0
    rw [List.length_append, List.length_singleton]
    exact h
  | read i =>
    obtain ⟨-, -, rfl⟩ := step_read hstep
    right
    show s.accepted.length < (s.threads.set i (some s.clientSocket)).length + _
    rw [List.length_set]
    exact h

/-- A step that does not meet the condition loses a connection or creates a thread
    too many. -/
theorem InOrder.lost_or_surplus (h : InOrder s) (hseen : Seen s) {e : Event}
    (hdistinct : Distinct s e) (hcreated : Created e) (hread : ¬ ReadFirst s e)
    (hstep : MultiServer.step s e = some s') : Lost s' ∨ Surplus s' := by
  cases e with
  | accept ret =>
    by_cases hend : ret = 0
    · subst hend
      exact Or.inl (lost_of_end hseen hdistinct hstep)
    · obtain ⟨hpc, rfl⟩ := step_accept hstep
      have hholding := h.holding
      rw [MultiServer.holding, if_neg (by rw [hpc]; simp), List.append_nil] at hholding
      rcases hdistinct with rfl | ⟨hpos, hnew⟩
      · -- a thread for no connection
        right
        show s.accepted.length < s.threads.length + 1
        rw [← hholding, List.length_map]
        omega
      · -- some thread has not read: what is overwritten is its descriptor
        have hunread : none ∈ s.threads := by
          by_contra hall
          exact hread ⟨by omega, hall⟩
        obtain ⟨front, back, hsplit⟩ := List.append_of_mem hunread
        left
        have hmem : s.clientSocket ∈ s.accepted := by
          rw [← hholding]
          exact List.mem_map.mpr ⟨none, hunread, rfl⟩
        refine ⟨s.clientSocket, ?_, Or.inl ?_, fun hother => ?_⟩
        · show s.clientSocket ∈ if ret < 0 then s.accepted else s.accepted ++ [ret]
          rw [if_neg (by omega)]
          exact List.mem_append_left _ hmem
        · show s.clientSocket ≠ ret
          rintro heq
          exact hnew (heq ▸ hmem)
        · -- it would be held by two threads
          have hnodup := h.nodup
          have hold : some s.clientSocket ∈ front ++ none :: back := hsplit ▸ hother
          rw [← hholding, hsplit, List.map_append, List.map_cons, List.nodup_middle,
            List.nodup_cons, ← List.map_append] at hnodup
          apply hnodup.1
          rw [List.mem_append, List.mem_cons] at hold
          apply List.mem_map.mpr
          rcases hold with hfront | hnone | hback
          · exact ⟨_, List.mem_append_left _ hfront, rfl⟩
          · cases hnone
          · exact ⟨_, List.mem_append_right _ hback, rfl⟩
  | create err => exact absurd hcreated hread
  | read i => exact absurd trivial hread

/-- In the end a lost connection is not served, and a thread too many serves none or
    one that is served already. -/
theorem not_handed_of_settled (h : Lost s ∨ Surplus s) (hsettled : Settled s) : ¬ Handed s := by
  obtain ⟨hpc, hread⟩ := hsettled
  intro hhanded
  rcases h with ⟨fd, hfd, -, hunread⟩ | hsurplus
  · exact hunread (hhanded.all hpc hread fd hfd)
  · unfold Surplus at hsurplus
    rw [if_neg hpc] at hsurplus
    -- each thread has read another accepted descriptor, so there is none too many
    have hsub : s.threads.filterMap id ⊆ s.accepted := by
      intro fd hfd
      obtain ⟨t, ht, rfl⟩ := List.mem_filterMap.mp hfd
      exact hhanded.served fd ht
    have hle := (List.Nodup.subperm hhanded.once hsub).length_le
    have hlength : (s.threads.filterMap id).length = s.threads.length := by
      rw [List.length_filterMap_eq_countP, List.countP_eq_length]
      intro t ht
      cases t with
      | none => exact absurd ht hread
      | some fd => rfl
    omega

/-! ## Whole runs -/

/-- At the end of a run a connection is still lost or a thread still too many. -/
theorem lost_or_surplus_run {es : List Event} (h : Lost s ∨ Surplus s) (hseen : Seen s)
    (hdistinct : Runs.StepsMeet step Distinct s es) (hcreated : ∀ e ∈ es, Created e)
    (hrun : es.foldlM step s = some s') : Lost s' ∨ Surplus s' := by
  induction es generalizing s with
  | nil => exact Option.some.inj hrun ▸ h
  | cons e es ih =>
    obtain ⟨hfirst, hlater⟩ := List.forall_mem_cons.mp hcreated
    obtain ⟨s₁, h₁, h₂⟩ := Runs.run_cons.mp hrun
    have hbad : Lost s₁ ∨ Surplus s₁ := by
      rcases h with hlost | hsurplus
      · exact Or.inl (hlost.step hseen hdistinct.1 hfirst h₁)
      · exact hsurplus.step hseen hdistinct.1 hfirst h₁
    exact ih hbad (hseen.step hdistinct.1 hfirst h₁) (hdistinct.2 s₁ h₁) hlater h₂

/-- At the end of a settled run all are handed over exactly if each was read first. -/
theorem settled_handed_iff {es : List Event} (h : InOrder s) (hseen : Seen s)
    (hdistinct : Runs.StepsMeet step Distinct s es) (hcreated : ∀ e ∈ es, Created e)
    (hrun : es.foldlM step s = some s') (hsettled : Settled s') :
    Handed s' ↔ Runs.StepsMeet step ReadFirst s es := by
  induction es generalizing s with
  | nil =>
    obtain rfl := Option.some.inj hrun
    exact ⟨fun _ => trivial, fun _ => h.handed⟩
  | cons e es ih =>
    obtain ⟨hfirst, hlater⟩ := List.forall_mem_cons.mp hcreated
    obtain ⟨s₁, h₁, h₂⟩ := Runs.run_cons.mp hrun
    have hseen₁ := hseen.step hdistinct.1 hfirst h₁
    rw [Runs.stepsMeet_cons h₁]
    -- a step that misses the condition loses a connection, or adds a thread, for good
    by_cases hread : ReadFirst s e
    · rw [ih (h.step hdistinct.1 hread h₁) hseen₁ (hdistinct.2 s₁ h₁) hlater h₂]
      exact ⟨fun hrest => ⟨hread, hrest⟩, fun hrest => hrest.2⟩
    · have hbad := lost_or_surplus_run (h.lost_or_surplus hseen hdistinct.1 hfirst hread h₁) hseen₁
        (hdistinct.2 s₁ h₁) hlater h₂
      constructor
      · exact fun hhanded => absurd hhanded (not_handed_of_settled hbad hsettled)
      · exact fun hmeet => absurd hmeet.1 hread

/-- Before the first connection the threads are in order. -/
theorem Start.inOrder (h : Start s) : InOrder s := by
  constructor
  · rw [holding, h.threads, h.accepted, if_neg (by rw [h.pc]; simp)]
    rfl
  · rw [h.accepted]
    exact List.nodup_nil

/-- When `accept` returns only positive descriptors and every thread reads its own
    before the next one, all connections get their threads. A run that settles, with
    all threads created, has handed over all connections only then. -/
theorem handed_iff (h : Start s) {es : List Event}
    (hdistinct : Runs.StepsMeet step Distinct s es) :
    (Runs.StepsMeet step ReadFirst s es → Runs.Always step Handed s es) ∧
    ∀ s', es.foldlM step s = some s' → (∀ e ∈ es, Created e) → Settled s' →
      (Handed s' ↔ Runs.StepsMeet step ReadFirst s es) := by
  constructor
  · intro hread
    apply Runs.Always.of_invariant (J := InOrder) (C := fun s e => Distinct s e ∧ ReadFirst s e)
      (fun s h => h.handed) _ h.inOrder (hdistinct.and hread)
    intro s e s' hs hC hstep
    exact hs.step hC.1 hC.2 hstep
  · intro s' hrun hcreated hsettled
    exact settled_handed_iff h.inOrder h.seen hdistinct hcreated hrun hsettled

instance (s : State) : ∀ e, Decidable (Distinct s e)
  | .accept ret => inferInstanceAs (Decidable (ret = -1 ∨ (0 ≤ ret ∧ ret ∉ s.accepted)))
  | .create _ => inferInstanceAs (Decidable True)
  | .read _ => inferInstanceAs (Decidable True)

instance (s : State) : ∀ e, Decidable (ReadFirst s e)
  | .accept ret => inferInstanceAs (Decidable (0 < ret ∧ none ∉ s.threads))
  | .create err => inferInstanceAs (Decidable (err = 0))
  | .read _ => inferInstanceAs (Decidable True)

/-- `main` before its first `accept`. -/
def listening : State := { clientSocket := 0, pc := .accept, threads := [], accepted := [] }

/-- The server starts with no thread and no connection. -/
theorem start_listening : Start listening := ⟨rfl, rfl, rfl⟩

/-- Two connections, the second one accepted when the first thread has read. -/
theorem handed_iff_two :
    Runs.Always step Handed listening
      [.accept 4, .create 0, .read 0, .accept 5, .create 0, .read 1] :=
  (handed_iff start_listening (by decide)).1 (by decide)

/-- The second connection is accepted before the first thread has read: both threads
    serve it. And a failed `accept` gets a thread for the descriptor `-1`. -/
theorem connection_overwritten :
    Start listening ∧
    Runs.StepsMeet step Distinct listening
      [.accept 4, .create 0, .accept 5, .create 0, .read 0, .read 1] ∧
    (∃ s', [.accept 4, .create 0, .accept 5, .create 0, .read 0, .read 1].foldlM step listening =
      some s' ∧ s'.threads = [some 5, some 5] ∧ s'.accepted = [4, 5] ∧ ¬ Handed s') ∧
    Runs.StepsMeet step Distinct listening [.accept (-1), .create 0, .read 0] ∧
    ∃ s', [.accept (-1), .create 0, .read 0].foldlM step listening = some s' ∧
      s'.threads = [some (-1)] ∧ s'.accepted = [] ∧ ¬ Handed s' := by
  refine ⟨start_listening, by decide, ⟨_, rfl, rfl, rfl, fun h => ?_⟩, by decide, _, rfl, rfl, rfl,
    fun h => ?_⟩
  · exact absurd h.once (by decide)
  · exact absurd (h.served (-1) (by decide)) (by decide)

end MultiServer
