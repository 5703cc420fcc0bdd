import CSnippets.Spec.StatesHandler

/-!
# The callback discipline of the handler task

Started in the first registered state, with all callbacks present, the loop makes
the calls of every state but the first in sessions: one enter, some runs, one
exit. The first state is run or left without having been entered, since only the
transition code calls an enter callback. At any time at most one state has been
entered and not left.
-/

namespace StateMachine

open SentinelList Sessions

variable {l : List (Addr × SystemState)} {a b c : Addr} {s t : SystemState} {tr : List Call}

/-- The kinds of the calls made to the state at `a`, in order. -/
def callsOf (a : Addr) (tr : List Call) : List StateMachine.Kind :=
  (tr.filter fun call => call.state = a).map Call.kind

/-- The state at `a` has been entered and not left since. -/
def Entered (tr : List Call) (a : Addr) : Prop :=
  Held (fun call => call.state = a ∧ call.kind = .enter)
    (fun call => call.state = a ∧ call.kind = .exit) tr

/-- Every state has its enter, run and exit callbacks. -/
def AllCallbacks (l : List (Addr × SystemState)) : Prop :=
  ∀ e ∈ l, e.2.enter ≠ none ∧ e.2.run ≠ none ∧ e.2.exit ≠ none

/-- The calls of a state in two stretches are those in each. -/
theorem callsOf_append (a : Addr) (tr tr' : List Call) :
    callsOf a (tr ++ tr') = callsOf a tr ++ callsOf a tr' := by
  rw [callsOf, List.filter_append, List.map_append, callsOf, callsOf]

/-- The calls of an iteration when no callback is missing. -/
theorem exists_switchCalls (hall : AllCallbacks l) (ha : (a, s) ∈ l) (hb : (b, t) ∈ l) :
    ∃ f g h, switchCalls a b s t =
      if a = b then [⟨.run, b, h, t.data⟩]
      else [⟨.exit, a, f, s.data⟩, ⟨.enter, b, g, t.data⟩, ⟨.run, b, h, t.data⟩] := by
  obtain ⟨-, -, hexit⟩ := hall _ ha
  obtain ⟨henter, hrun, -⟩ := hall _ hb
  obtain ⟨f, hf⟩ := Option.ne_none_iff_exists'.mp hexit
  obtain ⟨g, hg⟩ := Option.ne_none_iff_exists'.mp henter
  obtain ⟨h, hh⟩ := Option.ne_none_iff_exists'.mp hrun
  refine ⟨f, g, h, ?_⟩
  simp only at hf hg hh
  simp [switchCalls, callback, hf, hg, hh]

/-! ## At most one state is entered -/

/-- No state but `o` is entered and not left. -/
def Alone (o : Option Addr) (tr : List Call) : Prop := ∀ c, Entered tr c → o = some c

/-- Running a state enters none. -/
theorem Alone.run {o : Option Addr} {e : Call} (h : Alone o tr) (hrun : e.kind = .run) :
    Alone o (tr ++ [e]) := by
  intro c hc
  rcases hc.of_concat with henter | hheld
  · rw [hrun] at henter
    cases henter.2
  · exact h c hheld.1

/-- When the only state entered is left, none is. -/
theorem Alone.exit {e : Call} (h : Alone (some a) tr) (ha : e.state = a)
    (hexit : e.kind = .exit) : Alone none (tr ++ [e]) := by
  intro c hc
  rcases hc.of_concat with henter | hheld
  · rw [hexit] at henter
    cases henter.2
  · -- the only entered state is the one just left
    obtain rfl := Option.some.inj (h c hheld.1)
    exact absurd ⟨ha, hexit⟩ hheld.2

/-- Where no state is entered, the one that is entered next is the only one. -/
theorem Alone.enter {e : Call} (h : Alone none tr) (hb : e.state = b) :
    Alone (some b) (tr ++ [e]) := by
  intro c hc
  rcases hc.of_concat with henter | hheld
  · rw [← hb, henter.1]
  · cases h c hheld.1

/-- At every time at most one state is entered and not left. -/
def Exclusive (tr : List Call) : Prop := ∀ t, t <+: tr → ∃ o, Alone o t

/-- One more call keeps all times exclusive if the last one is. -/
theorem Exclusive.concat {o : Option Addr} {call : Call} (h : Exclusive tr)
    (ho : Alone o (tr ++ [call])) : Exclusive (tr ++ [call]) := by
  intro t ht
  rcases List.prefix_concat_iff.mp ht with rfl | ht
  · exact ⟨o, ho⟩
  · exact h t ht

/-! ## The invariant of the loop -/

/-- After the calls `tr`, with the state at `cur` current: every state but the
    first keeps the discipline, and only the current one is entered. -/
structure Disciplined (first : Addr) (tr : List Call) (cur : Addr) : Prop where
  sessions : ∀ c, c ≠ first → EndsIn .enter .run .exit (callsOf c tr)
    (if c = cur then .used else .closed)
  alone : Alone (some cur) tr
  exclusive : Exclusive tr

/-- Before the first call every state but the current one is closed. -/
theorem disciplined_nil (first : Addr) : Disciplined first [] first := by
  have hnone : ∀ o, Alone o [] := fun o c hc => absurd hc not_held_nil
  refine ⟨fun c hc => ?_, hnone _, fun t ht => ⟨none, ?_⟩⟩
  · rw [if_neg hc]
    exact .nil
  · rw [List.prefix_nil.mp ht]
    exact hnone none

/-- An iteration keeps the discipline. -/
theorem Disciplined.step {first : Addr} (hall : AllCallbacks l) (ha : (a, s) ∈ l)
    (hb : (b, t) ∈ l) (h : Disciplined first tr a) :
    Disciplined first (tr ++ switchCalls a b s t) b := by
  obtain ⟨f, g, k, hcalls⟩ := exists_switchCalls hall ha hb
  rw [hcalls]
  by_cases hab : a = b
  · -- the current state runs once more
    subst hab
    rw [if_pos rfl]
    have hrun := h.alone.run (e := ⟨.run, a, k, t.data⟩) rfl
    refine ⟨fun c hc => ?_, hrun, h.exclusive.concat hrun⟩
    have hphase := h.sessions c hc
    rw [callsOf_append]
    by_cases hca : c = a
    · subst hca
      rw [if_pos rfl] at hphase ⊢
      simpa [callsOf] using hphase.again
    · rw [if_neg hca] at hphase ⊢
      simpa [callsOf, Ne.symm hca] using hphase
  · -- the current state is left, the next one entered and run
    rw [if_neg hab]
    have hexit := h.alone.exit (e := ⟨.exit, a, f, s.data⟩) rfl rfl
    have henter := hexit.enter (e := ⟨.enter, b, g, t.data⟩) rfl
    have hrun := henter.run (e := ⟨.run, b, k, t.data⟩) rfl
    have hsplit : tr ++ [⟨.exit, a, f, s.data⟩, ⟨.enter, b, g, t.data⟩, ⟨.run, b, k, t.data⟩] =
        tr ++ [⟨.exit, a, f, s.data⟩] ++ [⟨.enter, b, g, t.data⟩] ++ [⟨.run, b, k, t.data⟩] := by
      simp
    rw [hsplit]
    refine ⟨fun c hc => ?_, hrun, ((h.exclusive.concat hexit).concat henter).concat hrun⟩
    have hphase := h.sessions c hc
    rw [← hsplit, callsOf_append]
    by_cases hca : c = a
    · -- the session of the state left is closed
      subst hca
      rw [if_pos rfl] at hphase
      rw [if_neg hab]
      simpa [callsOf, Ne.symm hab] using hphase.closing
    · rw [if_neg hca] at hphase
      by_cases hcb : c = b
      · -- the state entered opens a new one
        subst hcb
        rw [if_pos rfl]
        simpa [callsOf, hab] using hphase.opening.first
      · rw [if_neg hcb]
        simpa [callsOf, Ne.symm hca, Ne.symm hcb] using hphase

/-- The first call the first iteration makes to the state it starts in does not
    enter it. -/
theorem callsOf_switchCalls_self (hall : AllCallbacks l) (ha : (a, s) ∈ l) (hb : (b, t) ∈ l) :
    ∃ k ks, callsOf a (switchCalls a b s t) = k :: ks ∧ k ≠ .enter := by
  obtain ⟨f, g, k, hcalls⟩ := exists_switchCalls hall ha hb
  rw [hcalls]
  by_cases hab : a = b
  · subst hab
    exact ⟨.run, [], by simp [callsOf], by decide⟩
  · exact ⟨.exit, [], by simp [callsOf, hab, Ne.symm hab], by decide⟩

/-! ## The loop -/

/-- Started in the first state, with all callbacks present and only known IDs
    received, the loop calls every state in sessions, except the first state: its
    calls are sessions only as long as there has been no iteration. At any time at
    most one state has been entered and not left. -/
theorem taskLoop_cycles_iff {sm : Sm} {first : Addr} {v : SystemState}
    (h : Registered sm ((first, v) :: l)) (hcur : sm.current = some first)
    (hnext : sm.next = some first) (hall : AllCallbacks ((first, v) :: l))
    (msgs : List (Option UInt32))
    (hmsgs : ∀ item, some item ∈ msgs → findState sm item.toUInt8.toUInt32 ≠ some none) :
    ∃ tr sm', taskLoop sm msgs = .ok (tr, sm') ∧
      (∀ a, Cycles .enter .run .exit (callsOf a tr) ↔ (a = first → msgs = [])) ∧
      ∀ t, t <+: tr → ∀ a b, Entered t a → Entered t b → a = b := by
  have hstarted : Started sm ((first, v) :: l) first := ⟨h, hcur, hnext, v, by simp⟩
  obtain ⟨tr, sm', cur, htr, hdisc⟩ := hstarted.taskLoop_invariant (P := Disciplined first)
    (fun _ _ _ _ _ ha hb hP => hP.step hall ha hb) hmsgs (disciplined_nil first)
  rw [List.nil_append] at hdisc
  refine ⟨tr, sm', htr, fun a => ?_, fun t ht a b ha hb => ?_⟩
  · by_cases hfirst : a = first
    · subst hfirst
      simp only [forall_const]
      constructor
      · intro hcycles
        cases msgs with
        | nil => rfl
        | cons msg msgs =>
          -- the first iteration runs the first state or leaves it
          rcases received_cases h List.mem_cons_self hnext msg with
            ⟨b, t, hb, hmsg⟩ | ⟨-, item, rfl, hnone⟩
          · have hself : (a, v) ∈ (a, v) :: l := by simp
            rw [taskLoop_cons (taskIteration_spec h hcur hself hb hmsg)] at htr
            obtain ⟨k, ks, hk, hne⟩ := callsOf_switchCalls_self hall hself hb
            cases hrest : taskLoop { sm with current := some b, next := some b } msgs with
            | error e => rw [hrest] at htr; cases htr
            | ok r =>
              rw [hrest] at htr
              obtain ⟨rfl, -⟩ := Prod.mk.inj (Except.ok.inj htr)
              rw [callsOf_append, hk] at hcycles
              exact absurd hcycles.head_eq hne
          · exact absurd hnone (hmsgs item (by simp))
      · intro hnil
        subst hnil
        obtain ⟨rfl, -⟩ := Prod.mk.inj (Except.ok.inj htr)
        exact EndsIn.nil.cycles
    · exact ⟨fun _ hafirst => absurd hafirst hfirst, fun _ => (hdisc.sessions a hfirst).cycles⟩
  · obtain ⟨o, ho⟩ := hdisc.exclusive t ht
    exact Option.some.inj ((ho a ha).symm.trans (ho b hb))

/-- An iteration switches from the first of two states to the second. -/
theorem taskLoop_cycles_iff_two :
    ∃ tr sm', taskLoop twoStates [some 0, none] = .ok (tr, sm') ∧
      Cycles .enter .run .exit (callsOf 2 tr) ∧ ¬ Cycles .enter .run .exit (callsOf 1 tr) := by
  obtain ⟨tr, sm', htr, hcycles, -⟩ := taskLoop_cycles_iff registered_twoStates rfl rfl
    (by unfold AllCallbacks; decide) [some 0, none] (by simp; decide)
  refine ⟨tr, sm', htr, (hcycles 2).mpr (by simp), fun hone => ?_⟩
  exact absurd ((hcycles 1).mp hone rfl) (by simp)

/-- One state with all its callbacks: it is run without having been entered. -/
theorem taskLoop_runs_unentered :
    ∃ ID sm tr sm', addState Sm.zero 1 ⟨none, some 11, some 12, some 13, none⟩ = some (ID, sm) ∧
      taskLoop { sm with current := some 1, next := some 1 } [none] = .ok (tr, sm') ∧
      callsOf 1 tr = [.run] ∧ ¬ Cycles .enter .run .exit (callsOf 1 tr) := by
  refine ⟨1, _, _, _, rfl, rfl, rfl, ?_⟩
  intro hcycles
  cases hcycles.head_eq

end StateMachine
