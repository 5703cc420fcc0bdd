import CSnippets.Spec.ButtonTasksLock
import CSnippets.Spec.ButtonsCorrect

/-!
# What `buttonFind` returns while other tasks run

`buttonFind` searches under the lock, gives it, and only then reads the link it
returns. In between, the node its cursor stands on can get another link or be
freed. Every task's knowledge about the list is written down as a predicate on
where it is; the steps of the others keep it, except in this last window.
-/

namespace Buttons.Tasks

open SentinelList

variable {debounceDelay : UInt32} {bt : Bt} {ch : Choice} {l : List (Addr × Button)}

/-! ## What a task knows about the list -/

/-- The cursor stands behind a front part of the list whose buttons satisfy `P`. -/
def Behind (l : List (Addr × Button)) (iterator : Addr) (P : Button → Prop) : Prop :=
  ∃ l₁ l₂, l = l₁ ++ l₂ ∧ iterator = lastAddr headAddr l₁ ∧ ∀ e ∈ l₁, P e.2

/-- What a task between take and give relies on. -/
def Body.Knows (mem : Memory Button) (l : List (Addr × Button)) : Body → Prop
  | .search c iterator => Behind l iterator fun b => c.goesOn b = true
  | .insert _ iterator => iterator = lastAddr headAddr l
  | .fill _ iterator => iterator ∈ mem
  | .count => True
  | .pick _ iterator => Behind l iterator fun _ => True
  | .unlink iterator d => ∃ l₁ w l₂, l = l₁ ++ (d, w) :: l₂ ∧ iterator = lastAddr headAddr l₁
  | .release d => d ∈ mem ∧ d ∉ headAddr :: l.map Prod.fst
  | .allocate => True
  | .poll _ iterator => Behind l iterator fun _ => True

/-- The node in front of which a search for `identifier` should stop. -/
def found (l : List (Addr × Button)) (identifier : UInt8) : Option Addr :=
  (l.find? fun e => e.2.identifier == identifier).map Prod.fst

/-- A front part without the identifier is searched in vain. -/
theorem found_append {l₁ : List (Addr × Button)} {identifier : UInt8}
    (h : ∀ e ∈ l₁, (Search.find identifier).goesOn e.2 = true) (l₂ : List (Addr × Button)) :
    found (l₁ ++ l₂) identifier = found l₂ identifier := by
  have hnone : (l₁.find? fun e => e.2.identifier == identifier) = none := by
    rw [List.find?_eq_none]
    intro e he
    simpa [Search.goesOn] using h e he
  rw [found, List.find?_append, hnone, Option.none_or, found]

/-- While the lock is still held. -/
def After.Knows (mem : Memory Button) (l : List (Addr × Button)) : After → Prop
  | .readNext identifier iterator stop =>
    nextOf mem iterator = some stop ∧ stop = found l identifier
  | _ => True

/-- The node whose link or life a step ends. -/
def Body.Touches : Body → Addr → Prop
  | .insert _ iterator, a => a = iterator
  | .unlink iterator _, a => a = iterator
  | .release d, a => a = d
  | _, _ => False

/-- A step leaves all links alone but that of the node it touches. -/
def Body.Frames (b : Body) (bt bt' : Bt) : Prop :=
  ∀ a, a ∈ bt.mem → ¬ b.Touches a → nextOf bt'.mem a = nextOf bt.mem a

/-- How a step may end: the list is still well formed, and the task knows what it
    needs for its next step. -/
def Outcome.Sound (b : Body) (bt : Bt) : Outcome → Prop
  | .next bt' b' => b.Frames bt bt' ∧ ∃ l, Registered bt' l ∧ b'.Knows bt'.mem l
  | .leave bt' k => b.Frames bt bt' ∧ ∃ l, Registered bt' l ∧ k.Knows bt'.mem l
  | .stop why => why ≠ .badMemory

/-! ## One step between take and give -/

/-- A step that does not write the list leaves all links alone. -/
theorem Body.frames_refl (b : Body) (bt : Bt) : b.Frames bt bt := fun _ _ _ => rfl

/-- The cursor stands on a node, whose link leads to the rest of the list. -/
theorem Behind.nextOf_eq {iterator : Addr} {P : Button → Prop} (h : Registered bt l)
    (hb : Behind l iterator P) :
    ∃ l₁ l₂, l = l₁ ++ l₂ ∧ iterator = lastAddr headAddr l₁ ∧ (∀ e ∈ l₁, P e.2) ∧
      nextOf bt.mem iterator = some (l₂.head?.map Prod.fst) := by
  obtain ⟨l₁, l₂, rfl, rfl, hP⟩ := hb
  exact ⟨l₁, l₂, rfl, rfl, hP, h.nextOf_front⟩

/-- The loop of a search. -/
theorem search_sound (h : Registered bt l) {c : Search} {iterator : Addr} {o : Outcome}
    (hb : Behind l iterator fun b => c.goesOn b = true)
    (hrun : runBody debounceDelay bt ch (.search c iterator) = some o) :
    o.Sound (.search c iterator) bt := by
  obtain ⟨l₁, l₂, rfl, hit, hgo, hnext⟩ := hb.nextOf_eq h
  cases l₂ with
  | nil =>
    -- the end of the list
    rw [List.append_nil] at h
    simp only [runBody, hnext, List.head?_nil, Option.map_none, Option.some.injEq] at hrun
    subst hrun
    cases c with
    | find identifier =>
      refine ⟨Body.frames_refl _ _, l₁, h, hnext, ?_⟩
      have hfound := found_append hgo []
      rw [List.append_nil] at hfound
      exact hfound.symm
    | add args => exact ⟨Body.frames_refl _ _, l₁, h, hit⟩
    | delete identifier =>
      exact ⟨Body.frames_refl _ _, l₁, h, l₁, [], (List.append_nil l₁).symm, hit, fun _ _ => trivial⟩
  | cons e l₂ =>
    obtain ⟨b, v⟩ := e
    have hval : valOf bt.mem b = some v := Seg.valOf_of_mem h (by simp)
    simp only [runBody, hnext, List.head?_cons, Option.map_some, hval] at hrun
    split at hrun
    · next hv =>
      -- the cursor advances
      cases hrun
      refine ⟨Body.frames_refl _ _, _, h, l₁ ++ [(b, v)], l₂, by simp, ?_, ?_⟩
      · rw [lastAddr_concat]
      · intro e he
        rcases List.mem_append.mp he with he | he
        · exact hgo e he
        · rw [List.mem_singleton.mp he]
          exact hv
    · next hv =>
      -- the loop ends in front of `b`
      cases hrun
      cases c with
      | find identifier =>
        refine ⟨Body.frames_refl _ _, _, h, hnext, ?_⟩
        have hid : v.identifier = identifier := by simpa [Search.goesOn] using hv
        rw [found_append hgo]
        simp [found, hid]
      | add args => exact absurd rfl hv
      | delete identifier =>
        exact ⟨Body.frames_refl _ _, _, h, l₁, _, rfl, hit, fun _ _ => trivial⟩

/-- `iterator->next = calloc(…)` -/
theorem insert_sound (h : Registered bt l) {args : ButtonArgs} {iterator : Addr} {o : Outcome}
    (hb : iterator = lastAddr headAddr l)
    (hrun : runBody debounceDelay bt ch (.insert args iterator) = some o) :
    o.Sound (.insert args iterator) bt := by
  subst hb
  have hnext : nextOf bt.mem (lastAddr headAddr l) = some none := Seg.nextOf_lastAddr h
  cases haddr : ch.newAddr with
  | none =>
    -- the null link is stored once more
    obtain ⟨m, hm⟩ := exists_setNext (mem_of_nextOf hnext) none
    simp only [runBody, haddr, hm, stored, Option.some.injEq] at hrun
    subst hrun
    have hsame : ∀ a, nextOf m a = nextOf bt.mem a := by
      intro a
      rw [nextOf_setNext hm]
      split
      · next ha => rw [ha, hnext]
      · rfl
    exact ⟨fun a _ _ => hsame a, l, Seg.congr h (fun u _ => hsame u) fun u _ => valOf_setNext hm u,
      trivial⟩
  | some p =>
    simp only [runBody, haddr] at hrun
    cases halloc : alloc bt.mem p Button.zero with
    | none => rw [halloc] at hrun; cases hrun
    | some m₁ =>
      have hp := not_mem_of_alloc halloc
      obtain ⟨m₁', m₂, h₁, h₂, hlist⟩ := h.exists_append hp Button.zero
      obtain rfl : m₁ = m₁' := Option.some.inj (halloc.symm.trans h₁)
      simp only [halloc, h₂, stored, Option.some.injEq] at hrun
      subst hrun
      refine ⟨fun a ha hna => ?_, _, hlist, ?_⟩
      · have hap : a ≠ p := fun hap => hp (hap ▸ ha)
        have hne : a ≠ lastAddr headAddr l := hna
        show nextOf m₂ a = _
        rw [nextOf_setNext h₂, if_neg hne, nextOf_alloc h₁, if_neg hap]
      · show lastAddr headAddr l ∈ m₂
        rw [← nextOf_isSome, nextOf_setNext h₂, if_pos rfl]
        rfl

/-- The stores of the arguments. -/
theorem fill_sound (h : Registered bt l) {args : ButtonArgs} {iterator : Addr} {o : Outcome}
    (hb : iterator ∈ bt.mem)
    (hrun : runBody debounceDelay bt ch (.fill args iterator) = some o) :
    o.Sound (.fill args iterator) bt := by
  obtain ⟨m, hm⟩ := exists_setVal hb args.store
  have hstore : setVal bt.mem iterator (fun b => { b with
      poll := args.poll, portArg := args.portArg, pinArg := args.pinArg,
      identifier := args.identifier }) = some m := hm
  simp only [runBody, hstore, stored, Option.some.injEq] at hrun
  subst hrun
  exact ⟨fun a _ _ => nextOf_setVal hm a, _, Seg.of_setVal h hm, trivial⟩

/-- The tests of `buttonDelete`. -/
theorem pick_sound (h : Registered bt l) {identifier : UInt8} {iterator : Addr} {o : Outcome}
    (hb : Behind l iterator fun _ => True)
    (hrun : runBody debounceDelay bt ch (.pick identifier iterator) = some o) :
    o.Sound (.pick identifier iterator) bt := by
  obtain ⟨l₁, l₂, rfl, hit, -, hnext⟩ := hb.nextOf_eq h
  cases l₂ with
  | nil =>
    -- nothing to delete
    simp only [runBody, hnext, List.head?_nil, Option.map_none, Option.some.injEq] at hrun
    subst hrun
    exact ⟨Body.frames_refl _ _, _, h, trivial⟩
  | cons e l₂ =>
    obtain ⟨d, w⟩ := e
    have hval : valOf bt.mem d = some w := Seg.valOf_of_mem h (by simp)
    simp only [runBody, hnext, List.head?_cons, Option.map_some, hval] at hrun
    split at hrun
    · cases hrun
      exact ⟨Body.frames_refl _ _, _, h, l₁, w, l₂, rfl, hit⟩
    · cases hrun
      exact ⟨Body.frames_refl _ _, _, h, trivial⟩

/-- `iterator->next = delete->next` -/
theorem unlink_sound (h : Registered bt l) {iterator d : Addr} {o : Outcome}
    (hb : ∃ l₁ w l₂, l = l₁ ++ (d, w) :: l₂ ∧ iterator = lastAddr headAddr l₁)
    (hrun : runBody debounceDelay bt ch (.unlink iterator d) = some o) :
    o.Sound (.unlink iterator d) bt := by
  obtain ⟨l₁, w, l₂, rfl, rfl⟩ := hb
  obtain ⟨m₁, m₂, h₁, h₂, -⟩ := h.exists_remove
  have hrest : Registered bt ((l₁ ++ [(d, w)]) ++ l₂) := by simpa using h
  have hnext : nextOf bt.mem d = some (l₂.head?.map Prod.fst) := by
    simpa using hrest.nextOf_front
  simp only [runBody, hnext, h₁, stored, Option.some.injEq] at hrun
  subst hrun
  refine ⟨fun a _ hna => ?_, _, h.unlink h₁, ?_, h.not_mem_rest⟩
  · have hne : a ≠ lastAddr headAddr l₁ := hna
    show nextOf m₁ a = _
    rw [nextOf_setNext h₁, if_neg hne]
  · -- it could be freed, so it is in memory
    show d ∈ m₁
    by_contra hd
    rw [SentinelList.free, if_neg hd] at h₂
    cases h₂

/-- `free(delete)` -/
theorem release_sound (h : Registered bt l) {d : Addr} {o : Outcome} (hd : d ∈ bt.mem)
    (hout : d ∉ headAddr :: l.map Prod.fst)
    (hrun : runBody debounceDelay bt ch (.release d) = some o) : o.Sound (.release d) bt := by
  obtain ⟨m, hm⟩ := exists_free hd
  simp only [runBody, hm, stored, Option.some.injEq] at hrun
  subst hrun
  refine ⟨fun a _ hna => ?_, l, h.of_free hout hm, trivial⟩
  have hne : a ≠ d := hna
  show nextOf m a = _
  rw [nextOf_free hm, if_neg hne]

/-- The loop of `buttonGetPresses`. -/
theorem poll_sound (h : Registered bt l) {ret : List UInt8} {iterator : Addr} {o : Outcome}
    (hb : Behind l iterator fun _ => True)
    (hrun : runBody debounceDelay bt ch (.poll ret iterator) = some o) :
    o.Sound (.poll ret iterator) bt := by
  obtain ⟨l₁, l₂, rfl, hit, -, hnext⟩ := hb.nextOf_eq h
  cases l₂ with
  | nil =>
    simp only [runBody, hnext, List.head?_nil, Option.map_none, Option.some.injEq] at hrun
    subst hrun
    exact ⟨Body.frames_refl _ _, _, h, trivial⟩
  | cons e l₂ =>
    obtain ⟨b, v⟩ := e
    have hval : valOf bt.mem b = some v := Seg.valOf_of_mem h (by simp)
    obtain ⟨w, hw⟩ : ∃ w, valOf bt.mem iterator = some w := by
      obtain ⟨n, hn⟩ := Finmap.mem_iff.mp (mem_of_nextOf hnext)
      exact ⟨n.val, by rw [valOf, hn]; rfl⟩
    simp only [runBody, hnext, List.head?_cons, Option.map_some, hval, hw] at hrun
    cases hcheck : checkButton debounceDelay ch.ticks ch.polled v with
    | none =>
      rw [hcheck] at hrun
      cases hrun
      exact (by decide : Stop.nullPointer ≠ .badMemory)
    | some r =>
      obtain ⟨m, hm⟩ := exists_setVal (mem_of_valOf hval) fun _ => r.2
      simp only [hcheck, hm, stored, Option.some.injEq] at hrun
      subst hrun
      have hlist := Seg.of_setVal h hm
      refine ⟨fun a _ _ => nextOf_setVal hm a, _, hlist, ?_⟩
      -- the cursor goes on to the button just polled
      refine ⟨(l₁.map fun e => if e.1 = b then (e.1, r.2) else e) ++ [(b, r.2)],
        l₂.map fun e => if e.1 = b then (e.1, r.2) else e, ?_, ?_, fun _ _ => trivial⟩
      · simp
      · rw [lastAddr_concat]

/-- A step between take and give keeps the list well formed, and the task knows
    what it needs next. -/
theorem runBody_sound (h : Registered bt l) {b : Body} {o : Outcome} (hb : b.Knows bt.mem l)
    (hrun : runBody debounceDelay bt ch b = some o) : o.Sound b bt := by
  cases b with
  | search c iterator => exact search_sound h hb hrun
  | insert args iterator => exact insert_sound h hb hrun
  | fill args iterator => exact fill_sound h hb hrun
  | count =>
    cases hrun
    exact ⟨fun _ _ _ => rfl, l, h, trivial⟩
  | pick identifier iterator => exact pick_sound h hb hrun
  | unlink iterator d => exact unlink_sound h hb hrun
  | release d => exact release_sound h hb.1 hb.2 hrun
  | allocate =>
    cases haddr : ch.newAddr with
    | none =>
      simp only [runBody, haddr, Option.some.injEq] at hrun
      subst hrun
      exact (by decide : Stop.exitFailure ≠ .badMemory)
    | some p =>
      simp only [runBody, haddr, Option.some.injEq] at hrun
      subst hrun
      exact ⟨Body.frames_refl _ _, l, h, [], l, rfl, rfl, by simp⟩
  | poll ret iterator => exact poll_sound h hb hrun

/-! ## All tasks together -/

/-- What a task knows; a `buttonFind` that has given the lock relies on the link
    of its cursor. -/
def Pc.Knows (mem : Memory Button) (l : List (Addr × Button)) : Pc → Prop
  | .body _ b => b.Knows mem l
  | .readGive _ k => k.Knows mem l
  | .give _ _ k => k.Knows mem l
  | .after (.readNext _ iterator stop) => nextOf mem iterator = some stop
  | .returned (.button result stop) => result = stop
  | _ => True

/-- The task is in `buttonInit`, or in a call that found no lock. -/
def Pc.Starting : Pc → Prop
  | .initCreate => True
  | .initAssign _ => True
  | .initSpawn => True
  | .body taken _ => taken = none
  | .exitTest taken => taken = none
  | .readGive taken _ => taken = none
  | .give taken _ _ => taken = none
  | _ => False

/-- No other task ends the link or the life of a node on which the cursor of a
    `buttonFind` stands that has given the lock and not yet read the link. -/
def Spares (s : State) : Event → Prop
  | .call _ _ => True
  | .run u _ => ∀ t identifier iterator stop taken b,
    s.tasks t = .after (.readNext identifier iterator stop) → s.tasks u = .body taken b →
      ¬ b.Touches iterator

/-- Nobody is in `buttonInit` or goes without the lock, the list is well formed,
    every task knows what it relies on, and no freed node has been read or written. -/
structure Known (s : State) : Prop where
  started : ∀ t, ¬ (s.tasks t).Starting
  knows : ∃ l, Registered s.bt l ∧ ∀ t, (s.tasks t).Knows s.bt.mem l
  memory : s.stopped ≠ some .badMemory

/-- The invariant: the lock excludes and the tasks know the list. -/
structure Guarded (s : State) : Prop where
  ordered : Ordered s
  known : Known s

variable {s s' : State} {t u : TaskId}

/-- Nobody goes without the lock, so nobody gives a mutex it has not taken. -/
theorem Guarded.owns (h : Guarded s) : Owns s := by
  intro t m k hpc
  have hstarted := h.known.started t
  rw [hpc] at hstarted
  exact absurd rfl hstarted

/-- Nobody is in `buttonInit`, so no step assigns `bt.lock`. -/
theorem Guarded.quiet (h : Guarded s) (e : Event) : Quiet s e := by
  cases e with
  | call t c => trivial
  | run t ch =>
    intro m hm
    have hstarted := h.known.started t
    rw [hm] at hstarted
    exact absurd trivial hstarted

/-- A task that is not inside keeps what it knows, whatever happens to the list,
    as long as the link it relies on stays. -/
theorem Pc.Knows.frame {pc : Pc} {mem mem' : Memory Button} {l' : List (Addr × Button)}
    (h : pc.Knows mem l) (hstarted : ¬ pc.Starting) (hout : ¬ pc.phase.Holds)
    (hnext : ∀ identifier iterator stop, pc = .after (.readNext identifier iterator stop) →
      nextOf mem' iterator = nextOf mem iterator) : pc.Knows mem' l' := by
  -- between start and end a task that does not hold the lock knows only where it reads next
  cases pc with
  | body taken b =>
    cases taken with
    | none => exact absurd rfl hstarted
    | some m => exact absurd trivial hout
  | readGive taken k =>
    cases taken with
    | none => exact absurd rfl hstarted
    | some m => exact absurd trivial hout
  | give taken m k =>
    cases taken with
    | none => exact absurd rfl hstarted
    | some m => exact absurd trivial hout
  | after k =>
    cases k with
    | readNext identifier iterator stop => exact (hnext identifier iterator stop rfl).trans h
    | _ => trivial
  | returned v =>
    cases v with
    | button result stop => exact h
    | _ => trivial
  | _ => trivial

/-- A task moves without a change of the list. -/
theorem Known.goto (h : Known s) (t : TaskId) (pc : Pc) (hpc : ¬ pc.Starting)
    (hknows : ∀ l, (s.tasks t).Knows s.bt.mem l → pc.Knows s.bt.mem l) : Known (s.goto t pc) := by
  obtain ⟨l, hl, hall⟩ := h.knows
  refine ⟨?_, ⟨l, hl, ?_⟩, h.memory⟩
  · exact (Function.forall_update_iff s.tasks fun _ p => ¬ p.Starting).mpr
      ⟨hpc, fun u _ => h.started u⟩
  · exact (Function.forall_update_iff s.tasks fun _ p => p.Knows s.bt.mem l).mpr
      ⟨hknows l (hall t), fun u _ => hall u⟩

/-- A stop that is no bad access leaves all searches right. -/
theorem Known.stop (h : Known s) {why : Stop} (hwhy : why ≠ .badMemory) : Known (s.stop why) :=
  ⟨h.started, h.knows, fun hstop => hwhy (Option.some.inj hstop)⟩

/-- A call that has not taken the lock yet relies on nothing. -/
theorem start_knows (c : Call) (mem : Memory Button) (l : List (Addr × Button)) :
    c.start.Knows mem l := by
  cases c with
  | search c => exact ⟨[], l, rfl, rfl, by simp⟩
  | getPresses => trivial

/-- A step between take and give: the others are not inside, and the one that has
    given the lock is spared. -/
private theorem body_known (h : Guarded s) (hspares : Spares s (.run t ch))
    {taken : Option MutexId} {b : Body} (hpc : s.tasks t = .body taken b) {bt' : Bt} {pc : Pc}
    (hframes : b.Frames s.bt bt') (hstart : ¬ pc.Starting)
    (hl : ∃ l, Registered bt' l ∧ pc.Knows bt'.mem l) :
    Known { s.goto t pc with bt := bt' } := by
  obtain ⟨l, -, hall⟩ := h.known.knows
  obtain ⟨l', hl', hknows⟩ := hl
  have hinside : Inside s t := by
    have hstarted := h.known.started t
    show (s.tasks t).phase.Holds
    rw [hpc] at hstarted ⊢
    cases taken with
    | none => exact absurd rfl hstarted
    | some m => trivial
  refine ⟨?_, ⟨l', hl', ?_⟩, h.known.memory⟩
  · exact (Function.forall_update_iff s.tasks fun _ p => ¬ p.Starting).mpr
      ⟨hstart, fun u _ => h.known.started u⟩
  · apply (Function.forall_update_iff s.tasks fun _ p => p.Knows bt'.mem l').mpr
    refine ⟨hknows, fun u hu => ?_⟩
    apply (hall u).frame (h.known.started u)
    · -- the lock excludes the others
      intro hholds
      exact hu (h.ordered.exclusive u t hholds hinside)
    · intro identifier iterator stop hafter
      have hlink := hall u
      rw [hafter] at hlink
      exact hframes iterator (mem_of_nextOf hlink) (hspares u _ _ _ taken b hafter hpc)

/-- A step between take and give. -/
private theorem run_body_known (h : Guarded s) (hspares : Spares s (.run t ch))
    {taken : Option MutexId} {b : Body} (hpc : s.tasks t = .body taken b)
    (hstep : runTask debounceDelay s t ch = some s') : Known s' := by
  have hnot := h.known.started t
  obtain ⟨l, hl, hall⟩ := h.known.knows
  have hb := hall t
  rw [hpc] at hb hnot
  simp only [runTask, hpc] at hstep
  cases hrun : runBody debounceDelay s.bt ch b with
  | none => rw [hrun] at hstep; cases hstep
  | some o =>
    have hsound := runBody_sound hl hb hrun
    rw [hrun] at hstep
    -- the body goes on, is left or ends the program
    cases o with
    | next bt' b' =>
      cases hstep
      exact body_known h hspares hpc hsound.1 hnot hsound.2
    | leave bt' k =>
      -- `done` returns at once, the others read `next` behind the lock
      by_cases hk : k = .done
      · subst hk
        cases hstep
        obtain ⟨hframes, l', hl', -⟩ := hsound
        exact body_known h hspares hpc hframes hnot ⟨l', hl', trivial⟩
      · have hnext : s' = { s.goto t (.readGive taken k) with bt := bt' } := by
          cases k <;> first | exact absurd rfl hk | exact (Option.some.inj hstep).symm
        rw [hnext]
        exact body_known h hspares hpc hsound.1 hnot hsound.2
    | stop why =>
      cases hstep
      exact h.known.stop hsound

/-- A step behind the give. -/
private theorem run_after_known (h : Known s) {k : After} (hpc : s.tasks t = .after k)
    (hstep : runTask debounceDelay s t ch = some s') : Known s' := by
  obtain ⟨l, hl, hall⟩ := h.knows
  have hk := hall t
  rw [hpc] at hk
  cases k with
  | readNext identifier iterator stop =>
    have hlink : nextOf s.bt.mem iterator = some stop := hk
    simp only [runTask, hpc, runAfter, hlink, Option.some.injEq] at hstep
    subst hstep
    exact h.goto t _ id fun _ _ => rfl
  | exitFailure =>
    cases (by simpa [runTask, hpc, runAfter] using hstep : s.stop .exitFailure = s')
    exact h.stop (by decide)
  | presses ret =>
    simp only [runTask, hpc, runAfter, Option.some.injEq] at hstep
    subst hstep
    exact h.goto t _ id fun _ _ => trivial
  | done =>
    simp only [runTask, hpc, runAfter, Option.some.injEq] at hstep
    subst hstep
    exact h.goto t _ id fun _ _ => trivial

/-- Every step of a task keeps what the tasks know. -/
theorem runTask_known (h : Guarded s) (hspares : Spares s (.run t ch))
    (hstep : runTask debounceDelay s t ch = some s') : Known s' := by
  have hnot := h.known.started t
  have hknown := h.known
  obtain ⟨m₀, hlock, -⟩ := h.ordered.locked.lock
  have hsome : s.lock.isSome = true := by rw [hlock]; rfl
  cases hpc : s.tasks t with
  | test c =>
    simp only [runTask, hpc, hsome, if_true, Option.some.injEq] at hstep
    subst hstep
    exact hknown.goto t _ id fun _ _ => trivial
  | readTake c =>
    simp only [runTask, hpc, hlock, Option.some.injEq] at hstep
    subst hstep
    exact hknown.goto t _ id fun _ _ => trivial
  | take c m =>
    simp only [runTask, hpc] at hstep
    split at hstep
    · cases hstep
      have hgo := hknown.goto t (.body (some m) c.start) (Option.some_ne_none m)
        fun l _ => start_knows c _ l
      exact ⟨hgo.started, hgo.knows, hgo.memory⟩
    · cases hstep
  | body taken b => exact run_body_known h hspares hpc hstep
  | exitTest taken =>
    rw [hpc] at hnot
    simp only [runTask, hpc, hsome, if_true, Option.some.injEq] at hstep
    subst hstep
    exact hknown.goto t (.readGive taken .done) hnot fun _ _ => trivial
  | readGive taken k =>
    rw [hpc] at hnot
    simp only [runTask, hpc, hlock, Option.some.injEq] at hstep
    subst hstep
    apply hknown.goto t (.give taken m₀ k) hnot
    intro l hl
    rw [hpc] at hl
    exact hl
  | give taken m k =>
    -- behind the give only the link of the cursor is relied on
    have hafter : ∀ l, (s.tasks t).Knows s.bt.mem l → (Pc.after k).Knows s.bt.mem l := by
      intro l hl
      rw [hpc] at hl
      cases k with
      | readNext identifier iterator stop => exact hl.1
      | _ => trivial
    have hgo := hknown.goto t (.after k) id hafter
    simp only [runTask, hpc] at hstep
    split at hstep
    · cases hstep
      exact ⟨hgo.started, hgo.knows, hgo.memory⟩
    · split at hstep
      · cases hstep
        exact hgo
      · cases hstep
        exact hknown.stop (by decide)
  | after k => exact run_after_known hknown hpc hstep
  | initCreate => rw [hpc] at hnot; exact absurd trivial hnot
  | initAssign m => rw [hpc] at hnot; exact absurd trivial hnot
  | initSpawn => rw [hpc] at hnot; exact absurd trivial hnot
  | _ => simp [runTask, hpc] at hstep

/-- Every event keeps the invariant while it spares the cursors. -/
theorem Guarded.step (h : Guarded s) {e : Event} (hspares : Spares s e)
    (hstep : step debounceDelay s e = some s') : Guarded s' := by
  refine ⟨h.ordered.step h.owns (h.quiet e) hstep, ?_⟩
  unfold Tasks.step at hstep
  split at hstep
  · cases hstep
  · cases e with
    | run t ch => exact runTask_known h hspares hstep
    | call t c =>
      -- a task that enters a function knows nothing yet
      have hentry : Known (s.goto t c.entry) := by
        apply h.known.goto t c.entry
        · cases c with
          | search c => cases c <;> exact id
          | getPresses => exact id
        · intro _ _
          cases c with
          | search c => cases c <;> trivial
          | getPresses => trivial
      simp only at hstep
      split at hstep
      · cases hstep
        exact hentry
      · cases hstep
        exact hentry
      · cases hstep

/-! ## The result of `buttonFind` -/

/-- While a `buttonFind` holds the lock behind its search, `stop` is the first
    button with its identifier; it returns that, and nobody has read or written a
    freed node. -/
structure FindsRight (s : State) : Prop where
  stops : ∀ t taken m identifier iterator stop,
    (s.tasks t = .readGive taken (.readNext identifier iterator stop) ∨
      s.tasks t = .give taken m (.readNext identifier iterator stop)) →
    ∃ l, Registered s.bt l ∧ stop = found l identifier
  returns : ∀ t result stop, s.tasks t = .returned (.button result stop) → result = stop
  memory : s.stopped ≠ some .badMemory

/-- Under the invariant every search returns what is in the list. -/
theorem Guarded.findsRight (h : Guarded s) : FindsRight s := by
  obtain ⟨l, hl, hall⟩ := h.known.knows
  refine ⟨?_, ?_, h.known.memory⟩
  · intro t taken m identifier iterator stop hpc
    have hknows := hall t
    rcases hpc with hpc | hpc
    · rw [hpc] at hknows
      exact ⟨l, hl, hknows.2⟩
    · rw [hpc] at hknows
      exact ⟨l, hl, hknows.2⟩
  · intro t result stop hpc
    have hknows := hall t
    rw [hpc] at hknows
    exact hknows

/-- `bt.lock` has been created for good, and all tasks are between two calls. -/
structure Ready (s : State) (l : List (Addr × Button)) : Prop where
  lock : ∃ m, s.lock = some m ∧ m < s.mutexCount
  tasks : ∀ t, s.tasks t = .absent ∨ s.tasks t = .idle ∨ s.tasks t = .spinning
  list : Registered s.bt l
  running : s.stopped = none

/-- The tasks start with nobody on the way through the lock. -/
theorem Ready.guarded (h : Ready s l) : Guarded s := by
  refine ⟨⟨⟨h.lock, fun t => ?_⟩, LockCell.Agree.of_out fun t => ?_⟩,
    fun t => ?_, ⟨l, h.list, fun t => ?_⟩, ?_⟩
  · rcases h.tasks t with ht | ht | ht <;> rw [ht] <;> trivial
  · show (s.tasks t).phase = .out
    rcases h.tasks t with ht | ht | ht <;> rw [ht] <;> rfl
  · rcases h.tasks t with ht | ht | ht <;> rw [ht] <;> exact id
  · rcases h.tasks t with ht | ht | ht <;> rw [ht] <;> trivial
  · rw [h.running]
    exact Option.some_ne_none _ ∘ Eq.symm

/-- In every run of the tasks in which no other task ends the link or the life of a
    node a `buttonFind` stands on between its give and its last read, each
    `buttonFind` returns the first button with its identifier at the time it held
    the lock, and no link of a freed node is read. -/
theorem find_returns_stop (debounceDelay : UInt32) (h : Ready s l) (es : List Event)
    (hes : Runs.StepsMeet (Tasks.step debounceDelay) Spares s es) :
    Runs.Always (Tasks.step debounceDelay) FindsRight s es := by
  apply Runs.Always.of_invariant _ _ h.guarded hes
  · intro s hs
    exact hs.findsRight
  · intro s e s' hs hspares hstep
    exact hs.step hspares hstep

/-- A step that touches no node spares all cursors. -/
theorem spares_of_not_touches (h : ∀ taken b, s.tasks u = .body taken b → ∀ a, ¬ b.Touches a) :
    Spares s (.run u ch) :=
  fun _ _ iterator _ taken b _ hb => h taken b hb iterator

/-- Tasks 1 and 2 and the buttons 65 and 66, at the addresses 1 and 2. -/
def twoButtons : State :=
  { bt := { mem := ((Bt.zero.mem.insert 2 ⟨{ Button.zero with identifier := 66 }, none⟩).insert 1
              ⟨{ Button.zero with identifier := 65 }, some 2⟩).insert headAddr
              ⟨Button.zero, some 1⟩,
            buttonCount := 2 },
    lock := some 0, holder := fun _ => none, mutexCount := 1,
    tasks := fun t => if t = 0 then .spinning else if t ≤ 2 then .idle else .absent,
    stopped := none }

/-- The list with two buttons is ready for its tasks. -/
theorem ready_twoButtons : Ready twoButtons
    [(1, { Button.zero with identifier := 65 }), (2, { Button.zero with identifier := 66 })] := by
  refine ⟨⟨0, rfl, Nat.one_pos⟩, fun t => ?_, ⟨rfl, rfl, rfl, rfl, rfl⟩, rfl⟩
  by_cases h₀ : t = 0
  · exact Or.inr (Or.inr (if_pos h₀))
  · by_cases h₂ : t ≤ 2
    · exact Or.inr (Or.inl ((if_neg h₀).trans (if_pos h₂)))
    · exact Or.inl ((if_neg h₀).trans (if_neg h₂))

/-- Task 1 looks for 65 while task 2 starts to delete 66. -/
theorem find_returns_stop_beside_delete :
    Runs.Always (Tasks.step 1) FindsRight twoButtons
      [.call 1 (.search (.find 65)), .run 1 noChoice, .run 1 noChoice,
        .call 2 (.search (.delete 66)), .run 1 noChoice, .run 2 noChoice, .run 1 noChoice] := by
  apply find_returns_stop 1 ready_twoButtons
  apply (Runs.stepsMeet_cons rfl).mpr
  refine ⟨trivial, (Runs.stepsMeet_cons rfl).mpr ⟨?_, (Runs.stepsMeet_cons rfl).mpr ⟨?_,
    (Runs.stepsMeet_cons rfl).mpr ⟨trivial, (Runs.stepsMeet_cons rfl).mpr ⟨?_,
    (Runs.stepsMeet_cons rfl).mpr ⟨?_, (Runs.stepsMeet_cons rfl).mpr ⟨?_, trivial⟩⟩⟩⟩⟩⟩⟩
  all_goals
    apply spares_of_not_touches
    intro taken b hb a
    cases hb
  exact id

/-- Task 1 looks for 66, gives the lock with its cursor on the button 65; task 2
    deletes 65; task 1 reads the link of the freed node. -/
theorem find_reads_freed :
    Ready twoButtons
        [(1, { Button.zero with identifier := 65 }), (2, { Button.zero with identifier := 66 })] ∧
      ¬ Runs.Always (Tasks.step 1) FindsRight twoButtons
        ([.call 1 (.search (.find 66))] ++ List.replicate 6 (.run 1 noChoice) ++
          [.call 2 (.search (.delete 65))] ++ List.replicate 7 (.run 2 noChoice) ++
          [.run 1 noChoice]) := by
  refine ⟨ready_twoButtons, fun h => ?_⟩
  exact (h.final rfl).memory rfl

end Buttons.Tasks
