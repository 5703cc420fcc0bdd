import CSnippets.ForStd.RecordCopy
import CSnippets.ForStd.Runs
import CSnippets.Native.AiGovernor

/-!
# What a request of the governor returns

`Driver.view` reads the driver as a record that is copied field by field: every step of the
driver is one of `RecordCopy` (`Turn.view`), in kernels before 2.6.35 with sections that do
not overlap. A request that is served while no other is in the driver does what
`aiGovIoctl` says, in whatever order its accesses are made.
-/

namespace Governor

/-! ## Fields -/

/-- The list of fields misses none. -/
theorem mem_fields (f : Field) : f ∈ fields := by
  cases f <;> decide

/-- Assigning one field updates the record in that field. -/
theorem field_assign (g : AiGovernor) (v : UInt32) (f : Field) :
    (g.assign v f).field = Function.update g.field f v := by
  funext f'
  cases f <;> cases f' <;> rfl

/-- A record is determined by its fields. -/
theorem field_inj {g g' : AiGovernor} (h : g.field = g'.field) : g = g' := by
  obtain ⟨⟨minFreq, maxFreq, desired, current⟩, phase⟩ := g
  obtain ⟨⟨minFreq', maxFreq', desired', current'⟩, phase'⟩ := g'
  obtain rfl : minFreq = minFreq' := congrFun h .minFreq
  obtain rfl : maxFreq = maxFreq' := congrFun h .maxFreq
  obtain rfl : desired = desired' := congrFun h .desiredFrameRate
  obtain rfl : current = current' := congrFun h .currentFrameRate
  obtain rfl : phase = phase' := congrFun h .phase
  rfl

/-! ## The driver as a record that is copied -/

/-- The copy that a task is at, if it is at one. -/
def Place.toSection : Place → Option (RecordCopy.Section Field UInt32)
  | .memcpy left g => some (.load left g.field)
  | .copyToUser _ => none
  | .copyFromUser => none
  | .assign left g => some (.store left g.field)

/-- The copy that has been completed. -/
def Access.toAccess : Access → RecordCopy.Access Field UInt32 Task
  | .got t g => .loaded t g.field
  | .set t g => .stored t g.field

/-- The driver as the record, the copies under way and those completed. -/
def Driver.view (d : Driver) : RecordCopy.State Field UInt32 Task :=
  { shared := d.current.field
    sections := fun t => (d.tasks t).bind Place.toSection
    history := d.accesses.map Access.toAccess }

/-- The records that the event begins to assign. -/
def stores (word : BitVec 14) : Event → List AiGovernor
  | .call _ cmd _ =>
    if cmd = governorGetVariables word then []
    else if cmd = governorClrVariables then [clrVariables]
    else if cmd = governorSetVariables word then []
    else if cmd = governorOtherFunct then [otherFunct]
    else []
  | .copyFromUser _ (some g) => [g]
  | _ => []

variable {entry : Entry} {word : BitVec 14} {d d' : Driver} {t : Task} {place : Option Place}
  {e : Event} {written new : List AiGovernor} {g : AiGovernor} {f : Field}

/-- The task is at none of its accesses. -/
def Out (d : Driver) (t : Task) : Prop := d.view.sections t = none

/-- When a task moves, its section changes and nothing else does. -/
theorem view_goto : (d.goto t place).view = d.view.put t (place.bind Place.toSection) := by
  have hsections : (fun u => (Function.update d.tasks t place u).bind Place.toSection) =
      Function.update (fun u => (d.tasks u).bind Place.toSection) t
        (place.bind Place.toSection) :=
    funext fun u => Function.apply_update (fun _ (p : Option Place) => p.bind Place.toSection)
      d.tasks t place u
  simp only [Driver.view, Driver.goto, RecordCopy.State.put, hsections]

/-- A task that is out and stays out. -/
theorem view_goto_out (hout : Out d t) (hplace : place.bind Place.toSection = none) :
    (d.goto t place).view = d.view := by
  rw [view_goto, hplace, RecordCopy.State.put]
  show { d.view with sections := Function.update d.view.sections t none } = d.view
  rw [← hout, Function.update_eq_self]

/-- A task that is not at an access is out. -/
theorem out_of_tasks (h : d.tasks t = place) (hplace : place.bind Place.toSection = none) :
    Out d t := by
  show (d.tasks t).bind Place.toSection = none
  rw [h, hplace]

/-! ## What a step does -/

/-- A step of the driver, and the records that it begins to assign. -/
inductive Turn (entry : Entry) (d : Driver) : List AiGovernor → Driver → Prop where
  | answer (t : Task) (ret : Int) (user : Option AiGovernor) (hout : Out d t)
      (huser : ∀ g, user = some g → d.tasks t = some (.copyToUser g)) :
    Turn entry d [] (d.answer t ret user)
  | await (t : Task) (hout : Out d t) : Turn entry d [] (d.goto t (some .copyFromUser))
  | load (t : Task) (g : AiGovernor) (d' : Driver) (hout : Out d t)
      (henter : d.enter entry t (.memcpy fields g) = some d') : Turn entry d [] d'
  | store (t : Task) (g : AiGovernor) (d' : Driver) (hout : Out d t)
      (henter : d.enter entry t (.assign fields g) = some d') : Turn entry d [g] d'
  | fetch (t : Task) (f : Field) (left : List Field) (g : AiGovernor)
      (hplace : d.tasks t = some (.memcpy left g)) :
    Turn entry d []
      (d.goto t (some (.memcpy (left.erase f) (g.assign (d.current.field f) f))))
  | put (t : Task) (f : Field) (left : List Field) (g : AiGovernor)
      (hplace : d.tasks t = some (.assign left g)) :
    Turn entry d []
      { d.goto t (some (.assign (left.erase f) g)) with
          current := d.current.assign (g.field f) f }
  | got (t : Task) (g : AiGovernor) (hplace : d.tasks t = some (.memcpy [] g)) :
    Turn entry d []
      { d.goto t (some (.copyToUser g)) with
          lock := none, accesses := d.accesses ++ [.got t g] }
  | set (t : Task) (g : AiGovernor) (hplace : d.tasks t = some (.assign [] g)) :
    Turn entry d []
      { d.answer t 0 none with lock := none, accesses := d.accesses ++ [.set t g] }

/-- A request is answered, waits for the user's memory, or begins its accesses. -/
theorem call_turn (hout : Out d t) {cmd : BitVec 32} (h : call entry word d t cmd g = some d') :
    Turn entry d (stores word (.call t cmd g)) d' := by
  rw [call] at h
  rw [stores]
  -- one split for each case of the switch, in the order of the source
  split at h
  · rw [if_pos ‹_›]
    exact .load t g d' hout h
  · rw [if_neg ‹_›]
    split at h
    · rw [if_pos ‹_›]
      exact .store t _ d' hout h
    · rw [if_neg ‹_›]
      split at h
      · rw [if_pos ‹_›]
        obtain rfl := Option.some.inj h
        exact .await t hout
      · rw [if_neg ‹_›]
        split at h
        · rw [if_pos ‹_›]
          exact .store t _ d' hout h
        · rw [if_neg ‹_›]
          obtain rfl := Option.some.inj h
          exact .answer t _ none hout nofun

/-- All that a step can do. -/
theorem step_turn (h : step entry word d e = some d') : Turn entry d (stores word e) d' := by
  cases e with
  | call t cmd g =>
    rw [step] at h
    split at h
    · rename_i htask
      exact call_turn (out_of_tasks htask rfl) h
    · -- a task calls only while it is not in the driver
      cases h
  | access t f =>
    simp only [step] at h
    split at h
    · -- a field that has not been read yet
      rename_i left g hplace
      split at h
      · obtain rfl := Option.some.inj h
        exact .fetch t f left g hplace
      · cases h
    · -- a field that has not been assigned yet
      rename_i left g hplace
      split at h
      · obtain rfl := Option.some.inj h
        exact .put t f left g hplace
      · cases h
    · cases h
  | finish t =>
    simp only [step] at h
    split at h
    · -- all fields have been read
      rename_i g hplace
      obtain rfl := Option.some.inj h
      exact .got t g hplace
    · -- all fields have been assigned
      rename_i g hplace
      obtain rfl := Option.some.inj h
      exact .set t g hplace
    · cases h
  | copyToUser t ok =>
    simp only [step] at h
    split at h
    · rename_i g hplace
      -- the copy to the user is made outside the lock
      have hout : Out d t := out_of_tasks hplace rfl
      obtain rfl := Option.some.inj h
      cases ok with
      | true => exact .answer t 0 (some g) hout fun _ heq => Option.some.inj heq ▸ hplace
      | false => exact .answer t _ none hout nofun
    · cases h
  | copyFromUser t contents =>
    simp only [step] at h
    split at h
    · rename_i hplace
      -- what cannot be read is answered, what can is assigned
      have hout : Out d t := out_of_tasks hplace rfl
      split at h
      · obtain rfl := Option.some.inj h
        exact .answer t _ none hout nofun
      · rename_i g
        exact .store t g d' hout h
    · cases h

/-! ## The big kernel lock -/

/-- Whoever is at its accesses has the big kernel lock, if there is one. -/
def Locked (entry : Entry) (d : Driver) : Prop :=
  entry = .ioctl → ∀ t, ¬ Out d t → d.lock = some t

/-- While the lock is free nobody is at an access. -/
theorem Locked.idle (h : Locked entry d) (hentry : entry = .ioctl) (hlock : d.lock = none) :
    d.view.Idle := by
  intro t
  by_contra hin
  rw [h hentry t hin] at hlock
  cases hlock

/-- A task gets in at once, or it takes the lock. -/
theorem enter_cases {place : Place} (h : d.enter entry t place = some d') :
    ∃ lock, d' = { d.goto t (some place) with lock := lock } ∧
      (entry = .ioctl → d.lock = none ∧ lock = some t) := by
  cases entry with
  | ioctl =>
    rw [Driver.enter] at h
    split at h
    · rename_i hfree
      exact ⟨some t, (Option.some.inj h).symm, fun _ => ⟨hfree, rfl⟩⟩
    · cases h
  | unlockedIoctl =>
    rw [Driver.enter] at h
    exact ⟨d.lock, (Option.some.inj h).symm, nofun⟩

/-- Where the tasks are after one of them has moved. -/
theorem out_goto {u : Task} :
    Out (d.goto t place) u ↔ if u = t then place.bind Place.toSection = none else Out d u := by
  unfold Out
  rw [view_goto]
  split
  · rename_i hu
    rw [hu, RecordCopy.put_self]
  · rename_i hu
    rw [RecordCopy.put_of_ne hu]

/-- A task that stays out, or one that stays in. -/
theorem Locked.goto (h : Locked entry d)
    (hsame : Out d t → place.bind Place.toSection = none) : Locked entry (d.goto t place) := by
  intro hentry u hin
  apply h hentry u
  intro hout
  apply hin
  rw [out_goto]
  split
  · rename_i hu
    exact hsame (hu ▸ hout)
  · exact hout

/-- The task that was in gives the lock back. -/
theorem Locked.leave (h : Locked entry d) (hin : ¬ Out d t)
    (hplace : place.bind Place.toSection = none) :
    Locked entry { d.goto t place with lock := none } := by
  intro hentry u hu
  exfalso
  have hu' : ¬ Out (d.goto t place) u := hu
  rw [out_goto] at hu'
  split at hu'
  · exact hu' hplace
  · -- nobody else was in
    rename_i hne
    have hlock := h hentry t hin
    rw [h hentry u hu'] at hlock
    exact hne (Option.some.inj hlock)

/-- Entering keeps the lock with the only task at its accesses: nobody was in before. -/
theorem Locked.enter (h : Locked entry d) {place : Place}
    (henter : d.enter entry t place = some d') : Locked entry d' := by
  obtain ⟨lock, rfl, hlock⟩ := enter_cases henter
  intro hentry u hu
  obtain ⟨hfree, rfl⟩ := hlock hentry
  have hu' : ¬ Out (d.goto t (some place)) u := hu
  rw [out_goto] at hu'
  split at hu'
  · rename_i hut
    exact congrArg some hut.symm
  · exact absurd (h.idle hentry hfree u) hu'

/-- A task that is at an access is in. -/
theorem in_of_tasks {sec : RecordCopy.Section Field UInt32} (h : d.tasks t = place)
    (hplace : place.bind Place.toSection = some sec) : ¬ Out d t := by
  intro hout
  have hsec : (d.tasks t).bind Place.toSection = none := hout
  rw [h, hplace] at hsec
  cases hsec

/-- Every step keeps the lock with the task that is at its accesses. -/
theorem Turn.locked (hturn : Turn entry d new d') (h : Locked entry d) : Locked entry d' := by
  cases hturn with
  | answer t ret user hout huser => exact h.goto fun _ => rfl
  | await t hout => exact h.goto fun _ => rfl
  | load t g d' hout henter => exact h.enter henter
  | store t g d' hout henter => exact h.enter henter
  | fetch t f left g hplace => exact h.goto fun hout => absurd hout (in_of_tasks hplace rfl)
  | put t f left g hplace =>
    have hgoto : Locked entry (d.goto t (some (.assign (left.erase f) g))) :=
      h.goto fun hout => absurd hout (in_of_tasks hplace rfl)
    exact hgoto
  | got t g hplace => exact h.leave (in_of_tasks hplace rfl) rfl
  | set t g hplace => exact h.leave (in_of_tasks hplace rfl) rfl

/-- Every step is one of copying a record. -/
theorem Turn.view (hturn : Turn entry d new d') (h : Locked entry d) :
    RecordCopy.Step (entry = .ioctl) d.view (new.map AiGovernor.field) d'.view := by
  cases hturn with
  | answer t ret user hout huser =>
    -- no copy is begun or completed
    show RecordCopy.Step _ d.view [] (d.goto t none).view
    rw [view_goto_out hout rfl]
    exact .stay
  | await t hout =>
    rw [view_goto_out hout rfl]
    exact .stay
  | load t g d' hout henter =>
    -- with the lock a section begins only while no other is under way
    obtain ⟨lock, rfl, hlock⟩ := enter_cases henter
    show RecordCopy.Step _ d.view [] (d.goto t _).view
    rw [view_goto]
    exact .enterLoad t fields g.field mem_fields fun hentry => h.idle hentry (hlock hentry).1
  | store t g d' hout henter =>
    obtain ⟨lock, rfl, hlock⟩ := enter_cases henter
    show RecordCopy.Step _ d.view [g.field] (d.goto t _).view
    rw [view_goto]
    exact .enterStore t fields g.field mem_fields fun hentry => h.idle hentry (hlock hentry).1
  | fetch t f left g hplace =>
    rw [view_goto]
    show RecordCopy.Step _ d.view [] (d.view.put t (some (.load (left.erase f) _)))
    rw [field_assign]
    exact .load t f left g.field (congrArg (·.bind Place.toSection) hplace)
  | put t f left g hplace =>
    -- the task and the variables change together
    have hview : Driver.view { d.goto t (some (.assign (left.erase f) g)) with
          current := d.current.assign (g.field f) f } =
        { d.view.put t (some (.store (left.erase f) g.field)) with
            shared := Function.update d.view.shared f (g.field f) } := by
      show { (d.goto t _).view with shared := (d.current.assign (g.field f) f).field } = _
      rw [view_goto, field_assign]
      rfl
    rw [hview]
    exact .store t f left g.field (congrArg (·.bind Place.toSection) hplace)
  | got t g hplace =>
    -- the copy is complete, and is logged as read
    have hview : Driver.view { d.goto t (some (.copyToUser g)) with
          lock := none, accesses := d.accesses ++ [.got t g] } =
        { d.view.put t none with history := d.view.history ++ [.loaded t g.field] } := by
      show { (d.goto t _).view with
               history := (d.accesses ++ [Access.got t g]).map Access.toAccess } = _
      rw [view_goto, List.map_append]
      rfl
    rw [hview]
    exact .leaveLoad t g.field (congrArg (·.bind Place.toSection) hplace)
  | set t g hplace =>
    -- the copy is complete, and is logged as written
    have hview : Driver.view { d.answer t 0 none with
          lock := none, accesses := d.accesses ++ [.set t g] } =
        { d.view.put t none with history := d.view.history ++ [.stored t g.field] } := by
      show { (d.goto t none).view with
               history := (d.accesses ++ [Access.set t g]).map Access.toAccess } = _
      rw [view_goto, List.map_append]
      rfl
    rw [hview]
    exact .leaveStore t g.field (congrArg (·.bind Place.toSection) hplace)

/-! ## What the user is given -/

/-- What has been copied to a user, or is about to be, was read off the variables before. -/
structure Copied (d : Driver) : Prop where
  tasks : ∀ t g, d.tasks t = some (.copyToUser g) → .got t g ∈ d.accesses
  answers : ∀ t a g, (t, a) ∈ d.answers → a.user = some g → .got t g ∈ d.accesses

/-- A task that goes to copy a record to its user has read that record. -/
theorem Copied.goto (h : Copied d)
    (hplace : ∀ g, place = some (.copyToUser g) → .got t g ∈ d.accesses) :
    Copied (d.goto t place) where
  answers := h.answers
  tasks u g hu := by
    replace hu : Function.update d.tasks t place u = some (.copyToUser g) := hu
    by_cases hut : u = t
    · subst hut
      rw [Function.update_self] at hu
      exact hplace g hu
    · rw [Function.update_of_ne hut] at hu
      exact h.tasks u g hu

/-- An answer brings the user a record that was read. -/
theorem Copied.answer (h : Copied d) {ret : Int} {user : Option AiGovernor}
    (huser : ∀ g, user = some g → .got t g ∈ d.accesses) : Copied (d.answer t ret user) where
  tasks :=
    have hgoto : Copied (d.goto t none) := h.goto nofun
    hgoto.tasks
  answers u a g ha hg := by
    obtain ha | ha := List.mem_append.mp ha
    · exact h.answers u a g ha hg
    · cases List.mem_singleton.mp ha
      exact huser g hg

/-- More accesses, and whoever has the lock, make no difference to what was read. -/
theorem Copied.log (h : Copied d) {lock : Option Task} {accesses : List Access} :
    Copied { d with lock := lock, accesses := d.accesses ++ accesses } where
  tasks t g hplace := List.mem_append_left accesses (h.tasks t g hplace)
  answers t a g ha hg := List.mem_append_left accesses (h.answers t a g ha hg)

/-- Every step keeps what users are given among the records read. -/
theorem Turn.copied (hturn : Turn entry d new d') (h : Copied d) : Copied d' := by
  cases hturn with
  | answer t ret user hout huser => exact h.answer fun g hg => h.tasks t g (huser g hg)
  | await t hout => exact h.goto nofun
  | load t g d' hout henter =>
    obtain ⟨lock, rfl, -⟩ := enter_cases henter
    have hgoto : Copied (d.goto t (some (.memcpy fields g))) := h.goto nofun
    exact { hgoto with }
  | store t g d' hout henter =>
    obtain ⟨lock, rfl, -⟩ := enter_cases henter
    have hgoto : Copied (d.goto t (some (.assign fields g))) := h.goto nofun
    exact { hgoto with }
  | fetch t f left g hplace => exact h.goto nofun
  | put t f left g hplace =>
    have hgoto : Copied (d.goto t (some (.assign (left.erase f) g))) := h.goto nofun
    exact { hgoto with }
  | got t g hplace =>
    -- the record is logged in the step that makes it ready for its user
    have hlog : Copied { d with lock := none, accesses := d.accesses ++ [.got t g] } := h.log
    apply hlog.goto
    rintro _ ⟨⟩
    exact List.mem_append_right _ (List.mem_singleton_self _)
  | set t g hplace =>
    have hlog : Copied { d with lock := none, accesses := d.accesses ++ [.set t g] } := h.log
    exact hlog.answer nofun

/-! ## Runs -/

/-- What every step keeps; `written` are the records that anybody has begun to assign. -/
structure Kept (entry : Entry) (written : List AiGovernor) (d : Driver) : Prop where
  locked : Locked entry d
  copied : Copied d
  sourced : RecordCopy.Sourced (written.map AiGovernor.field) d.view
  serial : entry = .ioctl → RecordCopy.Serial AiGovernor.zero.field d.view

/-- Every step keeps all parts of the invariant. -/
theorem Kept.step (h : Kept entry written d) (hstep : step entry word d e = some d') :
    Kept entry (written ++ stores word e) d' := by
  have hturn := step_turn hstep
  -- that sections do not overlap comes from the lock, so `locked` is needed first
  have hview := hturn.view h.locked
  exact
    { locked := hturn.locked h.locked
      copied := hturn.copied h.copied
      sourced := by
        rw [List.map_append]
        exact h.sourced.step hview
      serial := fun hentry => (h.serial hentry).step hentry hview }

/-- The driver starts with zeroed variables and with nobody in it. -/
theorem start_kept : Kept entry [.zero] Driver.start where
  locked _ _ hin := absurd rfl hin
  copied := { tasks := nofun, answers := nofun }
  sourced :=
    { shared := fun _ => ⟨_, List.mem_singleton_self _, rfl⟩
      sections := nofun
      history := nofun }
  serial _ :=
    { legal := trivial
      alone := ⟨0, fun _ _ => rfl, rfl⟩ }

/-- The invariant holds at the end of every run. -/
theorem run_kept {es : List Event} (hrun : es.foldlM (Governor.step entry word) .start = some d) :
    Kept entry (.zero :: es.flatMap (stores word)) d :=
  Runs.run_gathers (J := Kept entry) (fun _ _ _ _ h hstep => h.step hstep) start_kept hrun

/-- Each field of the record is the one of some record in the list. -/
def FieldsFrom (written : List AiGovernor) (g : AiGovernor) : Prop :=
  ∀ f, ∃ w ∈ written, w.field f = g.field f

/-- Fields that come from the written records as functions come from the records. -/
theorem fieldsFrom_of_sourced
    (h : ∀ f, RecordCopy.From (written.map AiGovernor.field) f (g.field f)) :
    FieldsFrom written g := by
  intro f
  obtain ⟨r, hr, hf⟩ := h f
  obtain ⟨w, hw, rfl⟩ := List.mem_map.mp hr
  exact ⟨w, hw, hf⟩

/-- In every interleaving of any number of requests, each field of what a request returns is
    zero, or the one of a request that had begun to assign its values before. -/
theorem get_fields_written (entry : Entry) (word : BitVec 14) (es : List Event) (d : Driver)
    (hrun : es.foldlM (Governor.step entry word) .start = some d) :
    FieldsFrom (.zero :: es.flatMap (stores word)) d.current ∧
      ∀ t a g, (t, a) ∈ d.answers → a.user = some g →
        FieldsFrom (.zero :: es.flatMap (stores word)) g := by
  have hkept := run_kept hrun
  refine ⟨fieldsFrom_of_sourced hkept.sourced.shared, fun t a g ha hg => ?_⟩
  have hgot : Access.toAccess (.got t g) ∈ d.view.history :=
    List.mem_map_of_mem (hkept.copied.answers t a g ha hg)
  exact fieldsFrom_of_sourced (hkept.sourced.history _ hgot)

/-! ### The big kernel lock makes the variables a register -/

/-- What the variables have been set to last. -/
def lastSet (g : AiGovernor) : List Access → AiGovernor
  | [] => g
  | .got _ _ :: accesses => lastSet g accesses
  | .set _ g' :: accesses => lastSet g' accesses

/-- The last record set is the last one the view has stored. -/
theorem last_map (g : AiGovernor) (accesses : List Access) :
    RecordCopy.last g.field (accesses.map Access.toAccess) = (lastSet g accesses).field := by
  induction accesses generalizing g with
  | nil => rfl
  | cons a accesses ih =>
    cases a with
    | got t g' => exact ih g
    | set t g' => exact ih g'

/-- In kernels before 2.6.35 every request that has read all fields has read what the last one
    before it that assigned all of its fields had assigned, as a whole; and only that is
    what a user is given. -/
theorem ioctl_register (word : BitVec 14) (es : List Event) (d : Driver)
    (hrun : es.foldlM (Governor.step .ioctl word) .start = some d) :
    (∀ before t g after, d.accesses = before ++ .got t g :: after → g = lastSet .zero before) ∧
      ∀ t a g, (t, a) ∈ d.answers → a.user = some g → .got t g ∈ d.accesses := by
  have hkept := run_kept hrun
  refine ⟨fun before t g after hsplit => ?_, hkept.copied.answers⟩
  have hlegal : RecordCopy.Legal AiGovernor.zero.field (d.accesses.map Access.toAccess) :=
    (hkept.serial rfl).legal
  rw [hsplit, List.map_append] at hlegal
  apply field_inj
  rw [← last_map]
  exact hlegal.loaded_eq

/-- A request reads the first field, and the rest of it only after another one has assigned
    its values. -/
def tornGet : List Event :=
  [.call 1 (governorGetVariables 8) .zero, .access 1 .minFreq, .call 2 governorClrVariables .zero] ++
    fields.map (.access 2) ++ [.finish 2] ++ (fields.tail.map (.access 1) ++
    [.finish 1, .copyToUser 1 true])

/-- What it returns is neither what was there before nor what the other one has assigned: its
    first field is of the one and the others are of the other. -/
theorem get_fields_written_torn :
    ∃ d g, tornGet.foldlM (step .unlockedIoctl 8) .start = some d ∧
      (1, { ret := 0, user := some g }) ∈ d.answers ∧
      FieldsFrom (.zero :: tornGet.flatMap (stores 8)) g ∧
      tornGet.flatMap (stores 8) = [clrVariables] ∧ g ≠ .zero ∧ g ≠ clrVariables :=
  have hrun : tornGet.foldlM (step .unlockedIoctl 8) .start =
      some ((tornGet.foldlM (step .unlockedIoctl 8) .start).getD .start) := rfl
  have hanswer : (1, { ret := 0, user := some (clrVariables.assign 0 .minFreq) }) ∈
      ((tornGet.foldlM (step .unlockedIoctl 8) .start).getD .start).answers := by decide
  ⟨_, _, hrun, hanswer, (get_fields_written .unlockedIoctl 8 tornGet _ hrun).2 1 _ _ hanswer rfl,
    rfl, by decide, by decide⟩

/-- A request that assigns, and one that reads. -/
def lockedGet : List Event :=
  [.call 2 governorClrVariables .zero] ++ fields.map (.access 2) ++
    [.finish 2, .call 1 (governorGetVariables 8) .zero] ++ fields.map (.access 1) ++
    [.finish 1, .copyToUser 1 true]

/-- The read in `lockedGet` returns what the request before it assigned. -/
theorem ioctl_register_get : clrVariables = lastSet .zero [.set 2 clrVariables] :=
  (ioctl_register 8 lockedGet ((lockedGet.foldlM (step .ioctl 8) .start).getD .start) rfl).1
    [.set 2 clrVariables] 1 clrVariables [] (by decide)

end Governor
