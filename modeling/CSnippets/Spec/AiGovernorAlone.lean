import Mathlib.Data.List.Perm.Basic
import CSnippets.Spec.AiGovernorCorrect

/-!
# One request after the other

A request that is served while no other is in the driver does what `aiGovIoctl` says, in
whatever order its accesses are made; so requests that are served one after the other do
what `aiGovIoctl` says of them in turn.
-/

namespace Governor

/-- What a task asks for: the arguments of `ioctl`, what lies on the stack where the local
    `g` is, and the order in which the accesses are made. -/
structure Request where
  task : Task
  cmd : BitVec 32
  arg : UserMemory
  stack : AiGovernor
  order : List Field
  all_fields : order.Perm fields

/-- The accesses to the variables, up to the last. -/
def Request.accesses (r : Request) : List Event := r.order.map (.access r.task) ++ [.finish r.task]

/-- All events of the request. -/
def Request.events (word : BitVec 14) (r : Request) : List Event :=
  .call r.task r.cmd r.stack ::
    (if r.cmd = governorGetVariables word then
      r.accesses ++ [.copyToUser r.task r.arg.writable]
    else if r.cmd = governorClrVariables then r.accesses
    else if r.cmd = governorSetVariables word then
      .copyFromUser r.task r.arg.contents :: (if r.arg.contents = none then [] else r.accesses)
    else if r.cmd = governorOtherFunct then r.accesses
    else [])

/-- The requests as `aiGovIoctl` answers them one after the other. -/
def serve (word : BitVec 14) (current : AiGovernor) :
    List Request → List (Task × Answer) × AiGovernor
  | [] => ([], current)
  | r :: rs =>
    let served := aiGovIoctl word r.cmd r.arg current
    let rest := serve word served.2 rs
    ((r.task, served.1) :: rest.1, rest.2)

/-- No request is being served. -/
structure Free (d : Driver) : Prop where
  tasks : ∀ t, d.tasks t = none
  lock : d.lock = none

variable {entry : Entry} {word : BitVec 14} {d d' : Driver} {t : Task} {order left : List Field}
  {g : AiGovernor} {place place' : Option Place}

/-- A task is where it went last. -/
theorem goto_goto : (d.goto t place).goto t place' = d.goto t place' := by
  simp only [Driver.goto, Function.update_idem]

/-- A task is where it went. -/
theorem goto_tasks : (d.goto t place).tasks t = place := Function.update_self ..

/-- Going where the task already is changes nothing. -/
theorem goto_eq_self (h : d.tasks t = place) : d.goto t place = d := by
  rw [Driver.goto, ← h, Function.update_eq_self]

/-! ## The accesses of one request -/

/-- After its first access a request has the other fields left. -/
theorem mem_of_perm_cons {f f' : Field} (h : (f :: order).Perm left) :
    f' ∈ left ↔ f' = f ∨ f' ∈ left.erase f := by
  rw [← h.mem_iff, List.mem_cons, (List.cons_perm_iff_perm_erase.mp h).2.mem_iff]

/-- What has been copied after `f` and then what was left. -/
theorem ite_erase {f f' : Field} (h : (f :: order).Perm left) (v v' : Field → UInt32) :
    (if f' ∈ left.erase f then v f' else Function.update v' f (v f) f') =
      if f' ∈ left then v f' else v' f' := by
  have hmem : f' ∈ left ↔ f' = f ∨ f' ∈ left.erase f := mem_of_perm_cons h
  by_cases herase : f' ∈ left.erase f
  · rw [if_pos herase, if_pos (hmem.mpr (Or.inr herase))]
  · rw [if_neg herase]
    by_cases hf : f' = f
    · rw [if_pos (hmem.mpr (Or.inl hf)), hf, Function.update_self]
    · rw [if_neg fun hleft => (hmem.mp hleft).elim hf herase, Function.update_of_ne hf]

/-- `memcpy` in any order of the fields -/
theorem run_fetch (entry : Entry) (word : BitVec 14) (hperm : order.Perm left)
    (hplace : d.tasks t = some (.memcpy left g)) :
    ∃ g', (order.map (.access t)).foldlM (step entry word) d =
        some (d.goto t (some (.memcpy [] g'))) ∧
      ∀ f, g'.field f = if f ∈ left then d.current.field f else g.field f := by
  induction order generalizing left d g with
  | nil =>
    -- no access is left: the task is where it was
    obtain rfl := hperm.nil_eq
    refine ⟨g, ?_, fun f => rfl⟩
    rw [goto_eq_self hplace]
    rfl
  | cons f order ih =>
    have hmem : f ∈ left := hperm.mem_iff.mp List.mem_cons_self
    -- the first access leaves the same fields to the others
    obtain ⟨g', hrun, hfields⟩ :=
      ih (List.cons_perm_iff_perm_erase.mp hperm).2 (goto_tasks (d := d))
    refine ⟨g', ?_, fun f' => ?_⟩
    · rw [List.map_cons, List.foldlM_cons, step, hplace]
      simp only [if_pos hmem]
      rw [goto_goto] at hrun
      exact hrun
    · rw [hfields f', field_assign]
      exact ite_erase hperm d.current.field g.field

/-- The assignments in any order. -/
theorem run_put (entry : Entry) (word : BitVec 14) (hperm : order.Perm left)
    (hplace : d.tasks t = some (.assign left g)) :
    ∃ current, (order.map (.access t)).foldlM (step entry word) d =
        some { d.goto t (some (.assign [] g)) with current := current } ∧
      ∀ f, current.field f = if f ∈ left then g.field f else d.current.field f := by
  induction order generalizing left d with
  | nil =>
    -- no access is left: the task is where it was
    obtain rfl := hperm.nil_eq
    refine ⟨d.current, ?_, fun f => rfl⟩
    rw [goto_eq_self hplace]
    rfl
  | cons f order ih =>
    have hmem : f ∈ left := hperm.mem_iff.mp List.mem_cons_self
    -- the driver after the first assignment
    let d₁ : Driver := { d.goto t (some (.assign (left.erase f) g)) with
      current := d.current.assign (g.field f) f }
    have hplace₁ : d₁.tasks t = some (.assign (left.erase f) g) := goto_tasks (d := d)
    obtain ⟨current, hrun, hfields⟩ := ih (List.cons_perm_iff_perm_erase.mp hperm).2 hplace₁
    refine ⟨current, ?_, fun f' => ?_⟩
    · rw [List.map_cons, List.foldlM_cons, step, hplace]
      simp only [if_pos hmem]
      show (order.map (Event.access t)).foldlM (step entry word) d₁ = _
      rw [hrun]
      simp only [Driver.goto, d₁, Function.update_idem]
    · have hcurrent : d₁.current.field = Function.update d.current.field f (g.field f) :=
        field_assign _ _ f
      rw [hfields f', hcurrent]
      exact ite_erase hperm g.field d.current.field

/-! ## One request -/

/-- Nobody has to wait for a driver that is free. -/
theorem Free.enter (h : Free d) (entry : Entry) (t : Task) (place : Place) : ∃ lock,
    d.enter entry t place = some { d.goto t (some place) with lock := lock } := by
  cases entry with
  | ioctl => exact ⟨some t, if_pos h.lock⟩
  | unlockedIoctl => exact ⟨d.lock, rfl⟩

/-- The task that was in the driver leaves it. -/
theorem Free.leave (h : Free d) (u : Task) :
    Function.update (Function.update d.tasks t place) t none u = none := by
  rw [Function.update_idem]
  by_cases hu : u = t
  · rw [hu, Function.update_self]
  · rw [Function.update_of_ne hu]
    exact h.tasks u

/-- After the last read the lock is given back and the copy for the user is ready. -/
theorem finish_memcpy (hplace : d.tasks t = some (.memcpy [] g)) :
    step entry word d (.finish t) = some { d.goto t (some (.copyToUser g)) with
      lock := none, accesses := d.accesses ++ [.got t g] } := by
  rw [step, hplace]

/-- After the last assignment the lock is given back and the request answers 0. -/
theorem finish_assign (hplace : d.tasks t = some (.assign [] g)) :
    step entry word d (.finish t) = some { d.answer t 0 none with
      lock := none, accesses := d.accesses ++ [.set t g] } := by
  rw [step, hplace]

/-- All fields are those of `g`. -/
theorem eq_of_fields {g' : AiGovernor} {v : Field → UInt32}
    (h : ∀ f, g'.field f = if f ∈ fields then g.field f else v f) : g' = g :=
  field_inj (funext fun f => (h f).trans (if_pos (mem_fields f)))

/-- Moving on keeps the lock, and forgets the place in between. -/
theorem goto_lock_goto {lock : Option Task} :
    Driver.goto { d.goto t place with lock := lock } t place' =
      { d.goto t place' with lock := lock } := by
  simp only [Driver.goto, Function.update_idem]

/-- From the moment when the task begins to assign. -/
theorem run_assign (entry : Entry) (word : BitVec 14) (h : Free d) (lock : Option Task)
    (r : Request) (g : AiGovernor) :
    ∃ d', r.accesses.foldlM (step entry word)
        { d.goto r.task (some (.assign fields g)) with lock := lock } = some d' ∧
      d'.current = g ∧ d'.answers = d.answers ++ [(r.task, { ret := 0, user := none })] ∧
      Free d' := by
  obtain ⟨current, hrun, hfields⟩ :=
    run_put entry word r.all_fields
      (d := { d.goto r.task (some (.assign fields g)) with lock := lock }) goto_tasks
  obtain rfl : current = g := eq_of_fields hfields
  rw [goto_lock_goto] at hrun
  rw [Request.accesses, List.foldlM_append, hrun]
  let d₁ : Driver := { d.goto r.task (some (.assign [] current)) with
    lock := lock, current := current }
  have hfinish : step entry word d₁ (.finish r.task) = _ := finish_assign goto_tasks
  exact ⟨_, congrArg (· >>= pure) hfinish, rfl, rfl, fun u => h.leave u, rfl⟩

/-- What the request answers depends on whether the user's memory can be written. -/
theorem copy_to_user (hplace : d.tasks t = some (.copyToUser g)) (ok : Bool) :
    step entry word d (.copyToUser t ok) =
      some (if ok then d.answer t 0 (some g) else d.answer t (-eacces) none) := by
  rw [step, hplace]

/-- What a task is answered that has read all variables. -/
def getAnswer (ok : Bool) (g : AiGovernor) : Answer :=
  if ok then { ret := 0, user := some g } else { ret := -eacces, user := none }

/-- From the moment when the task begins to read. -/
theorem run_memcpy (entry : Entry) (word : BitVec 14) (h : Free d) (lock : Option Task)
    (r : Request) (ok : Bool) :
    ∃ d', (r.accesses ++ [Event.copyToUser r.task ok]).foldlM (step entry word)
        { d.goto r.task (some (.memcpy fields r.stack)) with lock := lock } = some d' ∧
      d'.current = d.current ∧ d'.answers = d.answers ++ [(r.task, getAnswer ok d.current)] ∧
      Free d' := by
  -- all fields are read while nobody assigns
  obtain ⟨g, hrun, hfields⟩ :=
    run_fetch entry word r.all_fields
      (d := { d.goto r.task (some (.memcpy fields r.stack)) with lock := lock }) goto_tasks
  obtain rfl : g = d.current := eq_of_fields hfields
  rw [goto_lock_goto] at hrun
  rw [Request.accesses, List.append_assoc, List.foldlM_append, hrun]
  let d₁ : Driver := { d.goto r.task (some (.memcpy [] d.current)) with lock := lock }
  have hfinish : step entry word d₁ (.finish r.task) = _ := finish_memcpy goto_tasks
  -- then the lock is given back, and the copy goes to the user's memory
  let d₂ : Driver := { d₁.goto r.task (some (.copyToUser d.current)) with
    lock := none, accesses := d.accesses ++ [.got r.task d.current] }
  have hplace₂ : d₂.tasks r.task = some (.copyToUser d.current) := goto_tasks (d := d₁)
  have hcopy : step entry word d₂ (.copyToUser r.task ok) = _ := copy_to_user hplace₂ ok
  have hanswer : (if ok then d₂.answer r.task 0 (some d.current)
      else d₂.answer r.task (-eacces) none) =
        d₂.answer r.task (getAnswer ok d.current).ret (getAnswer ok d.current).user := by
    cases ok with
    | true => rfl
    | false => rfl
  rw [hanswer] at hcopy
  have hboth : [Event.finish r.task, .copyToUser r.task ok].foldlM (step entry word) d₁ =
      some (d₂.answer r.task (getAnswer ok d.current).ret (getAnswer ok d.current).user) :=
    Runs.run_cons.mpr ⟨d₂, hfinish, congrArg (· >>= pure) hcopy⟩
  refine ⟨_, hboth, rfl, rfl, fun u => ?_, rfl⟩
  show Function.update (Function.update (Function.update d.tasks r.task _) r.task _) r.task none u =
    none
  rw [Function.update_idem]
  exact h.leave u

/-- If the user's memory cannot be read, the request fails and assigns nothing. -/
theorem copyFromUser_none (hplace : d.tasks t = some .copyFromUser) :
    step entry word d (.copyFromUser t none) = some (d.answer t (-eacces) none) := by
  simp only [step, hplace]

/-- If the user's memory can be read, what it holds is assigned. -/
theorem copyFromUser_some (hplace : d.tasks t = some .copyFromUser) :
    step entry word d (.copyFromUser t (some g)) = d.enter entry t (.assign fields g) := by
  simp only [step, hplace]

/-- It does not matter where the task was before. -/
theorem enter_goto {place : Place} :
    (d.goto t place').enter entry t place = d.enter entry t place := by
  cases entry with
  | ioctl => simp only [Driver.enter, Driver.goto, Function.update_idem]
  | unlockedIoctl => simp only [Driver.enter, goto_goto]

/-- A request that assigns the values of `g`. -/
theorem enter_assign (entry : Entry) (word : BitVec 14) (h : Free d) (r : Request)
    (g : AiGovernor) :
    ∃ d', (d.enter entry r.task (.assign fields g) >>= r.accesses.foldlM (step entry word)) =
        some d' ∧
      d'.current = g ∧ d'.answers = d.answers ++ [(r.task, { ret := 0, user := none })] ∧
      Free d' := by
  obtain ⟨lock, henter⟩ := h.enter entry r.task (.assign fields g)
  rw [henter]
  exact run_assign entry word h lock r g

/-- A request that is answered at once. -/
theorem answer_served (h : Free d) {ret : Int} {user : Option AiGovernor} :
    Free (d.answer t ret user) where
  lock := h.lock
  tasks u := by
    show Function.update d.tasks t none u = none
    by_cases hu : u = t
    · rw [hu, Function.update_self]
    · rw [Function.update_of_ne hu]
      exact h.tasks u

/-- A request that is served while no other is in the driver does what `aiGovIoctl` says. -/
theorem request_served (entry : Entry) (word : BitVec 14) (h : Free d) (r : Request) :
    ∃ d', (r.events word).foldlM (step entry word) d = some d' ∧
      d'.current = (aiGovIoctl word r.cmd r.arg d.current).2 ∧
      d'.answers = d.answers ++ [(r.task, (aiGovIoctl word r.cmd r.arg d.current).1)] ∧
      Free d' := by
  rw [Request.events, List.foldlM_cons, step, if_pos (h.tasks r.task), call, aiGovIoctl]
  by_cases hget : r.cmd = governorGetVariables word
  · rw [if_pos hget, if_pos hget, if_pos hget]
    obtain ⟨lock, henter⟩ := h.enter entry r.task (.memcpy fields r.stack)
    obtain ⟨d', hrun, hcurrent, hanswers, hfree⟩ :=
      run_memcpy entry word h lock r r.arg.writable
    rw [henter]
    refine ⟨d', hrun, ?_, ?_, hfree⟩
    · rw [hcurrent]
      split <;> rfl
    · rw [hanswers, getAnswer]
      split <;> rfl
  rw [if_neg hget, if_neg hget, if_neg hget]
  by_cases hclr : r.cmd = governorClrVariables
  · rw [if_pos hclr, if_pos hclr, if_pos hclr]
    exact enter_assign entry word h r clrVariables
  rw [if_neg hclr, if_neg hclr, if_neg hclr]
  by_cases hset : r.cmd = governorSetVariables word
  · rw [if_pos hset, if_pos hset, if_pos hset]
    -- the variables are only assigned if the user's memory can be read
    show ∃ d', (_ :: _).foldlM (step entry word) (d.goto r.task (some .copyFromUser)) = some d' ∧ _
    rw [List.foldlM_cons]
    cases hcontents : r.arg.contents with
    | none =>
      rw [copyFromUser_none goto_tasks]
      have hfree : Free ((d.goto r.task (some .copyFromUser)).answer r.task (-eacces) none) :=
        { lock := h.lock, tasks := fun u => h.leave u }
      exact ⟨_, rfl, rfl, rfl, hfree⟩
    | some g =>
      rw [copyFromUser_some goto_tasks, enter_goto]
      exact enter_assign entry word h r g
  rw [if_neg hset, if_neg hset, if_neg hset]
  by_cases hother : r.cmd = governorOtherFunct
  · rw [if_pos hother, if_pos hother, if_pos hother]
    exact enter_assign entry word h r otherFunct
  · rw [if_neg hother, if_neg hother, if_neg hother]
    exact ⟨_, rfl, rfl, rfl, answer_served h⟩

/-- Requests that are served one after the other, the accesses of each in any order, do what
    `aiGovIoctl` says of them in turn. -/
theorem requests_in_turn (entry : Entry) (word : BitVec 14) (rs : List Request) :
    ∃ d, (rs.flatMap (Request.events word)).foldlM (step entry word) .start = some d ∧
      d.answers = (serve word .zero rs).1 ∧ d.current = (serve word .zero rs).2 := by
  -- generalized over the device, which is free between two requests
  suffices ∀ d, Free d → ∃ d',
      (rs.flatMap (Request.events word)).foldlM (step entry word) d = some d' ∧
        d'.answers = d.answers ++ (serve word d.current rs).1 ∧
        d'.current = (serve word d.current rs).2 from
    this .start { tasks := fun _ => rfl, lock := rfl }
  induction rs with
  | nil => exact fun d _ => ⟨d, rfl, (List.append_nil _).symm, rfl⟩
  | cons r rs ih =>
    intro d hfree
    obtain ⟨d₁, hrun₁, hcurrent₁, hanswers₁, hfree₁⟩ :=
      request_served entry word hfree r
    obtain ⟨d', hrun, hanswers, hcurrent⟩ := ih d₁ hfree₁
    rw [List.flatMap_cons, List.foldlM_append, hrun₁]
    refine ⟨d', hrun, ?_, ?_⟩
    · rw [hanswers, hanswers₁, hcurrent₁, List.append_assoc]
      rfl
    · rw [hcurrent, hcurrent₁]
      rfl

end Governor
