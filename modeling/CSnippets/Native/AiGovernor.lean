import Mathlib.Logic.Function.Basic
import CSnippets.ForStd.Ioctl

/-!
# The governor driver (`IOctl/kernelspace/AI_governor_ioctl.c`)

The driver keeps one `current_AI_governor`, and `AI_gov_ioctl` reads and writes it. Tasks call
it through `.unlocked_ioctl`, where nothing keeps them apart, or in kernels before 2.6.35
through `.ioctl` under the big kernel lock.

Each access to a field of `current_AI_governor` is a step of its own. The accesses of one
request are plain ones, so they are made in any order. A `float` is given by its bits.
-/

namespace Governor

/-- `AI_gov_profile` -/
structure AiGovProfile where
  minFreq : UInt32
  maxFreq : UInt32
  desiredFrameRate : UInt32
  currentFrameRate : UInt32
deriving Repr, DecidableEq

/-- `AI_governor` -/
structure AiGovernor where
  profile : AiGovProfile
  phase : UInt32
deriving Repr, DecidableEq

/-- `{0}` -/
def AiGovernor.zero : AiGovernor :=
  { profile := { minFreq := 0, maxFreq := 0, desiredFrameRate := 0, currentFrameRate := 0 }
    phase := 0 }

/-- The words of `struct AI_governor`. -/
inductive Field where
  | minFreq
  | maxFreq
  | desiredFrameRate
  | currentFrameRate
  | phase
deriving Repr, DecidableEq

/-- The fields as they lie in memory. -/
def fields : List Field := [.minFreq, .maxFreq, .desiredFrameRate, .currentFrameRate, .phase]

/-- The word of a field. -/
def AiGovernor.field (g : AiGovernor) : Field → UInt32
  | .minFreq => g.profile.minFreq
  | .maxFreq => g.profile.maxFreq
  | .desiredFrameRate => g.profile.desiredFrameRate
  | .currentFrameRate => g.profile.currentFrameRate
  | .phase => g.phase

/-- The record with one word assigned. -/
def AiGovernor.assign (g : AiGovernor) (v : UInt32) : Field → AiGovernor
  | .minFreq => { g with profile := { g.profile with minFreq := v } }
  | .maxFreq => { g with profile := { g.profile with maxFreq := v } }
  | .desiredFrameRate => { g with profile := { g.profile with desiredFrameRate := v } }
  | .currentFrameRate => { g with profile := { g.profile with currentFrameRate := v } }
  | .phase => { g with phase := v }

/-- What `GOVERNOR_CLR_VARIABLES` assigns. -/
def clrVariables : AiGovernor :=
  { profile :=
      { minFreq := 1000, maxFreq := 1500, desiredFrameRate := 60, currentFrameRate := 0 }
    phase := 0 }

/-- What `GOVERNOR_OTHER_FUNCT` assigns; the frame rate is `4.0f`. -/
def otherFunct : AiGovernor :=
  { profile :=
      { minFreq := 1, maxFreq := 2, desiredFrameRate := 3, currentFrameRate := 0x40800000 }
    phase := 5 }

/-! ## The requests

`word` is the size of a pointer and of an `unsigned long`.
-/

/-- `'g'` -/
def magic : BitVec 8 := 0x67

/-- `GOVERNOR_GET_VARIABLES` -/
def governorGetVariables (word : BitVec 14) : BitVec 32 := Ioctl.ior magic 1 word

/-- `GOVERNOR_CLR_VARIABLES` -/
def governorClrVariables : BitVec 32 := Ioctl.io magic 2

/-- `GOVERNOR_SET_VARIABLES` -/
def governorSetVariables (word : BitVec 14) : BitVec 32 := Ioctl.iow magic 3 word

/-- `GOVERNOR_OTHER_FUNCT` -/
def governorOtherFunct : BitVec 32 := Ioctl.io magic 4

/-- `EACCES` -/
def eacces : Int := 13

/-- `EINVAL` -/
def einval : Int := 22

/-! ## `AI_gov_ioctl` without interruption -/

/-- The memory behind `arg`: whether `copy_to_user` writes it, and what `copy_from_user`
    reads out of it. -/
structure UserMemory where
  writable : Bool
  contents : Option AiGovernor
deriving Repr, DecidableEq

/-- What the caller gets: the result and what has been copied to `arg`. -/
structure Answer where
  ret : Int
  user : Option AiGovernor
deriving Repr, DecidableEq

/-- `AI_gov_ioctl`, as one function. -/
def aiGovIoctl (word : BitVec 14) (cmd : BitVec 32) (arg : UserMemory) (current : AiGovernor) :
    Answer × AiGovernor :=
  if cmd = governorGetVariables word then
    -- the record is copied to the stack before it is copied out
    let g := current
    if arg.writable then ({ ret := 0, user := some g }, current)
    else ({ ret := -eacces, user := none }, current)
  else if cmd = governorClrVariables then ({ ret := 0, user := none }, clrVariables)
  else if cmd = governorSetVariables word then
    match arg.contents with
    | none => ({ ret := -eacces, user := none }, current)
    | some g =>
      ({ ret := 0, user := none },
        -- field by field, from the copy on the stack
        { profile :=
            { minFreq := g.profile.minFreq
              maxFreq := g.profile.maxFreq
              desiredFrameRate := g.profile.desiredFrameRate
              currentFrameRate := g.profile.currentFrameRate }
          phase := g.phase })
  else if cmd = governorOtherFunct then ({ ret := 0, user := none }, otherFunct)
  else ({ ret := -einval, user := none }, current)

/-! ## `AI_gov_ioctl` in steps -/

/-- The processes that call `ioctl`. -/
abbrev Task := Nat

/-- How `AI_governor_fops` names `AI_gov_ioctl`. -/
inductive Entry where
  /-- before 2.6.35 -/
  | ioctl
  | unlockedIoctl
deriving Repr, DecidableEq

/-- Where a task is in `AI_gov_ioctl`, with its local `g`. -/
inductive Place where
  /-- `memcpy(&g, &current_AI_governor, …)`: these fields are left. -/
  | memcpy (left : List Field) (g : AiGovernor)
  | copyToUser (g : AiGovernor)
  | copyFromUser
  /-- The assignments to `current_AI_governor`: these fields are left. -/
  | assign (left : List Field) (g : AiGovernor)
deriving Repr, DecidableEq

/-- All accesses of one request have been made. -/
inductive Access where
  | got (t : Task) (g : AiGovernor)
  | set (t : Task) (g : AiGovernor)
deriving Repr, DecidableEq

/-- The driver; `lock` is the task that has the big kernel lock. `answers` and `accesses` are
    histories. -/
structure Driver where
  current : AiGovernor
  lock : Option Task
  tasks : Task → Option Place
  answers : List (Task × Answer)
  accesses : List Access

/-- The driver when it has just been loaded. -/
def Driver.start : Driver :=
  { current := .zero, lock := none, tasks := fun _ => none, answers := [], accesses := [] }

/-- The task comes to a place in `AI_gov_ioctl`. -/
def Driver.goto (d : Driver) (t : Task) (place : Option Place) : Driver :=
  { d with tasks := Function.update d.tasks t place }

/-- `AI_gov_ioctl` returns to the task. -/
def Driver.answer (d : Driver) (t : Task) (ret : Int) (user : Option AiGovernor) : Driver :=
  { d.goto t none with answers := d.answers ++ [(t, { ret := ret, user := user })] }

/-- The task begins to access `current_AI_governor`. It has the big kernel lock from there to
    its last access; only a copy to or from the user gives it back, as it may sleep. -/
def Driver.enter (entry : Entry) (d : Driver) (t : Task) (place : Place) : Option Driver :=
  match entry with
  -- another task has to wait until the lock is free
  | .ioctl => if d.lock = none then some { d.goto t (some place) with lock := some t } else none
  | .unlockedIoctl => some (d.goto t (some place))

/-- What can happen next. -/
inductive Event where
  /-- A call of `ioctl`; `g` is what lies on the stack where the local `g` is. -/
  | call (t : Task) (cmd : BitVec 32) (g : AiGovernor)
  | access (t : Task) (f : Field)
  /-- The last access has been made. -/
  | finish (t : Task)
  | copyToUser (t : Task) (ok : Bool)
  /-- `none` where the memory cannot be read -/
  | copyFromUser (t : Task) (g : Option AiGovernor)
deriving Repr, DecidableEq

/-- A task is not in the driver yet and calls it. -/
def call (entry : Entry) (word : BitVec 14) (d : Driver) (t : Task) (cmd : BitVec 32)
    (g : AiGovernor) : Option Driver :=
  if cmd = governorGetVariables word then d.enter entry t (.memcpy fields g)
  else if cmd = governorClrVariables then d.enter entry t (.assign fields clrVariables)
  -- nothing is accessed before the copy from the user
  else if cmd = governorSetVariables word then some (d.goto t (some .copyFromUser))
  else if cmd = governorOtherFunct then d.enter entry t (.assign fields otherFunct)
  else some (d.answer t (-einval) none)

/-- One step; an event that cannot happen has no next state. -/
def step (entry : Entry) (word : BitVec 14) (d : Driver) : Event → Option Driver
  | .call t cmd g => if d.tasks t = none then call entry word d t cmd g else none
  | .access t f =>
    match d.tasks t with
    | some (.memcpy left g) =>
      if f ∈ left then
        some (d.goto t (some (.memcpy (left.erase f) (g.assign (d.current.field f) f))))
      else none
    | some (.assign left g) =>
      if f ∈ left then
        some { d.goto t (some (.assign (left.erase f) g)) with
                 current := d.current.assign (g.field f) f }
      else none
    | _ => none
  | .finish t =>
    match d.tasks t with
    | some (.memcpy [] g) =>
      some { d.goto t (some (.copyToUser g)) with
               -- what follows may sleep
               lock := none, accesses := d.accesses ++ [.got t g] }
    | some (.assign [] g) =>
      some { d.answer t 0 none with lock := none, accesses := d.accesses ++ [.set t g] }
    | _ => none
  | .copyToUser t ok =>
    match d.tasks t with
    | some (.copyToUser g) =>
      some (if ok then d.answer t 0 (some g) else d.answer t (-eacces) none)
    | _ => none
  | .copyFromUser t contents =>
    match d.tasks t with
    | some .copyFromUser =>
      match contents with
      | none => some (d.answer t (-eacces) none)
      | some g => d.enter entry t (.assign fields g)
    | _ => none

/-! ## Loading and unloading -/

/-- What `int` functions of the kernel return: 0, or a negative error number. -/
abbrev Ret := { n : Int // n ≤ 0 }

/-- A pointer that satisfies `IS_ERR`. -/
abbrev ErrPtr := { n : Int // n < 0 }

/-- A device number (`dev_t`). -/
abbrev DevNum := Nat

/-- The handle of a `struct class`. -/
abbrev ClassPtr := Nat

/-- What is registered in the kernel, and the static variables of the module. -/
structure Machine where
  regions : List DevNum
  cdevs : List DevNum
  classes : List ClassPtr
  devices : List DevNum
  dev : DevNum
  cl : ClassPtr
deriving Repr, DecidableEq

/-- What the kernel answers to the calls of `AI_gov_ioctl_init`. -/
structure InitCalls where
  allocChrdevRegion : Ret
  /-- The number that `alloc_chrdev_region` gives. -/
  number : DevNum
  cdevAdd : Ret
  classCreate : Except ErrPtr ClassPtr
  /-- `none` where the device is created -/
  deviceCreate : Option ErrPtr

/-- Something is released that must have been registered. -/
def release (registered : List Nat) (n : Nat) : Option (List Nat) :=
  if n ∈ registered then some (registered.erase n) else none

/-- `unregister_chrdev_region` -/
def unregisterChrdevRegion (m : Machine) : Option Machine := do
  let regions ← release m.regions m.dev
  return { m with regions := regions }

/-- `cdev_del` -/
def cdevDel (m : Machine) : Option Machine := do
  let cdevs ← release m.cdevs m.dev
  return { m with cdevs := cdevs }

/-- `class_destroy` -/
def classDestroy (m : Machine) : Option Machine := do
  let classes ← release m.classes m.cl
  return { m with classes := classes }

/-- `device_destroy` -/
def deviceDestroy (m : Machine) : Option Machine := do
  let devices ← release m.devices m.dev
  return { m with devices := devices }

/-- The result of `AI_gov_ioctl_init`, and what is registered then. -/
def aiGovIoctlInit (k : InitCalls) (m : Machine) : Option (Int × Machine) := do
  if k.allocChrdevRegion.val ≠ 0 then return (k.allocChrdevRegion.val, m)
  let m := { m with dev := k.number, regions := k.number :: m.regions }
  -- the region stays registered here
  if k.cdevAdd.val < 0 then return (k.cdevAdd.val, m)
  let m := { m with cdevs := m.dev :: m.cdevs }
  match k.classCreate with
  | .error err =>
    -- from here on all is undone, in reverse order
    let m ← cdevDel m
    let m ← unregisterChrdevRegion m
    return (err.val, m)
  | .ok cl =>
    let m := { m with cl := cl, classes := cl :: m.classes }
    match k.deviceCreate with
    | some err =>
      let m ← classDestroy m
      let m ← cdevDel m
      let m ← unregisterChrdevRegion m
      return (err.val, m)
    | none => return (0, { m with devices := m.dev :: m.devices })

/-- `AI_gov_ioctl_exit` -/
def aiGovIoctlExit (m : Machine) : Option Machine := do
  let m ← deviceDestroy m
  let m ← classDestroy m
  let m ← cdevDel m
  unregisterChrdevRegion m

/-- The machine and whether the module is loaded. -/
structure Loader where
  machine : Machine
  loaded : Bool
deriving Repr, DecidableEq

/-- Before the first `insmod`. -/
def Loader.start : Loader :=
  { machine := { regions := [], cdevs := [], classes := [], devices := [], dev := 0, cl := 0 }
    loaded := false }

/-- The module is loaded, with what the kernel's calls return, or removed. -/
inductive Load where
  | insmod (k : InitCalls)
  | rmmod

/-- A module stays loaded if its init function returns 0; one that is loaded is not loaded
    again, and one that is not cannot be unloaded. -/
def load (s : Loader) : Load → Option Loader
  | .insmod k =>
    -- `insmod` refuses
    if s.loaded then some s
    else do
      let (ret, m) ← aiGovIoctlInit k s.machine
      return { machine := m, loaded := decide (ret = 0) }
  | .rmmod =>
    if s.loaded then do
      let m ← aiGovIoctlExit s.machine
      return { machine := m, loaded := false }
    else some s

end Governor
