import CSnippets.ForStd.Runs
import CSnippets.Native.AiGovernor

/-!
# What loading and unloading the governor leaves behind

Whatever the kernel answers, nothing is released that is not registered, and while the module
is loaded exactly one of each thing is registered on its behalf. When `cdev_add` fails,
`AI_gov_ioctl_init` returns without giving its device number back; these numbers, and
no others, stay registered for good.
-/

namespace Governor

/-- What belongs to the module while it is loaded. -/
def held {α : Type} (loaded : Bool) (x : α) : List α := if loaded then [x] else []

/-- The number that a load leaves registered though it fails. -/
def leaks (s : Loader) : Load → List DevNum
  | .insmod k =>
    if s.loaded = false ∧ k.allocChrdevRegion.val = 0 ∧ k.cdevAdd.val < 0 then [k.number] else []
  | .rmmod => []

/-- All numbers that are left registered, the latest first. -/
def leaked : Loader → List Load → List DevNum
  | _, [] => []
  | s, e :: es => leaked ((load s e).getD s) es ++ leaks s e

/-- Everything that is registered. -/
structure Ledger (left : List DevNum) (s : Loader) : Prop where
  regions : s.machine.regions = held s.loaded s.machine.dev ++ left
  cdevs : s.machine.cdevs = held s.loaded s.machine.dev
  classes : s.machine.classes = held s.loaded s.machine.cl
  devices : s.machine.devices = held s.loaded s.machine.dev

variable {left : List DevNum} {s : Loader}

/-- The registration made last is found first. -/
theorem release_cons (registered : List Nat) (n : Nat) :
    release (n :: registered) n = some registered := by
  rw [release, if_pos List.mem_cons_self, List.erase_cons_head]

/-- The same things are registered as before, or one number more. -/
structure Failed (k : InitCalls) (m m' : Machine) : Prop where
  regions : m'.regions =
    (if k.allocChrdevRegion.val = 0 ∧ k.cdevAdd.val < 0 then [k.number] else []) ++ m.regions
  cdevs : m'.cdevs = m.cdevs
  classes : m'.classes = m.classes
  devices : m'.devices = m.devices

/-- `AI_gov_ioctl_init` registers one of each thing, or it fails. -/
theorem init_cases (k : InitCalls) (m : Machine) :
    (∃ cl, ¬ (k.allocChrdevRegion.val = 0 ∧ k.cdevAdd.val < 0) ∧
      aiGovIoctlInit k m = some (0,
        { regions := k.number :: m.regions, cdevs := k.number :: m.cdevs,
          classes := cl :: m.classes, devices := k.number :: m.devices,
          dev := k.number, cl := cl })) ∨
      ∃ ret m', ret ≠ 0 ∧ aiGovIoctlInit k m = some (ret, m') ∧ Failed k m m' := by
  by_cases halloc : k.allocChrdevRegion.val = 0
  · by_cases hadd : k.cdevAdd.val < 0
    · -- the number stays registered
      right
      refine ⟨k.cdevAdd.val, { m with dev := k.number, regions := k.number :: m.regions },
        ?_, ?_, ?_⟩
      · omega
      · simp [aiGovIoctlInit, halloc, hadd]
      · constructor <;> simp [halloc, hadd]
    · cases hclass : k.classCreate with
      | error err =>
        right
        have herr := err.property
        refine ⟨err.val, { m with dev := k.number }, by omega, ?_, ?_⟩
        · simp [aiGovIoctlInit, halloc, hadd, hclass, cdevDel, unregisterChrdevRegion, release_cons]
        · constructor <;> simp [hadd]
      | ok cl =>
        cases hdevice : k.deviceCreate with
        | some err =>
          right
          have herr := err.property
          refine ⟨err.val, { m with dev := k.number, cl := cl }, by omega, ?_, ?_⟩
          · simp [aiGovIoctlInit, halloc, hadd, hclass, hdevice, classDestroy, cdevDel,
              unregisterChrdevRegion, release_cons]
          · constructor <;> simp [hadd]
        | none =>
          left
          refine ⟨cl, fun hfail => hadd hfail.2, ?_⟩
          simp [aiGovIoctlInit, halloc, hadd, hclass, hdevice]
  · right
    refine ⟨k.allocChrdevRegion.val, m, halloc, ?_, ?_⟩
    · simp [aiGovIoctlInit, halloc]
    · constructor <;> simp [halloc]

/-- `AI_gov_ioctl_exit` releases one of each thing. -/
theorem exit_eq (dev : DevNum) (cl : ClassPtr) (regions : List DevNum) :
    aiGovIoctlExit { regions := dev :: regions, cdevs := [dev], classes := [cl],
                     devices := [dev], dev := dev, cl := cl } =
      some { regions := regions, cdevs := [], classes := [], devices := [], dev := dev,
             cl := cl } := by
  simp [aiGovIoctlExit, deviceDestroy, classDestroy, cdevDel, unregisterChrdevRegion, release_cons]

/-- Every load or unload is possible, and the numbers that are left add up. -/
theorem load_ledger (h : Ledger left s) (e : Load) :
    ∃ s', load s e = some s' ∧ Ledger (leaks s e ++ left) s' := by
  obtain ⟨⟨regions, cdevs, classes, devices, dev, cl⟩, loaded⟩ := s
  obtain ⟨hregions, hcdevs, hclasses, hdevices⟩ := h
  dsimp only at hregions hcdevs hclasses hdevices
  subst hregions hcdevs hclasses hdevices
  cases e with
  | insmod k =>
    cases loaded with
    -- a module that is loaded is not loaded again
    | true => exact ⟨_, rfl, by constructor <;> simp [leaks, held]⟩
    | false =>
      rw [load, if_neg Bool.false_ne_true]
      obtain ⟨cl', hnot, hinit⟩ | ⟨ret, m', hret, hinit, hfailed⟩ := init_cases k
        { regions := held false dev ++ left, cdevs := held false dev, classes := held false cl,
          devices := held false dev, dev := dev, cl := cl }
      · -- all calls succeed: everything is registered once more
        rw [hinit]
        refine ⟨_, rfl, ?_⟩
        constructor <;> simp [leaks, held, hnot]
      · -- a call fails: what is left behind is what was not undone
        rw [hinit]
        refine ⟨{ machine := m', loaded := false }, by simp [hret], ?_⟩
        obtain ⟨hregions, hcdevs, hclasses, hdevices⟩ := hfailed
        constructor <;> simp_all [leaks, held]
  | rmmod =>
    cases loaded with
    | true =>
      -- the registrations made last are found first
      rw [load, if_pos rfl]
      refine ⟨_, congrArg (· >>= _) (exit_eq dev cl left), ?_⟩
      constructor <;> simp [leaks, held]
    | false => exact ⟨_, rfl, by constructor <;> simp [leaks, held]⟩

/-- After any number of loads and unloads, whatever the kernel has answered, there is one of
    each thing if the module is loaded and none if it is not, and besides the device
    numbers of all loads that failed in `cdev_add`. -/
theorem loads_ledger (es : List Load) :
    ∃ s, es.foldlM load .start = some s ∧ Ledger (leaked .start es) s := by
  suffices ∀ left s, Ledger left s →
      ∃ s', es.foldlM load s = some s' ∧ Ledger (leaked s es ++ left) s' by
    have hrun := this [] .start { regions := rfl, cdevs := rfl, classes := rfl, devices := rfl }
    rw [List.append_nil] at hrun
    exact hrun
  induction es with
  | nil => exact fun left s h => ⟨s, rfl, h⟩
  | cons e es ih =>
    intro left s h
    obtain ⟨s₁, h₁, hledger₁⟩ := load_ledger h e
    obtain ⟨s', hrun, hledger⟩ := ih _ s₁ hledger₁
    refine ⟨s', Runs.run_cons.mpr ⟨s₁, h₁, hrun⟩, ?_⟩
    rw [leaked, h₁, List.append_assoc]
    exact hledger

end Governor
