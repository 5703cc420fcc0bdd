import CSnippets.Native.AiGovernorApp

/-!
# What the user program makes of the governor

The driver knows only one of the five requests of the user program: `GOVERNOR_GET_PHASE` is
the number of `GOVERNOR_GET_VARIABLES`. So the program cannot change the governor's
variables, and what it prints as the phase is the first of them, `min_freq`.
-/

namespace Governor

/-! ## Requests that the driver does not know -/

variable {word : BitVec 14} {cmd : BitVec 32} {arg : UserMemory} {current : AiGovernor}

/-- The number is none of those of the driver. -/
structure Unknown (word : BitVec 14) (cmd : BitVec 32) : Prop where
  get : cmd ≠ governorGetVariables word
  clr : cmd ≠ governorClrVariables
  set : cmd ≠ governorSetVariables word
  other : cmd ≠ governorOtherFunct

/-- `GOVERNOR_SET_PHASE` is none of the driver's requests: all differ in number or in direction. -/
theorem unknown_setPhase : Unknown word (governorSetPhase word) where
  get := Ioctl.encode_ne_of_nr (by simp)
  clr := Ioctl.encode_ne_of_dir (by simp)
  set := Ioctl.encode_ne_of_nr (by simp)
  other := Ioctl.encode_ne_of_nr (by simp)

/-- `GOVERNOR_CLR_PHASE_VARIABLES` is none of the driver's requests. -/
theorem unknown_clrPhaseVariables : Unknown word governorClrPhaseVariables where
  get := Ioctl.encode_ne_of_nr (by simp)
  clr := Ioctl.encode_ne_of_nr (by simp)
  set := Ioctl.encode_ne_of_dir (by simp)
  other := Ioctl.encode_ne_of_nr (by simp)

/-- `GOVERNOR_GET_PHASE_VARIABLE` is none of the driver's requests. -/
theorem unknown_getPhaseVariable : Unknown word (governorGetPhaseVariable word) where
  get := Ioctl.encode_ne_of_nr (by simp)
  clr := Ioctl.encode_ne_of_nr (by simp)
  set := Ioctl.encode_ne_of_nr (by simp)
  other := Ioctl.encode_ne_of_dir (by simp)

/-- `GOVERNOR_SET_PHASE_VARIABLE` is none of the driver's requests. -/
theorem unknown_setPhaseVariable : Unknown word (governorSetPhaseVariable word) where
  get := Ioctl.encode_ne_of_nr (by simp)
  clr := Ioctl.encode_ne_of_nr (by simp)
  set := Ioctl.encode_ne_of_nr (by simp)
  other := Ioctl.encode_ne_of_nr (by simp)

/-- An unknown request fails with `EINVAL` and leaves the variables alone. -/
theorem Unknown.ioctl_eq (h : Unknown word cmd) :
    ioctl word cmd arg current = (.error einval, current) := by
  rw [ioctl, aiGovIoctl, if_neg h.get, if_neg h.clr, if_neg h.set, if_neg h.other]
  rfl

/-- One number for two requests. -/
theorem governorGetPhase_eq : governorGetPhase word = governorGetVariables word := rfl

/-- `GOVERNOR_GET_PHASE` is answered with all variables, to memory for a phase. -/
theorem ioctl_getPhase :
    ioctl word (governorGetPhase word) arg current =
      (if arg.writable then .ok (some current) else .error eacces, current) := by
  rw [ioctl, aiGovIoctl, if_pos governorGetPhase_eq]
  cases arg.writable with
  | true => rfl
  | false => rfl

/-! ## The program -/

/-- What a command does when the device is open. -/
def Command.outcome (env : Surroundings) (current : AiGovernor) : Command → Outcome
  | .getP =>
    if env.arg.writable then
      { Outcome.printed (phaseText current.profile.minFreq) with
          behind := [current.profile.maxFreq, current.profile.desiredFrameRate,
            current.profile.currentFrameRate, current.phase] }
    else .failed "" [.perror "AI_gov_apps ioctlt get_phase" eacces]
  | .setP => .failed "Enter phase to set: " [.perror "AI_gov_apps profile set" einval]
  | .clr => .failed "" [.perror "AI_gov_apps ioctl clr phase variables" einval]
  | .getV => .failed "Enter variable index: " [.perror "AI_gov_apps profile set" einval]
  | .setV =>
    .failed "Enter variable index: Enter variable's new value: "
      [.perror "AI_gov_apps ioctlt get_profile" einval]

/-- No command changes the variables, and each does what its outcome says. -/
theorem Command.run_eq (env : Surroundings) (command : Command) :
    command.run word env current = (command.outcome env current, current) := by
  cases command with
  | getP =>
    simp only [Command.run, getPhase, ioctl_getPhase, Command.outcome]
    cases env.arg.writable with
    | true => rfl
    | false => rfl
  | setP => simp only [Command.run, setPhase, unknown_setPhase.ioctl_eq, Command.outcome]
  | clr =>
    simp only [Command.run, clrPhaseVariables, unknown_clrPhaseVariables.ioctl_eq, Command.outcome]
  | getV =>
    simp only [Command.run, getPhaseVariable, unknown_getPhaseVariable.ioctl_eq, Command.outcome]
  | setV =>
    simp only [Command.run, setPhaseVariable, unknown_setPhaseVariable.ioctl_eq, Command.outcome]

/-- What a run of the program does while the variables are `current`. -/
def outcome (env : Surroundings) (args : List String) (current : AiGovernor) : Outcome :=
  let notice := if args = [] then [Message.noCommand] else []
  match parse args, env.openError with
  | none, _ => { status := 1, stdout := "", stderr := [.usage], behind := [] }
  | some _, some errno =>
    { status := 2, stdout := "", stderr := notice ++ [.perror "AI_gov_app open" errno],
      behind := [] }
  | some command, none =>
    { command.outcome env current with stderr := notice ++ (command.outcome env current).stderr }

/-- No run of the program changes the variables, whatever its arguments are. -/
theorem main_eq (env : Surroundings) (args : List String) :
    main word env current args = (outcome env args current, current) := by
  rw [main, outcome]
  cases parse args with
  | none => rfl
  | some command =>
    cases env.openError with
    | some errno => rfl
    | none => simp only [Command.run_eq]

/-! ## Sessions -/

/-- Runs of the program, and requests that other programs make. -/
inductive Use where
  | app (env : Surroundings) (args : List String)
  | request (cmd : BitVec 32) (arg : UserMemory)

/-- What the runs of the program do, and the variables in the end. -/
def session (word : BitVec 14) (current : AiGovernor) : List Use → List Outcome × AiGovernor
  | [] => ([], current)
  | .app env args :: uses =>
    let (o, current) := main word env current args
    let (os, current) := session word current uses
    (o :: os, current)
  | .request cmd arg :: uses => session word (aiGovIoctl word cmd arg current).2 uses

/-- The variables when only the other programs are asked. -/
def requested (word : BitVec 14) (current : AiGovernor) : List Use → AiGovernor
  | [] => current
  | .app _ _ :: uses => requested word current uses
  | .request cmd arg :: uses => requested word (aiGovIoctl word cmd arg current).2 uses

/-- What the runs of the program do, each at what the other programs have left. -/
def outcomes (word : BitVec 14) (current : AiGovernor) : List Use → List Outcome
  | [] => []
  | .app env args :: uses => outcome env args current :: outcomes word current uses
  | .request cmd arg :: uses => outcomes word (aiGovIoctl word cmd arg current).2 uses

/-- Another program has set the phase to 5 and `min_freq` to 1. -/
example :
    (session 8 .zero
      [.request governorOtherFunct { writable := true, contents := none },
        .app { openError := none, stdin := [], arg := { writable := true, contents := none }, v := 0,
               phase := 0, index := 0, value := 0 } ["-gp"]]).1 =
      [{ status := 0, stdout := "AI_framerate \n", stderr := [],
         behind := [2, 3, 0x40800000, 5] }] := by
  decide

end Governor
