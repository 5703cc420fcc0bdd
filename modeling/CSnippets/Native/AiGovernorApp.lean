import CSnippets.ForStd.Scanf
import CSnippets.Native.AiGovernor

/-!
# The governor's user program (`IOctl/userspace/AI_governor_app.c`)

The program has request numbers of its own (`AI_gov_ioctl.h`), which are not the ones of the
driver's header. What it does not determine itself is in its `Surroundings`.
-/

namespace Governor

/-! ## The requests of the program -/

/-- `GOVERNOR_GET_PHASE` -/
def governorGetPhase (word : BitVec 14) : BitVec 32 := Ioctl.ior magic 1 word

/-- `GOVERNOR_SET_PHASE` -/
def governorSetPhase (word : BitVec 14) : BitVec 32 := Ioctl.iow magic 2 word

/-- `GOVERNOR_CLR_PHASE_VARIABLES` -/
def governorClrPhaseVariables : BitVec 32 := Ioctl.io magic 3

/-- `GOVERNOR_GET_PHASE_VARIABLE` -/
def governorGetPhaseVariable (word : BitVec 14) : BitVec 32 := Ioctl.iowr magic 4 word

/-- `GOVERNOR_SET_PHASE_VARIABLE` -/
def governorSetPhaseVariable (word : BitVec 14) : BitVec 32 := Ioctl.iow magic 5 word

/-! ## Calls of the library -/

/-- What reaches `stderr`. -/
inductive Message where
  | perror (text : String) (errno : Int)
  | noCommand
  | usage
deriving Repr, DecidableEq

/-- What is there when the program runs. -/
structure Surroundings where
  /-- `errno` if `open` returns no descriptor. -/
  openError : Option Int
  stdin : List UInt8
  arg : UserMemory
  /-- What lies on the stack where the local variables are. -/
  v : Int
  phase : UInt32
  index : UInt8
  value : UInt64

/-- What the program does. `behind` are the words that the kernel writes behind the variable
    whose address it has been given. -/
structure Outcome where
  status : Int
  stdout : String
  stderr : List Message
  behind : List UInt32
deriving Repr, DecidableEq

/-- The program prints the text and returns 0. -/
def Outcome.printed (text : String) : Outcome :=
  { status := 0, stdout := text, stderr := [], behind := [] }

/-- The program prints the text and then the messages, and returns 0 all the same. -/
def Outcome.failed (text : String) (messages : List Message) : Outcome :=
  { status := 0, stdout := text, stderr := messages, behind := [] }

/-- `ioctl` returns what has been copied to the program, or −1 with `errno`. -/
def ioctl (word : BitVec 14) (cmd : BitVec 32) (arg : UserMemory) (current : AiGovernor) :
    Except Int (Option AiGovernor) × AiGovernor :=
  let (answer, current') := aiGovIoctl word cmd arg current
  (if answer.ret < 0 then .error (-answer.ret) else .ok answer.user, current')

/-- `scanf("%d", &v); getchar();` -/
def readInt (stdin : List UInt8) (v : Int) : Int × List UInt8 :=
  let (scanned, rest) := Scanf.scanInt stdin
  -- where no number is found `v` keeps its value
  (scanned.getD v, rest.tail)

/-- The names of `enum PHASE_ENUM` as `get_phase` prints them. -/
def phaseText (g : UInt32) : String :=
  if g = 0 then "AI_init \n"
  else if g = 1 then "AI_framerate \n"
  else if g = 2 then "AI_priority \n"
  else if g = 3 then "AI_time \n"
  else if g = 4 then "AI_powersave \n"
  else if g = 5 then "AI_performance \n"
  else if g = 6 then "AI_response \n"
  else if g = 7 then "AI_exit \n"
  else "INVALID \n"

/-- `struct AI_gov_ioctl_phase_variable` -/
structure PhaseVariable where
  phase : UInt32
  variableIndex : UInt8
  variableValue : UInt64
deriving Repr, DecidableEq

/-- What the kernel makes of the structure, if it copies something there. -/
def PhaseVariable.overwrite (g : PhaseVariable) : Option AiGovernor → PhaseVariable
  | none => g
  | some user =>
    { phase := user.profile.minFreq
      variableIndex := user.profile.maxFreq.toUInt8
      variableValue := user.profile.desiredFrameRate.toUInt64 |||
        user.profile.currentFrameRate.toUInt64 <<< 32 }

/-! ## The functions -/

variable (word : BitVec 14) (env : Surroundings) (current : AiGovernor)

/-- `enum PHASE_ENUM g` is one word, and the kernel copies all five. -/
def getPhase : Outcome × AiGovernor :=
  match ioctl word (governorGetPhase word) env.arg current with
  | (.error errno, current) =>
    (.failed "" [.perror "AI_gov_apps ioctlt get_phase" errno], current)
  | (.ok none, current) => (.printed (phaseText env.phase), current)
  | (.ok (some user), current) =>
    ({ Outcome.printed (phaseText user.profile.minFreq) with
         behind := fields.tail.map user.field }, current)

/-- `set_phase` -/
def setPhase : Outcome × AiGovernor :=
  match ioctl word (governorSetPhase word) env.arg current with
  | (.error errno, current) =>
    (.failed "Enter phase to set: " [.perror "AI_gov_apps profile set" errno], current)
  | (.ok _, current) => (.printed "Enter phase to set: ", current)

/-- `clr_phase_variables` -/
def clrPhaseVariables : Outcome × AiGovernor :=
  match ioctl word governorClrPhaseVariables env.arg current with
  | (.error errno, current) =>
    (.failed "" [.perror "AI_gov_apps ioctl clr phase variables" errno], current)
  | (.ok _, current) => (.printed "", current)

/-- `set_phase_variable` -/
def setPhaseVariable : Outcome × AiGovernor :=
  let prompt := "Enter variable index: Enter variable's new value: "
  let (index, rest) := readInt env.stdin env.v
  -- both numbers are read into the one `v`
  let (value, _) := readInt rest index
  let g : PhaseVariable :=
    { phase := env.phase, variableIndex := UInt8.ofInt index, variableValue := UInt64.ofInt value }
  match ioctl word (governorSetPhaseVariable word) env.arg current with
  | (.error errno, current) =>
    (.failed prompt [.perror "AI_gov_apps ioctlt get_profile" errno], current)
  | (.ok user, current) =>
    let g := g.overwrite user
    (.printed (prompt ++ "Set phase: " ++ toString g.phase ++ " variable at index " ++
      toString g.variableIndex ++ " to " ++ toString g.variableValue ++ "\n"), current)

/-- `get_phase_variable` -/
def getPhaseVariable : Outcome × AiGovernor :=
  let prompt := "Enter variable index: "
  let (index, _) := readInt env.stdin env.v
  let g : PhaseVariable :=
    { phase := env.phase, variableIndex := UInt8.ofInt index, variableValue := env.value }
  match ioctl word (governorGetPhaseVariable word) env.arg current with
  | (.error errno, current) =>
    (.failed prompt [.perror "AI_gov_apps profile set" errno], current)
  | (.ok user, current) =>
    let g := g.overwrite user
    (.printed (prompt ++ "Variable from phase " ++ toString g.phase ++ " at index " ++
      toString g.variableIndex ++ " has value " ++ toString g.variableValue ++ " \n"), current)

/-! ## `main` -/

/-- The values of `option`. -/
inductive Command where
  | getP
  | setP
  | clr
  | getV
  | setV
deriving Repr, DecidableEq

/-- The command that the arguments behind the name of the program stand for. -/
def parse : List String → Option Command
  | [] => some .getP
  | [arg] =>
    if arg = "-gp" then some .getP
    else if arg = "-sp" then some .setP
    else if arg = "-clr" then some .clr
    else if arg = "-gv" then some .getV
    else if arg = "-sv" then some .setV
    else none
  | _ => none

/-- The `switch` of `main`. -/
def Command.run : Command → Outcome × AiGovernor
  | .getP => getPhase word env current
  | .setP => setPhase word env current
  | .clr => clrPhaseVariables word env current
  | .getV => getPhaseVariable word env current
  | .setV => setPhaseVariable word env current

/-- `main`, with the arguments behind the program's name. -/
def main (args : List String) : Outcome × AiGovernor :=
  -- without an argument `GET_P` is assumed, and said so
  let notice := if args = [] then [Message.noCommand] else []
  match parse args with
  | none => ({ status := 1, stdout := "", stderr := [.usage], behind := [] }, current)
  | some command =>
    match env.openError with
    | some errno =>
      ({ status := 2, stdout := "", stderr := notice ++ [.perror "AI_gov_app open" errno],
         behind := [] }, current)
    | none =>
      let (outcome, current) := command.run word env current
      ({ outcome with stderr := notice ++ outcome.stderr }, current)

end Governor
