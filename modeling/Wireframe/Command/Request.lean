/-
Commands.

* `Command` — what the program can be told to do;
* `Invocation.read` — what a command line and the environment tell it to do.

Design notes:
* the version and the help of a command are asked for among its own arguments;
* an option that every command has may stand before the command or after it; what stands after it
  counts, and what the environment says counts least.
-/
import Wireframe.Command.Arguments
import Wireframe.Design.Project

namespace Wireframe.Command

open Design (Profile)

/-- How a report is shown. -/
inductive ReportFormat
  | text
  | json
deriving DecidableEq, Repr, Inhabited

/-- The format of a name. -/
def ReportFormat.ofName? : String → Option ReportFormat
  | "text" => some .text
  | "json" => some .json
  | _ => none

/-- What tells how large a sketch is. -/
inductive SketchSize
  /-- An image of it. -/
  | image (path : String)
  | pixels (width height : Nat)
  | unknown
deriving DecidableEq, Repr, Inhabited

/-- Reviewing a design. -/
structure Validation where
  input : String
  strict : Bool := false
  format : ReportFormat := .text
deriving Repr, DecidableEq, Inhabited

/-- Adding the screen of a sketch to a design. -/
structure Interpretation where
  /-- The answer of the detector. -/
  payload : String
  size : SketchSize
  screenName : String := "Home"
  targets : List String := []
  /-- The design; a new one if there is none. -/
  project : Option String := none
  /-- The device of a new design. -/
  profile : Profile := .mobile
  /-- Where the design goes; it is shown if that is not said. -/
  output : Option String := none
deriving Repr, DecidableEq, Inhabited

/-- Writing the code of an app into a directory. -/
structure Generation where
  input : String
  output : String
deriving Repr, DecidableEq, Inhabited

/-- Exporting an app as an archive. -/
structure Exportation where
  input : String
  skeleton : Option String := none
  workRoot : Option String := none
  name : Option String := none
  /-- The archive; it is called by its name if that is not said. -/
  output : Option String := none
deriving Repr, DecidableEq, Inhabited

end Command

/-- What the program can be told to do. -/
inductive Command
  /-- To say what it is. -/
  | about
  | validate (validation : Command.Validation)
  | interpret (interpretation : Command.Interpretation)
  | generate (generation : Command.Generation)
  | exportArchive (exportation : Command.Exportation)
deriving Repr, Inhabited

namespace Command

open Design (Profile)

/-! ### What may be given -/

/-- A path, which is not empty. -/
def isPath (word : String) : Bool := !word.isEmpty

/-- Any text. -/
def isText (_ : String) : Bool := true

/-- A number of pixels. -/
def pixels? (word : String) : Option Nat :=
  let (negative, digits) := match word.toList with
    | '+' :: digits => (false, digits)
    | '-' :: digits => (true, digits)
    | digits => (false, digits)
  if digits.isEmpty || !digits.all Char.isDigit then none
  else
    let n := digits.foldl (fun n c => n * 10 + (c.toNat - '0'.toNat)) 0
    if n ≤ 0xFFFFFFFF && (!negative || n == 0) then some n else none

/-- What may be given anywhere. -/
def anywhere : List Parameter :=
  [{ name := "verbose", letter := some 'v' },
    { name := "config", value := some isPath, variableName := some "SKETCHPORT_CONFIG" }]

/-- The place before a command. -/
def topLevel : Level where
  parameters := anywhere
  commands := ["validate", "interpret", "generate", "export", "help"]

/-- The arguments of a review. -/
def validateLevel : Level where
  parameters := anywhere ++
    [{ name := "strict" },
      { name := "output", value := some fun word => (ReportFormat.ofName? word).isSome }]
  operands := [isPath]

/-- The arguments for reading a sketch. -/
def interpretLevel : Level where
  parameters := anywhere ++
    [{ name := "payload", value := some isPath },
      { name := "image", value := some isPath },
      { name := "width", value := some fun word => (pixels? word).isSome },
      { name := "height", value := some fun word => (pixels? word).isSome },
      { name := "screen-name", value := some isText },
      { name := "target", value := some isText, repeats := true },
      { name := "project", value := some isPath },
      { name := "device", value := some fun word => (Profile.ofName? word).isSome },
      { name := "output", letter := some 'o', value := some isPath }]

/-- The arguments for writing code. -/
def generateLevel : Level where
  parameters := anywhere ++ [{ name := "output", letter := some 'o', value := some isPath }]
  operands := [isPath]

/-- The arguments of an export. -/
def exportLevel : Level where
  parameters := anywhere ++
    [{ name := "skeleton", value := some isPath, variableName := some "SKETCHPORT_SKELETON" },
      { name := "work-dir", value := some isPath, variableName := some "SKETCHPORT_WORK_DIR" },
      { name := "name", value := some isText },
      { name := "output", letter := some 'o', value := some isPath }]
  operands := [isPath]

/-! ### Reading -/

/-- Something that has to be given. -/
def needed {α : Type} : Option α → Except Stop α
  | some a => .ok a
  | none => .error .refused

/-- The only operand. -/
def Given.operand (given : Given) : Except Stop String := needed given.operands.head?

/-- The review that is asked for. -/
def Validation.ofGiven (given : Given) : Except Stop Validation := do
  return {
    input := ← given.operand
    strict := given.has "strict"
    format := ((given.value? "output").bind ReportFormat.ofName?).getD .text }

/-- What tells the size of a sketch; an image and a size together say too much, and half a size too
little. -/
def SketchSize.ofGiven (given : Given) : Except Stop SketchSize :=
  match given.value? "image", (given.value? "width").bind pixels?,
    (given.value? "height").bind pixels? with
  | some path, none, none => .ok (.image path)
  | none, some width, some height => .ok (.pixels width height)
  | none, none, none => .ok .unknown
  | _, _, _ => .error .refused

/-- The reading of a sketch that is asked for. -/
def Interpretation.ofGiven (given : Given) : Except Stop Interpretation := do
  return {
    payload := ← needed (given.value? "payload")
    size := ← SketchSize.ofGiven given
    screenName := (given.value? "screen-name").getD "Home"
    targets := given.values "target"
    project := given.value? "project"
    profile := ((given.value? "device").bind Profile.ofName?).getD .mobile
    output := given.value? "output" }

/-- The code that is asked for. -/
def Generation.ofGiven (given : Given) : Except Stop Generation := do
  return { input := ← given.operand, output := ← needed (given.value? "output") }

/-- The export that is asked for. -/
def Exportation.ofGiven (given : Given) : Except Stop Exportation := do
  return {
    input := ← given.operand
    skeleton := given.value? "skeleton"
    workRoot := given.value? "work-dir"
    name := given.value? "name"
    output := given.value? "output" }

/-- The place after a command, and the command for what is given there. -/
def commandNamed? : String → Option (Level × (Given → Except Stop Command))
  | "validate" => some (validateLevel, fun given => .validate <$> Validation.ofGiven given)
  | "interpret" => some (interpretLevel, fun given => .interpret <$> Interpretation.ofGiven given)
  | "generate" => some (generateLevel, fun given => .generate <$> Generation.ofGiven given)
  | "export" => some (exportLevel, fun given => .exportArchive <$> Exportation.ofGiven given)
  | _ => none

/-- Help is asked for by a word, with or without the name of a command after it. -/
def readHelp : List String → Stop
  | [] => .help
  | [word] => if topLevel.commands.contains word then .help else .refused
  | _ => .refused

end Command

/-- What the program is told to do. -/
structure Invocation where
  /-- The file of the settings. -/
  config : Option String := none
  command : Command := .about
deriving Repr, Inhabited

/-- Why there is nothing to do, and for which command. -/
structure Command.Refusal where
  stop : Command.Stop
  command : Option String := none
deriving Repr, Inhabited

namespace Invocation

open Command

/-- The options of a level as they are read and then completed by the environment. -/
def complete (level : Level) (environment : List (String × String)) (given : Given) :
    Except Stop Given :=
  given.orEnvironment environment level.parameters

/-- What a command and its arguments tell, after what is given before it. -/
def readCommand (environment : List (String × String)) (before : Given) (call : Call) :
    Except Stop Invocation :=
  match commandNamed? call.name with
  | none => .error (readHelp call.words)
  | some (level, build) => do
      let (after, _) ← Command.read level call.words
      let given ← complete level environment after
      let command ← build given
      let before ← before.addLate call.late
      let top ← complete topLevel environment before
      let config := (after.value? "config").or ((before.value? "config").or (top.value? "config"))
      return { config, command }

/-- What a command line and the variables of the environment tell. -/
def read (environment : List (String × String)) (words : List String) :
    Except Refusal Invocation :=
  match Command.read topLevel words with
  | .error stop => .error { stop }
  | .ok (before, none) =>
      match complete topLevel environment before with
      | .error stop => .error { stop }
      | .ok given => .ok { config := given.value? "config" }
  | .ok (before, some call) =>
      match readCommand environment before call with
      | .error stop => .error { stop, command := some call.name }
      | .ok invocation => .ok invocation

end Invocation

end Wireframe
