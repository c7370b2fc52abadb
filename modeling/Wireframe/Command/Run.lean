/-
Running commands.

* `readProject` — the design of a document in a file;
* `Validation.perform`, `Interpretation.perform`, `Generation.perform`, `Exportation.perform` — what
  the commands do;
* `exportTo` — an export to a file;
* `run` — what the program does, and its exit code.
-/
import Wireframe.Command.Request
import Wireframe.Design.Document
import Wireframe.Design.Editing
import Wireframe.Review.Check
import Wireframe.Settings
import Wireframe.Sketch.Detection

namespace Wireframe.Command

open Design Files

/-- The name of the program. -/
def programName : String := "sketchport"

/-- The version of the program. -/
def programVersion : String := "0.1.0"

/-- What the program says of itself. -/
def aboutText : String :=
  s!"{programName} {programVersion}\n\nFrom hand-drawn UI sketches to Flutter projects.\n\n" ++
    s!"Run '{programName} --help' for usage information.\n"

/-- How the program is used. -/
def helpText : String :=
  s!"Usage: {programName} [-v] [--config FILE] COMMAND\n\nCommands:\n" ++
    "  validate INPUT [--strict] [--output text|json]\n" ++
    "  interpret --payload FILE [--image FILE | --width N --height N] [--screen-name NAME]\n" ++
    "            [--target NAME]... [--project FILE] [--device PROFILE] [-o FILE]\n" ++
    "  generate INPUT -o DIR\n" ++
    "  export INPUT [--skeleton DIR] [--work-dir DIR] [--name NAME] [-o FILE]\n"

/-- The version of the program or of one of its commands. -/
def versionText (command : Option String) : String :=
  match command with
  | some name => s!"{programName}-{name} {programVersion}\n"
  | none => s!"{programName} {programVersion}\n"

/-- Shows a text. -/
def display (text : String) : Job Unit := obtain (.request (.print text))

/-- Shows a line about what is going on. -/
def report (line : String) : Job Unit := obtain (.request (.report line))

section Commands

variable (libraries : Libraries)

/-- The design of a document in a file.  A directory can be opened like a file, but there is no document
in it. -/
def readProject (path : String) : Job Project := do
  let isDirectory ← obtain (.request (.isDirectory path))
  let bytes ← attempt (.request (.read path))
    (if isDirectory then .badDocument path else .unreadableDocument path)
  match Project.read (.ofBytes bytes) with
  | .ok project => return project
  | .error _ => throw (.badDocument path (libraries.documentRefusal bytes))

/-! ### Reviewing -/

/-- A report as a document. -/
def reportJson (found : Review.Report) : Json :=
  .object [("error_count", .ofInt found.errorCount), ("warning_count", .ofInt found.warningCount),
    ("issues", .array (found.issues.map Review.Issue.toJson))]

/-- A report as it is shown. -/
def shownReport (found : Review.Report) : ReportFormat → String
  | .text => found.text
  | .json => (reportJson found).pretty ++ "\n"

/-- Reviews a design. -/
def Validation.perform (validation : Validation) : Job Unit := do
  let project ← readProject libraries validation.input
  let found := Review.check validation.strict project
  display (shownReport found validation.format)
  if !found.isOk then throw (.rejected found)

/-! ### Reading sketches -/

/-- A detector whose answer is in a file. -/
def answerIn (path : String) : Sketch.Detector Script := do
  match ← Script.request (.read path) with
  | .error fault => return .error (.unreadable path fault.reason)
  | .ok bytes =>
      match bytesText? bytes with
      | some text => return .ok text
      | none => return .error (.unreadable path notText)

/-- The screen for a sketch. -/
def screenOf (interpretation : Interpretation) (options : Sketch.Options) : Job Screen := do
  let name := interpretation.screenName
  let detector := answerIn interpretation.payload
  match interpretation.size with
  | .image path => do
      let image ← attempt (.request (.read path)) fun reason => .unknownImage s!"{path}: {reason}"
      ExceptT.mk (Sketch.interpretSketch libraries detector image name options)
  | .pixels width height => do
      let boxes ← ExceptT.mk (Sketch.detect libraries detector)
      Job.settle
        (Sketch.interpretScreen ("screen-" ++ App.routeId name) name width height boxes options)
  | .unknown => throw .unknownSize

/-- The design to which a screen is added. -/
def projectFor (interpretation : Interpretation) : Job Project :=
  match interpretation.project with
  | some path => readProject libraries path
  | none => return { profile := interpretation.profile }

/-- Writes the document of a design to a file, or shows it. -/
def deliver (project : Project) : Option String → Job Unit
  | some path => attempt (writeFile path (textBytes project.document)) (.unwritableDocument path)
  | none => display (project.document ++ "\n")

/-- Adds the screen of a sketch to a design. -/
def Interpretation.perform (interpretation : Interpretation) (settings : Settings) : Job Unit := do
  let project ← projectFor libraries interpretation
  if (project.screenNamed? interpretation.screenName).isSome then
    throw (.screenExists interpretation.screenName)
  let screen ← screenOf libraries interpretation {
    fontPolicy := settings.effectivePolicy, targets := interpretation.targets }
  report s!"Interpreted screen '{screen.name}' with {screen.elements.length} element(s)"
  deliver (project.addScreen screen) interpretation.output

/-! ### Apps -/

/-- Writes the code of an app into a directory. -/
def Generation.perform (generation : Generation) : Job Unit := do
  let project ← readProject libraries generation.input
  let sources ← Job.settle (App.generate project)
  let written ← Export.writeSources generation.output sources.files
  display (s!"Generated {written} file(s) for {sources.units.length} screen(s) in " ++
    s!"{generation.output}\n")

/-- Exports an app to a file; if that fails, there is no file afterwards. -/
def exportTo (output : String) (project : Project) (options : Export.Options) :
    Job Export.Summary := do
  attempt (.request (.create output)) (.packaging output)
  match ← obtain ((Export.exportProject libraries.archiver project options).sendTo output) with
  | .ok summary => return summary
  | .error failure =>
      let _ ← obtain (.request (.removeFile output))
      throw failure

/-- Exports an app as an archive. -/
def Exportation.perform (exportation : Exportation) (settings : Settings) (temporary : String) :
    Job Unit := do
  let project ← readProject libraries exportation.input
  let options ← Job.settle (settings.exportOptions temporary exportation.skeleton
    exportation.workRoot exportation.name)
  let output := exportation.output.getD (Export.offeredName project options)
  let summary ← exportTo libraries output project options
  display
    s!"Exported {summary.entries} entries ({summary.bytes} bytes) to {output}\n"

/-! ### The program -/

/-- Does what a command asks for; `temporary` is the directory for temporary files. -/
def perform (settings : Settings) (temporary : String) : Command → Job Unit
  | .about => display aboutText
  | .validate validation => validation.perform libraries
  | .interpret interpretation => interpretation.perform libraries settings
  | .generate generation => generation.perform libraries
  | .exportArchive exportation => exportation.perform libraries settings temporary

/-- Reads the settings and does what the command asks for. -/
def invoke (temporary : String) (invocation : Invocation) : Job Unit := do
  let settings ← match invocation.config with
    | some path => Settings.load libraries path
    | none => pure {}
  perform libraries settings temporary invocation.command

/-- Shows why there is nothing to do; the exit code. -/
def explain (refusal : Refusal) : Script Nat := do
  match refusal.stop with
  | .help =>
      Script.request (.print helpText)
      return 0
  | .version =>
      Script.request (.print (versionText refusal.command))
      return 0
  | .refused =>
      Script.request (.report s!"{programName}: bad command line, see '{programName} --help'")
      return Category.inputValidation.exitCode

/-- Does what the command line and the variables of the environment ask for; the exit code. -/
def run (environment : List (String × String)) (temporary : String) (words : List String) :
    Script Nat := do
  match Invocation.read environment words with
  | .error refusal => explain refusal
  | .ok invocation =>
      match ← (invoke libraries temporary invocation).run with
      | .ok () => return 0
      | .error failure =>
          Script.request (.report s!"error[{failure.category.name}]: {failure.message}")
          return failure.category.exitCode

end Commands

end Wireframe.Command
