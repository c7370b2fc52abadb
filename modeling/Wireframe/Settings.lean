/-
Settings.

Settings come from a file, and everything in them may be left out.  What the command line says goes
before them, and what neither says is given by the library.

* `Settings` — what a file can set;
* `Settings.ofText?` — the settings of a text;
* `Settings.load` — the settings of a file, from the directory of which their paths are taken;
* `Settings.exportOptions` — how to export.
-/
import Wireframe.Export.Project
import Wireframe.Libraries
import Wireframe.Sketch.Font
import Wireframe.Text.Blank
import Wireframe.Yaml.Node

namespace Wireframe

open Files (join parent bytesText? notText)
open Sketch (FontPolicy)
open Yaml (Node Value)

/-- What a file of settings can say. -/
structure Settings where
  /-- The directory of the skeleton. -/
  skeleton : Option String := none
  /-- The directory of the workspaces. -/
  workRoot : Option String := none
  /-- What is left out of the skeleton. -/
  denyList : Option (List String) := none
  fontPolicy : Option FontPolicy := none
deriving BEq, Repr, Inhabited

namespace Settings

/-! ### Reading -/

/-- The names of the settings. -/
def names : List String := ["skeleton_dir", "work_dir", "deny_list", "font_policy"]

/-- A list of texts. -/
def textsOf? : Node → Option (List String)
  | .sequence _ items => items.mapM Node.text?
  | .scalar _ true "" => some []
  | _ => none

/-- The key is that of the ratio: its name, or its place.  Keys are names or places. -/
def isRatio? : Value → Option Bool
  | .string name => some (name == "ratio")
  | .natural place => some (place == 0)
  | _ => none

/-- The policy of a ratio, among other entries. -/
def proportionalOf? (entries : List (Value × Value)) : Option FontPolicy := do
  let marked ← entries.mapM fun (key, value) => do return (← isRatio? key, value)
  match marked.filter (·.1) with
  | [(_, ratio)] => return .proportional (← ratio.toFloat?)
  | _ => none

/-- The key is the one that says which policy is meant. -/
def isMode : Value → Bool
  | .string name => name == "mode"
  | _ => false

/-- A policy: its mode and what else is given with it, by name or by place. -/
def policyOf? : Node → Option FontPolicy
  | .mapping tag entries => do
      if !Node.mayHold tag then failure
      let keyed ← entries.mapM fun (key, node) => do return (← key.value?, node)
      let others ← (keyed.filter (!isMode ·.1)).mapM fun (key, node) => do
        return (key, ← node.value?)
      match keyed.filter (isMode ·.1) with
      | [(_, mode)] =>
          match ← mode.text? with
          | "stepped" => return .stepped
          | "proportional" => proportionalOf? others
          | _ => none
      | _ => none
  | .sequence tag (mode :: items) => do
      if !Node.mayHold tag then failure
      let values ← items.mapM Node.value?
      match ← mode.text?, values with
      | "stepped", [] => return .stepped
      | "proportional", [ratio] => return .proportional (← ratio.toFloat?)
      | _, _ => none
  | _ => none

/-- A setting that may be left out or stand for nothing. -/
def setting? {α : Type} (entries : List (String × Node)) (name : String)
    (decode? : Node → Option α) : Option (Option α) :=
  match entries.lookup name with
  | none => some none
  | some node => do
      match ← node.given? with
      | none => return none
      | some node => return some (← decode? node)

/-- The settings of entries, each of which has a name of its own. -/
def ofEntries? (entries : List (String × Node)) : Option Settings := do
  let given := entries.map (·.1)
  if !given.Nodup || !given.all names.contains then failure
  return {
    skeleton := ← setting? entries "skeleton_dir" Node.text?
    workRoot := ← setting? entries "work_dir" Node.text?
    denyList := ← setting? entries "deny_list" textsOf?
    fontPolicy := ← setting? entries "font_policy" policyOf? }

/-- The settings of the root of a document. -/
def ofNode? : Node → Option Settings
  | .mapping _ entries => do
      ofEntries? (← entries.mapM fun (key, value) => do return (← key.text?, value))
  | .scalar _ true "" => some {}
  | _ => none

/-- The settings of a text, which may be empty. -/
def ofText? (text : String) : Option Settings :=
  if Text.isBlankText text then some {}
  else do
    match ← Yaml.readDocument? text with
    | none => return ({} : Settings)
    | some root => ofNode? root

/-- The settings with their paths taken from a directory. -/
def under (settings : Settings) (directory : String) : Settings :=
  { settings with
    skeleton := settings.skeleton.map (join directory)
    workRoot := settings.workRoot.map (join directory) }

/-- The settings of a file. -/
def load (libraries : Libraries) (path : String) : Job Settings := do
  let bytes ← attempt (.request (.read path)) (.badSettings path)
  match bytesText? bytes with
  | none => throw (.badSettings path notText)
  | some text =>
      match ofText? text with
      | some settings => return settings.under (parent path)
      | none => throw (.badSettings path (libraries.settingsRefusal text))

/-! ### Use -/

/-- The policy in force. -/
def effectivePolicy (settings : Settings) : FontPolicy := settings.fontPolicy.getD .stepped

/-- How to export, given what the command line says; `temporary` is the directory for workspaces if
nothing else is said. -/
def exportOptions (settings : Settings) (temporary : String)
    (skeleton workRoot archiveName : Option String) : Except Failure Export.Options :=
  match skeleton.or settings.skeleton with
  | none => .error .noSkeletonGiven
  | some skeleton =>
      .ok {
        skeleton
        workRoot := (workRoot.or settings.workRoot).getD temporary
        denyList := settings.denyList.getD Export.defaultDenyList
        archiveName }

end Settings

end Wireframe
