/-
The name under which an archive is offered.

* `archiveStem` — the name of a project, fit for a file: letters, digits, hyphens, underscores,
  points and spaces, neither beginning nor ending with a point or a blank;
* `archiveName` — the name of the archive.
-/
import Wireframe.Text.Alphanumeric
import Wireframe.Text.Blank

namespace Wireframe.Export

/-- A character that may stand in the name of a file. -/
def isFileChar (c : Char) : Bool :=
  Text.isAlphanumeric c || c == '-' || c == '_' || c == '.' || c == ' '

/-- A character that may not stand at the ends of a name. -/
def isEdge (c : Char) : Bool := c == '.' || Text.isBlank c

/-- The name of a project with what is not fit for a file replaced; possibly empty. -/
def cleanName (name : List Char) : List Char :=
  Text.trimWhile isEdge
    ((Text.trimWhile Text.isBlank name).map fun c => if isFileChar c then c else '_')

/-- The name of a project, fit for a file. -/
def archiveStem (name : String) : List Char :=
  match cleanName name.toList with
  | [] => "project".toList
  | cleaned => cleaned

/-- The name of the archive of a project. -/
def archiveName (name : String) : String := String.ofList (archiveStem name) ++ ".zip"

example : archiveName " Shop / Demo. " = "Shop _ Demo.zip" := by decide +kernel

end Wireframe.Export
