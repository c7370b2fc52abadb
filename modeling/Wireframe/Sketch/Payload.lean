/-
What a detector saw.

A detector answers with a JSON text that lists boxes in pixels of the sketch, each of a kind and with
the details that it could make out.  The text may stand in a Markdown fence.

* `DetectedBox` — a box with its details;
* `stripFence` — the text inside a fence;
* `readPayload` — the boxes of an answer, or the first thing that is wrong with them;
* `PayloadError.message` — what is wrong, in words.
-/
import Wireframe.Design.Document
import Wireframe.Libraries
import Wireframe.Text.Blank

namespace Wireframe.Sketch

open Design

/-- Something that was seen on a sketch. -/
structure DetectedBox where
  kind : Kind
  bb : Rect .pixel
  text : Option String := none
  headers : Option (List String) := none
  rows : Option (List (List String)) := none
  items : Option (List String) := none
  options : Option (List String) := none
  url : Option String := none
  /-- The size of its text: a fraction of the height up to one, pixels above. -/
  fontSize : Option Float := none
deriving BEq, Repr, Inhabited

/-- Why an answer is refused. -/
inductive PayloadError
  /-- What stands in the answer is not what is expected, or no JSON at all. -/
  | json (problem : Json.Problem) (given : String)
  | unknownKind (index : Nat) (tag : String)
  /-- Not all numbers of the box are finite. -/
  | notFinite (index : Nat)
  /-- A number of the box is negative. -/
  | negative (index : Nat) (bb : Rect .pixel)
deriving Repr, Inhabited

/-- A refusal in words. -/
def PayloadError.message (libraries : Libraries) : PayloadError → String
  | json _ given => s!"payload is not valid JSON: {libraries.answerRefusal given}"
  | unknownKind index tag => s!"box {index} has unknown kind '{tag}'"
  | notFinite index => s!"box {index} has an invalid bb: non-finite coordinates"
  | negative index bb => s!"box {index} has an invalid bb: negative value in {bb.listing}"

/-! ### Fences -/

/-- Three backticks. -/
def fence : List Char := ['`', '`', '`']

/-- What follows the first line break, or everything if there is none. -/
def afterFirstLine (cs : List Char) : List Char :=
  match cs.dropWhile (· ≠ '\n') with
  | _ :: rest => rest
  | [] => cs

/-- A text without the blanks around it and without a fence. -/
def stripFence (cs : List Char) : List Char :=
  let trimmed := Text.trimWhile Text.isBlank cs
  match fence.isPrefixOf? trimmed with
  | none => trimmed
  | some rest =>
      let body := afterFirstLine rest
      let closed := Text.dropEndWhile Text.isBlank body
      Text.trimWhile Text.isBlank ((fence.isSuffixOf? closed).getD body)

/-! ### Reading boxes -/

open Json

/-- A box as it is given. -/
structure GivenBox where
  tag : String
  bb : Rect .pixel
  text : Option String
  headers : Option (List String)
  rows : Option (List (List String))
  items : Option (List String)
  options : Option (List String)
  url : Option String
  fontSize : Option Float

/-- A box that is being read. -/
structure BoxDraft where
  tag : Option String := none
  bb : Option (Rect .pixel) := none
  text : Option (Option String) := none
  headers : Option (Option (List String)) := none
  rows : Option (Option (List (List String))) := none
  items : Option (Option (List String)) := none
  options : Option (Option (List String)) := none
  url : Option (Option String) := none
  fontSize : Option (Option Float) := none

/-- The fields of a box. -/
def boxFields : List (RecordField BoxDraft) :=
  let texts := optional (listOf readText)
  [fieldAt "kind" true BoxDraft.tag (fun d v => { d with tag := some v }) readText,
    fieldAt "bb" true BoxDraft.bb (fun d v => { d with bb := some v }) readRect,
    fieldAt "text" false BoxDraft.text (fun d v => { d with text := some v }) (optional readText),
    fieldAt "headers" false BoxDraft.headers (fun d v => { d with headers := some v }) texts,
    fieldAt "rows" false BoxDraft.rows (fun d v => { d with rows := some v })
      (optional (listOf (listOf readText))),
    fieldAt "items" false BoxDraft.items (fun d v => { d with items := some v }) texts,
    fieldAt "options" false BoxDraft.options (fun d v => { d with options := some v }) texts,
    fieldAt "url" false BoxDraft.url (fun d v => { d with url := some v }) (optional readText),
    fieldAt "fontSize" false BoxDraft.fontSize (fun d v => { d with fontSize := some v })
      (optional readFloat)]

/-- The box of a draft. -/
def BoxDraft.finish (d : BoxDraft) : GivenBox where
  tag := d.tag.getD ""
  bb := d.bb.getD .empty
  text := d.text.getD none
  headers := d.headers.getD none
  rows := d.rows.getD none
  items := d.items.getD none
  options := d.options.getD none
  url := d.url.getD none
  fontSize := d.fontSize.getD none

/-- Reads a box. -/
def readBox : Reader GivenBox := readRecord boxFields {} BoxDraft.finish

/-- An answer that is being read. -/
structure PayloadDraft where
  boxes : Option (List GivenBox) := none

/-- Reads the boxes of an answer. -/
def readBoxes : Reader (List GivenBox) :=
  readRecord
    [fieldAt "boxes" true PayloadDraft.boxes (fun d v => { d with boxes := some v })
      (listOf readBox)]
    {} (·.boxes.getD [])

/-! ### Accepting boxes -/

/-- A size that text can have. -/
def isSize (size : Float) : Bool := size.isFinite && size > 0.0

/-- The box at a place of the list, if its kind is known and its numbers make sense. -/
def accept (index : Nat) (given : GivenBox) : Except PayloadError DetectedBox :=
  match Kind.ofTag? given.tag with
  | none => .error (.unknownKind index given.tag)
  | some kind =>
      let bb := given.bb
      if !bb.isFinite then .error (.notFinite index)
      else if bb.x < 0.0 || bb.y < 0.0 || bb.w < 0.0 || bb.h < 0.0 then .error (.negative index bb)
      else .ok { given with kind, fontSize := given.fontSize.filter isSize }

/-- The boxes from a place of the list on, or the first one that is refused. -/
def acceptFrom (index : Nat) : List GivenBox → Except PayloadError (List DetectedBox)
  | [] => .ok []
  | given :: rest => do
      let box ← accept index given
      return box :: (← acceptFrom (index + 1) rest)

/-- The boxes of a detector's answer. -/
def readPayload (text : String) : Except PayloadError (List DetectedBox) :=
  let given := stripFence text.toList
  match readDocument readBoxes (given.map .char) with
  | .error problem => .error (.json problem (String.ofList given))
  | .ok boxes => acceptFrom 0 boxes

end Wireframe.Sketch
