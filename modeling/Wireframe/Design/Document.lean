/-
Design documents.

A document is the JSON text of a project.  It is read from the left, and the first thing that is
wrong is reported; members that mean nothing here are passed over, and what may be absent has a
default.  The properties of an element are read as any value first, so that nothing in them can
spoil the document.

* `Project.read` — the project of a document;
* `Project.toJson`, `Project.document` — a project as a value, and as the text of a document;
* `Element.toJson`, `Screen.toJson` — their parts.

Design notes:
* records are read into drafts in which every field may still be missing; when a record has been
  read, all its required fields are there, and the rest of the draft is filled with defaults.
-/
import Wireframe.Design.Project
import Wireframe.Json.Printer
import Wireframe.Json.Reader

namespace Wireframe.Design

open Json

/-! ### Writing -/

/-- A rectangle as a value. -/
def Rect.toJson {space : Space} (r : Rect space) : Json :=
  .object [("x", .ofFloat r.x), ("y", .ofFloat r.y), ("w", .ofFloat r.w), ("h", .ofFloat r.h)]

/-- An element as a value; properties that are `null` are left out. -/
def Element.toJson (e : Element) : Json :=
  .object ([("id", .string e.id), ("kind", .string e.widget.tag), ("rect", e.rect.toJson),
    ("zIndex", .ofInt e.zIndex.toInt)] ++
    if e.widget.properties.isNull then [] else [("props", e.widget.properties)])

/-- A screen as a value. -/
def Screen.toJson (s : Screen) : Json :=
  .object [("id", .string s.id), ("name", .string s.name),
    ("elements", .array (s.elements.map Element.toJson))]

/-- A project as a value. -/
def Project.toJson (p : Project) : Json :=
  .object (memberOf? "name" (p.name.map .string) ++ [("deviceProfile", .string p.profile.name),
    ("screens", .array (p.screens.map Screen.toJson))])

/-- The document of a project. -/
def Project.document (p : Project) : String := p.toJson.pretty

/-! ### Reading -/

/-- A field that is kept in one place of the draft. -/
def fieldAt {δ α : Type} (name : String) (required : Bool) (get : δ → Option α)
    (put : δ → α → δ) (reader : Reader α) : RecordField δ where
  name := name
  required := required
  filled draft := (get draft).isSome
  fill draft room source := do
    let (value, rest) ← reader room source
    return (put draft value, rest)

/-- A record as the value that its draft amounts to. -/
def readRecord {δ α : Type} (fields : List (RecordField δ)) (empty : δ) (finish : δ → α) :
    Reader α :=
  fun room source => do
    let (draft, rest) ← record fields empty room source
    return (finish draft, rest)

/-- A rectangle that is being read. -/
structure RectDraft where
  x : Option Float := none
  y : Option Float := none
  w : Option Float := none
  h : Option Float := none

/-- The fields of a rectangle. -/
def rectFields : List (RecordField RectDraft) :=
  [fieldAt "x" true RectDraft.x (fun d v => { d with x := some v }) readFloat,
    fieldAt "y" true RectDraft.y (fun d v => { d with y := some v }) readFloat,
    fieldAt "w" true RectDraft.w (fun d v => { d with w := some v }) readFloat,
    fieldAt "h" true RectDraft.h (fun d v => { d with h := some v }) readFloat]

/-- The rectangle of a draft. -/
def RectDraft.finish {space : Space} (d : RectDraft) : Rect space :=
  ⟨d.x.getD 0.0, d.y.getD 0.0, d.w.getD 0.0, d.h.getD 0.0⟩

/-- Reads a rectangle. -/
def readRect {space : Space} : Reader (Rect space) := readRecord rectFields {} RectDraft.finish

/-- An element that is being read. -/
structure ElementDraft where
  id : Option String := none
  tag : Option String := none
  rect : Option (Rect .canvas) := none
  zIndex : Option Int32 := none
  props : Option Json := none

/-- The fields of an element. -/
def elementFields : List (RecordField ElementDraft) :=
  [fieldAt "id" true ElementDraft.id (fun d v => { d with id := some v }) readText,
    fieldAt "kind" true ElementDraft.tag (fun d v => { d with tag := some v }) readText,
    fieldAt "rect" true ElementDraft.rect (fun d v => { d with rect := some v }) readRect,
    fieldAt "zIndex" false ElementDraft.zIndex (fun d v => { d with zIndex := some v }) readInt32,
    fieldAt "props" false ElementDraft.props (fun d v => { d with props := some v }) readValue]

/-- The element of a draft. -/
def ElementDraft.finish (d : ElementDraft) : Element where
  id := d.id.getD ""
  rect := d.rect.getD .empty
  zIndex := d.zIndex.getD 0
  widget := Widget.decode (d.tag.getD "") (d.props.getD .null)

/-- Reads an element. -/
def readElement : Reader Element := readRecord elementFields {} ElementDraft.finish

/-- A screen that is being read. -/
structure ScreenDraft where
  id : Option String := none
  name : Option String := none
  elements : Option (List Element) := none

/-- The fields of a screen. -/
def screenFields : List (RecordField ScreenDraft) :=
  [fieldAt "id" true ScreenDraft.id (fun d v => { d with id := some v }) readText,
    fieldAt "name" true ScreenDraft.name (fun d v => { d with name := some v }) readText,
    fieldAt "elements" false ScreenDraft.elements (fun d v => { d with elements := some v })
      (listOf readElement)]

/-- The screen of a draft. -/
def ScreenDraft.finish (d : ScreenDraft) : Screen where
  id := d.id.getD ""
  name := d.name.getD ""
  elements := d.elements.getD []

/-- Reads a screen. -/
def readScreen : Reader Screen := readRecord screenFields {} ScreenDraft.finish

/-- Reads the name of a profile; a name that no profile has means the default one. -/
def readProfile : Reader Profile := fun room source => do
  let (name, rest) ← readText room source
  return ((Profile.ofName? name).getD .mobile, rest)

/-- A project that is being read. -/
structure ProjectDraft where
  name : Option (Option String) := none
  profile : Option Profile := none
  screens : Option (List Screen) := none

/-- The fields of a project. -/
def projectFields : List (RecordField ProjectDraft) :=
  [fieldAt "name" false ProjectDraft.name (fun d v => { d with name := some v })
      (optional readText),
    fieldAt "deviceProfile" false ProjectDraft.profile (fun d v => { d with profile := some v })
      readProfile,
    fieldAt "screens" false ProjectDraft.screens (fun d v => { d with screens := some v })
      (listOf readScreen)]

/-- The project of a draft. -/
def ProjectDraft.finish (d : ProjectDraft) : Project where
  name := d.name.getD none
  profile := d.profile.getD .mobile
  screens := d.screens.getD []

/-- Reads a project. -/
def readProject : Reader Project := readRecord projectFields {} ProjectDraft.finish

/-- The project of a document. -/
def Project.read (source : Source) : Except Problem Project := readDocument readProject source

/-- The project of the text of a document. -/
def Project.ofText (text : String) : Except Problem Project := Project.read (.ofString text)

end Wireframe.Design
