/-
From a sketch to a screen.

Every box that was seen on a sketch becomes an element of the screen, except for the labels that a
navigation bar has taken.  What was not made out has the defaults of its kind.

* `interpretBoxes` — the elements for a list of boxes;
* `interpretScreen` — a screen with these elements;
* `widgetOf` — what a box shows;
* `looksSecret` — the words by which a field for a password is recognised.
-/
import Wireframe.Failure
import Wireframe.Sketch.Absorption
import Wireframe.Sketch.Font
import Wireframe.Text.Words
import Wireframe.Text.Alphanumeric

namespace Wireframe.Sketch

open Design

/-- How a sketch is to be read. -/
structure Options where
  fontPolicy : FontPolicy := .stepped
  /-- The names of the screens that the entries of a bar lead to, by place; an entry beyond the list
  leads to the screen of its own name. -/
  targets : List String := []
deriving BEq, Repr, Inhabited

/-- The options of a value. -/
def Options.ofJson : Json.Decoder Options :=
  Json.asRecord ["fontPolicy", "targets"] fun given => do
    let d : Options := {}
    return {
      fontPolicy := ← given.optional "fontPolicy" FontPolicy.ofJson d.fontPolicy
      targets := ← given.optional "targets" (Json.asList Json.asText) d.targets }

/-- The depth of decorative shapes. -/
def backgroundDepth : Int32 := -1

/-- The depth of navigation bars. -/
def overlayDepth : Int32 := 100

/-- The depth of an element of a given kind. -/
def depthOf : Kind → Int32
  | .rectangle | .ellipse => backgroundDepth
  | .sidebar | .bottomNav => overlayDepth
  | _ => 0

/-- A text, if there is one and it is not blank. -/
def unlessBlank (text : Option String) : Option String := text.filter (!Text.isBlankText ·)

/-! ### Passwords -/

/-- A character in lower case, as far as it can be a letter of `secretWords`. -/
def lowerLetter (c : Char) : List Char :=
  match c with
  | 'Ñ' => ['ñ']
  | 'İ' => ['i', '\u0307']
  | c => [c.toLower]

/-- The words that tell of a password. -/
def secretWords : List String := ["password", "contraseña", "passcode", "pin"]

/-- A field with this text asks for something that nobody else should see. -/
def looksSecret (text : String) : Bool :=
  (Text.runs Text.isAlphanumeric (text.toList.flatMap lowerLetter)).any fun word =>
    secretWords.contains (String.ofList word)

/-! ### Navigation bars -/

/-- The names of entries, the first of which is entry number `number`; a blank one is named by its
number. -/
def entryNames (number : Nat) : List (Option String) → List String
  | [] => []
  | text :: rest => text.getD s!"Item {number}" :: entryNames (number + 1) rest

/-- Entries of the given names, leading to the given targets as far as they go. -/
def entriesOf : (names targets : List String) → List NavItem
  | [], _ => []
  | name :: names, [] => { text := name, targetScreen := name } :: entriesOf names []
  | name :: names, target :: targets =>
      { text := name, targetScreen := target } :: entriesOf names targets

/-- Title and names of entries of a bar at the side. -/
def sidebarTexts (box : DetectedBox) : Option (List Placed) → Option String × List String
  | some (first :: rest) =>
      (unlessBlank first.box.text, entryNames 1 (rest.map (unlessBlank ·.box.text)))
  | _ => (unlessBlank box.text, box.items.getD [])

/-- Names of entries of a bar at the bottom. -/
def bottomNavTexts (box : DetectedBox) : Option (List Placed) → List String
  | some labels => entryNames 1 (labels.map (unlessBlank ·.box.text))
  | none => box.items.getD []

/-! ### Boxes -/

/-- What a box shows, with text of a given size, where `taken` are the labels that it has taken. -/
def widgetOf (options : Options) (fontSize : Float) (taken : Option (List Placed))
    (box : DetectedBox) : Widget :=
  let text := unlessBlank box.text
  let url := unlessBlank box.url
  match box.kind with
  | .label =>
      let d : LabelProps := {}
      .label { d with text := text.getD d.text, fontSize }
  | .paragraph =>
      let d : ParagraphProps := {}
      .paragraph { d with text := text.getD d.text, fontSize }
  | .inputText =>
      let d : InputTextProps := {}
      let placeholder := text.getD d.placeholder
      .inputText { placeholder, fontSize, obscured := looksSecret placeholder }
  | .inputDate =>
      let d : InputDateProps := {}
      .inputDate { placeholder := text.getD d.placeholder, fontSize }
  | .button =>
      let d : ButtonProps := {}
      .button { d with text := text.getD d.text, fontSize }
  | .link =>
      let d : LinkProps := {}
      .link { d with text := text.getD d.text, url := url.getD d.url, fontSize }
  | .table =>
      let d : TableProps := {}
      let table : TableProps := { d with
        headers := box.headers.getD d.headers, rows := box.rows.getD [], colWidths := [], fontSize }
      .table table.balanced
  | .checkbox =>
      let d : CheckboxProps := {}
      .checkbox { d with text := text.getD d.text, fontSize }
  | .selector =>
      let selector : SelectorProps := { options := box.options.getD [], fontSize }
      .selector selector.filled
  | .sidebar =>
      let d : SidebarProps := {}
      let (title, names) := sidebarTexts box taken
      .sidebar { d with title := title.getD d.title, items := entriesOf names options.targets }
  | .bottomNav =>
      let d : BottomNavProps := {}
      .bottomNav { d with items := entriesOf (bottomNavTexts box taken) options.targets }
  | .rectangle => .rectangle {}
  | .ellipse => .ellipse {}
  | .image => .image { url := url.getD "" }
  | .video => .video { url := url.getD "" }
  | .audio => .audio { url := url.getD "" }

/-- The id of element number `number` of its kind. -/
def elementId (kind : Kind) (number : Nat) : String := s!"{kind.tag.toLower}-{number}"

/-- The size of the text of a box on an image of the given height. -/
def textSize (options : Options) (imageHeight : Float) (box : DetectedBox) : Float :=
  match box.fontSize with
  | some size => statedSize size imageHeight
  | none => options.fontPolicy.size box.bb.h imageHeight

/-- The element for a box, `earlier` being the kinds of the elements before it. -/
def elementOf (width height : Float) (options : Options) (absorption : Absorption)
    (earlier : List Kind) (placed : Placed) : Element :=
  let box := placed.box
  { id := elementId box.kind (earlier.count box.kind + 1)
    rect := box.bb.toCanvas width height
    zIndex := depthOf box.kind
    widget := widgetOf options (textSize options height box) (absorption.takenBy? placed.index)
      box }

/-- The elements for boxes of which none has been taken, `earlier` being the kinds before them. -/
def elementsOf (width height : Float) (options : Options) (absorption : Absorption)
    (earlier : List Kind) : List Placed → List Element
  | [] => []
  | placed :: rest =>
      elementOf width height options absorption earlier placed ::
        elementsOf width height options absorption (placed.box.kind :: earlier) rest

/-- The elements for the boxes that were seen on a sketch of the given size. -/
def interpretBoxes (width height : Nat) (boxes : List DetectedBox) (options : Options) :
    Except Failure (List Element) :=
  if width = 0 ∨ height = 0 then .error (.emptySketch width height)
  else if boxes.isEmpty then .error .noBoxes
  else
    let absorption := Absorption.of boxes
    let kept := (placedFrom 0 boxes).filter (!absorption.hasTaken ·.index)
    .ok (elementsOf (Float.ofNat width) (Float.ofNat height) options absorption [] kept)

/-- The screen for the boxes that were seen on a sketch. -/
def interpretScreen (id name : String) (width height : Nat) (boxes : List DetectedBox)
    (options : Options) : Except Failure Screen := do
  return { id, name, elements := ← interpretBoxes width height boxes options }

end Wireframe.Sketch
