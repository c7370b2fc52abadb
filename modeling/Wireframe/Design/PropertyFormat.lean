/-
Properties in documents.

A record of properties is an object with one member for each property, in the order of their names.
Every member may be left out and then has its default; an icon or a border colour that is not there
is not written.  What is wrong anywhere in a record spoils the record as a whole.

* `LabelProps.toJson`, `LabelProps.ofJson` and so on — a record as a value, and the record of a
  value;
* `asColor`, `asChoice` — colours and words of a fixed list.

Design notes:
* a record may also be given as an array of its fields in the order in which the record lists them;
* a word of a fixed list may also be given as an object with that word as its only name.
-/
import Wireframe.Design.Properties
import Wireframe.Json.Decoder

namespace Wireframe.Design

open Json

/-! ### Parts of records -/

/-- A colour as a value. -/
def Color.toJson (c : Color) : Json := .string c.text

/-- The colour of a value. -/
def asColor : Decoder Color := fun json => do
  match Color.parse? (← asText json) with
  | some c => return c
  | none => throw .invalidValue

/-- A choice among named alternatives. -/
def asChoice {α : Type} (named : String → Option α) : Decoder α
  | .string word => choose word
  | .object [(word, .null)] => choose word
  | _ => .error .invalidType
where
  /-- The alternative of this name. -/
  choose (word : String) : Except Mismatch α :=
    match named word with
    | some a => .ok a
    | none => .error (.unknownVariant word)

namespace TextAlign

/-- The word for an alignment. -/
def word : TextAlign → String
  | left => "left"
  | center => "center"
  | right => "right"
  | justify => "justify"

/-- The alignment that a word stands for. -/
def ofWord? (word : String) : Option TextAlign :=
  [left, center, right, justify].find? (·.word == word)

theorem ofWord?_word (a : TextAlign) : ofWord? a.word = some a := by cases a <;> rfl

end TextAlign

namespace ImageFit

/-- The word for a fit. -/
def word : ImageFit → String
  | cover => "cover"
  | contain => "contain"
  | fill => "fill"

/-- The fit that a word stands for. -/
def ofWord? (word : String) : Option ImageFit :=
  [cover, contain, fill].find? (·.word == word)

theorem ofWord?_word (f : ImageFit) : ofWord? f.word = some f := by cases f <;> rfl

end ImageFit

/-- A member that is left out when it has no value. -/
def memberOf? (name : String) (value : Option Json) : List (String × Json) :=
  value.toList.map (name, ·)

/-! ### Records -/

/-- A label as a value. -/
def LabelProps.toJson (p : LabelProps) : Json :=
  .sorted [("text", .string p.text), ("fontSize", .ofFloat p.fontSize), ("color", p.color.toJson),
    ("bold", .bool p.bold)]

/-- The label of a value. -/
def LabelProps.ofJson : Decoder LabelProps :=
  asRecord ["text", "fontSize", "color", "bold"] fun given => do
    let d : LabelProps := {}
    return {
      text := ← given.optional "text" asText d.text
      fontSize := ← given.optional "fontSize" asFloat d.fontSize
      color := ← given.optional "color" asColor d.color
      bold := ← given.optional "bold" asBool d.bold }

/-- A paragraph as a value. -/
def ParagraphProps.toJson (p : ParagraphProps) : Json :=
  .sorted [("text", .string p.text), ("fontSize", .ofFloat p.fontSize), ("color", p.color.toJson),
    ("align", .string p.align.word)]

/-- The paragraph of a value. -/
def ParagraphProps.ofJson : Decoder ParagraphProps :=
  asRecord ["text", "fontSize", "color", "align"] fun given => do
    let d : ParagraphProps := {}
    return {
      text := ← given.optional "text" asText d.text
      fontSize := ← given.optional "fontSize" asFloat d.fontSize
      color := ← given.optional "color" asColor d.color
      align := ← given.optional "align" (asChoice TextAlign.ofWord?) d.align }

/-- A field for text as a value. -/
def InputTextProps.toJson (p : InputTextProps) : Json :=
  .sorted [("placeholder", .string p.placeholder), ("fontSize", .ofFloat p.fontSize),
    ("obscured", .bool p.obscured)]

/-- The field for text of a value. -/
def InputTextProps.ofJson : Decoder InputTextProps :=
  asRecord ["placeholder", "fontSize", "obscured"] fun given => do
    let d : InputTextProps := {}
    return {
      placeholder := ← given.optional "placeholder" asText d.placeholder
      fontSize := ← given.optional "fontSize" asFloat d.fontSize
      obscured := ← given.optional "obscured" asBool d.obscured }

/-- A field for a date as a value. -/
def InputDateProps.toJson (p : InputDateProps) : Json :=
  .sorted [("placeholder", .string p.placeholder), ("fontSize", .ofFloat p.fontSize)]

/-- The field for a date of a value. -/
def InputDateProps.ofJson : Decoder InputDateProps :=
  asRecord ["placeholder", "fontSize"] fun given => do
    let d : InputDateProps := {}
    return {
      placeholder := ← given.optional "placeholder" asText d.placeholder
      fontSize := ← given.optional "fontSize" asFloat d.fontSize }

/-- A button as a value. -/
def ButtonProps.toJson (p : ButtonProps) : Json :=
  .sorted [("text", .string p.text), ("bgColor", p.bgColor.toJson),
    ("textColor", p.textColor.toJson), ("borderRadius", .ofFloat p.borderRadius),
    ("fontSize", .ofFloat p.fontSize)]

/-- The button of a value. -/
def ButtonProps.ofJson : Decoder ButtonProps :=
  asRecord ["text", "bgColor", "textColor", "borderRadius", "fontSize"] fun given => do
    let d : ButtonProps := {}
    return {
      text := ← given.optional "text" asText d.text
      bgColor := ← given.optional "bgColor" asColor d.bgColor
      textColor := ← given.optional "textColor" asColor d.textColor
      borderRadius := ← given.optional "borderRadius" asFloat d.borderRadius
      fontSize := ← given.optional "fontSize" asFloat d.fontSize }

/-- A link as a value. -/
def LinkProps.toJson (p : LinkProps) : Json :=
  .sorted [("text", .string p.text), ("url", .string p.url), ("color", p.color.toJson),
    ("fontSize", .ofFloat p.fontSize)]

/-- The link of a value. -/
def LinkProps.ofJson : Decoder LinkProps :=
  asRecord ["text", "url", "color", "fontSize"] fun given => do
    let d : LinkProps := {}
    return {
      text := ← given.optional "text" asText d.text
      url := ← given.optional "url" asText d.url
      color := ← given.optional "color" asColor d.color
      fontSize := ← given.optional "fontSize" asFloat d.fontSize }

/-- A table as a value. -/
def TableProps.toJson (p : TableProps) : Json :=
  .sorted [("headers", .ofStrings p.headers), ("rows", .array (p.rows.map .ofStrings)),
    ("colWidths", .array (p.colWidths.map .ofFloat)), ("fontSize", .ofFloat p.fontSize),
    ("headerColor", p.headerColor.toJson)]

/-- The table of a value. -/
def TableProps.ofJson : Decoder TableProps :=
  asRecord ["headers", "rows", "colWidths", "fontSize", "headerColor"] fun given => do
    let d : TableProps := {}
    return {
      headers := ← given.optional "headers" (asList asText) d.headers
      rows := ← given.optional "rows" (asList (asList asText)) d.rows
      colWidths := ← given.optional "colWidths" (asList asFloat) d.colWidths
      fontSize := ← given.optional "fontSize" asFloat d.fontSize
      headerColor := ← given.optional "headerColor" asColor d.headerColor }

/-- A checkbox as a value. -/
def CheckboxProps.toJson (p : CheckboxProps) : Json :=
  .sorted [("text", .string p.text), ("checked", .bool p.checked),
    ("fontSize", .ofFloat p.fontSize)]

/-- The checkbox of a value. -/
def CheckboxProps.ofJson : Decoder CheckboxProps :=
  asRecord ["text", "checked", "fontSize"] fun given => do
    let d : CheckboxProps := {}
    return {
      text := ← given.optional "text" asText d.text
      checked := ← given.optional "checked" asBool d.checked
      fontSize := ← given.optional "fontSize" asFloat d.fontSize }

/-- A selector as a value. -/
def SelectorProps.toJson (p : SelectorProps) : Json :=
  .sorted [("options", .ofStrings p.options), ("fontSize", .ofFloat p.fontSize)]

/-- The selector of a value. -/
def SelectorProps.ofJson : Decoder SelectorProps :=
  asRecord ["options", "fontSize"] fun given => do
    let d : SelectorProps := {}
    return {
      options := ← given.optional "options" (asList asText) d.options
      fontSize := ← given.optional "fontSize" asFloat d.fontSize }

/-- An entry of a navigation bar as a value. -/
def NavItem.toJson (i : NavItem) : Json :=
  .sorted ([("text", .string i.text), ("targetScreen", .string i.targetScreen)] ++
    memberOf? "icon" (i.icon.map .string))

/-- The entry of a navigation bar of a value. -/
def NavItem.ofJson : Decoder NavItem :=
  asRecord ["text", "targetScreen", "icon"] fun given => do
    let d : NavItem := {}
    return {
      text := ← given.optional "text" asText d.text
      targetScreen := ← given.optional "targetScreen" asText d.targetScreen
      icon := ← given.optional "icon" (nullable asText) d.icon }

/-- A navigation bar at the side as a value. -/
def SidebarProps.toJson (p : SidebarProps) : Json :=
  .sorted [("title", .string p.title), ("items", .array (p.items.map NavItem.toJson)),
    ("visible", .bool p.visible), ("bgColor", p.bgColor.toJson),
    ("textColor", p.textColor.toJson), ("itemColor", p.itemColor.toJson)]

/-- The navigation bar at the side of a value. -/
def SidebarProps.ofJson : Decoder SidebarProps :=
  asRecord ["title", "items", "visible", "bgColor", "textColor", "itemColor"] fun given => do
    let d : SidebarProps := {}
    return {
      title := ← given.optional "title" asText d.title
      items := ← given.optional "items" (asList NavItem.ofJson) d.items
      visible := ← given.optional "visible" asBool d.visible
      bgColor := ← given.optional "bgColor" asColor d.bgColor
      textColor := ← given.optional "textColor" asColor d.textColor
      itemColor := ← given.optional "itemColor" asColor d.itemColor }

/-- A navigation bar at the bottom as a value. -/
def BottomNavProps.toJson (p : BottomNavProps) : Json :=
  .sorted [("items", .array (p.items.map NavItem.toJson)), ("bgColor", p.bgColor.toJson),
    ("activeColor", p.activeColor.toJson), ("inactiveColor", p.inactiveColor.toJson)]

/-- The navigation bar at the bottom of a value. -/
def BottomNavProps.ofJson : Decoder BottomNavProps :=
  asRecord ["items", "bgColor", "activeColor", "inactiveColor"] fun given => do
    let d : BottomNavProps := {}
    return {
      items := ← given.optional "items" (asList NavItem.ofJson) d.items
      bgColor := ← given.optional "bgColor" asColor d.bgColor
      activeColor := ← given.optional "activeColor" asColor d.activeColor
      inactiveColor := ← given.optional "inactiveColor" asColor d.inactiveColor }

/-- A shape as a value. -/
def ShapeProps.toJson (p : ShapeProps) : Json :=
  .sorted (("fill", p.fill.toJson) :: memberOf? "borderColor" (p.borderColor.map Color.toJson) ++
    [("borderWidth", .ofFloat p.borderWidth), ("borderRadius", .ofFloat p.borderRadius)])

/-- The shape of a value. -/
def ShapeProps.ofJson : Decoder ShapeProps :=
  asRecord ["fill", "borderColor", "borderWidth", "borderRadius"] fun given => do
    let d : ShapeProps := {}
    return {
      fill := ← given.optional "fill" asColor d.fill
      borderColor := ← given.optional "borderColor" (nullable asColor) d.borderColor
      borderWidth := ← given.optional "borderWidth" asFloat d.borderWidth
      borderRadius := ← given.optional "borderRadius" asFloat d.borderRadius }

/-- An image as a value. -/
def ImageProps.toJson (p : ImageProps) : Json :=
  .sorted [("url", .string p.url), ("fit", .string p.fit.word)]

/-- The image of a value. -/
def ImageProps.ofJson : Decoder ImageProps :=
  asRecord ["url", "fit"] fun given => do
    let d : ImageProps := {}
    return {
      url := ← given.optional "url" asText d.url
      fit := ← given.optional "fit" (asChoice ImageFit.ofWord?) d.fit }

/-- A video or a sound as a value. -/
def MediaProps.toJson (p : MediaProps) : Json :=
  .sorted [("url", .string p.url), ("autoplay", .bool p.autoplay)]

/-- The video or sound of a value. -/
def MediaProps.ofJson : Decoder MediaProps :=
  asRecord ["url", "autoplay"] fun given => do
    let d : MediaProps := {}
    return {
      url := ← given.optional "url" asText d.url
      autoplay := ← given.optional "autoplay" asBool d.autoplay }

end Wireframe.Design
