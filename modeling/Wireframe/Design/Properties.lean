/-
The properties of elements.

Each kind of element has a record of properties with a default for each of them.  Sizes of text are
fractions of the height of the canvas.

* `LabelProps` to `MediaProps` — the records, with their defaults;
* `TableProps.balanced` — the widths of the columns scaled to fill the table.
-/
import Wireframe.Design.Color

namespace Wireframe.Design

/-- The size of text where nothing else is said. -/
def defaultFontSize : Float := 0.02

/-- A line of text. -/
structure LabelProps where
  text : String := "Label"
  fontSize : Float := 0.025
  color : Color := .ofRgb 0x111827
  bold : Bool := false
deriving BEq, Repr, Inhabited

/-- How the lines of a paragraph are set. -/
inductive TextAlign
  | left
  | center
  | right
  | justify
deriving DecidableEq, Repr, Inhabited

/-- A text of several lines. -/
structure ParagraphProps where
  text : String := "Lorem ipsum dolor sit amet, consectetur adipiscing elit."
  fontSize : Float := defaultFontSize
  color : Color := .ofRgb 0x374151
  align : TextAlign := .left
deriving BEq, Repr, Inhabited

/-- A field for text; what is typed into an obscured one is hidden. -/
structure InputTextProps where
  placeholder : String := "Enter text"
  fontSize : Float := defaultFontSize
  obscured : Bool := false
deriving BEq, Repr, Inhabited

/-- A field for a date. -/
structure InputDateProps where
  placeholder : String := "Select a date"
  fontSize : Float := defaultFontSize
deriving BEq, Repr, Inhabited

/-- A button. -/
structure ButtonProps where
  text : String := "Button"
  bgColor : Color := .ofRgb 0x007bff
  textColor : Color := .ofRgb 0xffffff
  borderRadius : Float := 4.0
  fontSize : Float := defaultFontSize
deriving BEq, Repr, Inhabited

/-- A text that opens an address. -/
structure LinkProps where
  text : String := "Link"
  url : String := "https://example.com"
  color : Color := .ofRgb 0x2563eb
  fontSize : Float := defaultFontSize
deriving BEq, Repr, Inhabited

/-- A table of texts; the widths of its columns are fractions of its own width. -/
structure TableProps where
  headers : List String := ["Column 1", "Column 2"]
  rows : List (List String) := []
  colWidths : List Float := [0.5, 0.5]
  fontSize : Float := 0.018
  headerColor : Color := .ofRgb 0xe5e7eb
deriving BEq, Repr, Inhabited

/-- A box to tick. -/
structure CheckboxProps where
  text : String := "Option"
  checked : Bool := false
  fontSize : Float := defaultFontSize
deriving BEq, Repr, Inhabited

/-- The options of a selector that has none of its own. -/
def defaultOptions : List String := ["Option 1", "Option 2"]

/-- A choice of one out of several options. -/
structure SelectorProps where
  options : List String := defaultOptions
  fontSize : Float := defaultFontSize
deriving BEq, Repr, Inhabited

/-- An entry of a navigation bar and the name of the screen it leads to. -/
structure NavItem where
  text : String := ""
  targetScreen : String := ""
  icon : Option String := none
deriving BEq, Repr, Inhabited

/-- A navigation bar at the side. -/
structure SidebarProps where
  title : String := "Menu"
  items : List NavItem := []
  visible : Bool := true
  bgColor : Color := .ofRgb 0x1f2937
  textColor : Color := .ofRgb 0xffffff
  itemColor : Color := .ofRgb 0x374151
deriving BEq, Repr, Inhabited

/-- A navigation bar at the bottom. -/
structure BottomNavProps where
  items : List NavItem := []
  bgColor : Color := .ofRgb 0xffffff
  activeColor : Color := .ofRgb 0x2563eb
  inactiveColor : Color := .ofRgb 0x6b7280
deriving BEq, Repr, Inhabited

/-- A rectangle or an ellipse. -/
structure ShapeProps where
  fill : Color := .ofRgb 0xe5e7eb
  borderColor : Option Color := none
  borderWidth : Float := 0.0
  borderRadius : Float := 0.0
deriving BEq, Repr, Inhabited

/-- How an image fills its place. -/
inductive ImageFit
  | cover
  | contain
  | fill
deriving DecidableEq, Repr, Inhabited

/-- An image. -/
structure ImageProps where
  url : String := ""
  fit : ImageFit := .cover
deriving BEq, Repr, Inhabited

/-- A video or a sound. -/
structure MediaProps where
  url : String := ""
  autoplay : Bool := false
deriving BEq, Repr, Inhabited

/-- The sum of a list of floats, from the left. -/
def total (xs : List Float) : Float := xs.foldl (· + ·) 0.0

/-- A width that can be scaled. -/
def isWidth (x : Float) : Bool := x.isFinite && x ≥ 0.0

/-- Widths for `count` columns that add up to one: the given ones scaled, or all the same when the
given ones do not fit. -/
def balanceWidths (count : Nat) (widths : List Float) : List Float :=
  if count = 0 then []
  else
    let sum := total widths
    if widths.length = count ∧ sum.isFinite ∧ sum > 0.0 ∧ widths.all isWidth then
      widths.map (· / sum)
    else List.replicate count (1.0 / Float.ofNat count)

/-- A table whose columns fill its width, one for each header. -/
def TableProps.balanced (table : TableProps) : TableProps :=
  { table with colWidths := balanceWidths table.headers.length table.colWidths }

/-- A selector with something to choose from. -/
def SelectorProps.filled (selector : SelectorProps) : SelectorProps :=
  if selector.options.isEmpty then { selector with options := defaultOptions } else selector

end Wireframe.Design
