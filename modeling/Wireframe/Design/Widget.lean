/-
Widgets: what an element shows.

A widget is one of the sixteen kinds with its properties, or of a kind that is not known; of the
latter the tag and the properties are kept as they were given.

* `Widget.tag`, `Widget.kind?` — the name of a widget's kind, and the kind itself;
* `Widget.default` — a widget with the default properties of its kind;
* `Widget.decode` — the widget of a tag and of properties, which become the defaults where they do
  not fit the kind;
* `Widget.properties` — the properties of a widget as a value.
-/
import Wireframe.Design.Kind
import Wireframe.Design.PropertyFormat

namespace Wireframe.Design

/-- What an element shows. -/
inductive Widget
  | label (props : LabelProps)
  | paragraph (props : ParagraphProps)
  | inputText (props : InputTextProps)
  | inputDate (props : InputDateProps)
  | button (props : ButtonProps)
  | link (props : LinkProps)
  | table (props : TableProps)
  | checkbox (props : CheckboxProps)
  | selector (props : SelectorProps)
  | sidebar (props : SidebarProps)
  | bottomNav (props : BottomNavProps)
  | rectangle (props : ShapeProps)
  | ellipse (props : ShapeProps)
  | image (props : ImageProps)
  | video (props : MediaProps)
  | audio (props : MediaProps)
  | unknown (tag : String) (props : Json)
deriving BEq, Repr, Inhabited

namespace Widget

/-- The kind of a widget, if it is a known one. -/
def kind? : Widget → Option Kind
  | label _ => some .label
  | paragraph _ => some .paragraph
  | inputText _ => some .inputText
  | inputDate _ => some .inputDate
  | button _ => some .button
  | link _ => some .link
  | table _ => some .table
  | checkbox _ => some .checkbox
  | selector _ => some .selector
  | sidebar _ => some .sidebar
  | bottomNav _ => some .bottomNav
  | rectangle _ => some .rectangle
  | ellipse _ => some .ellipse
  | image _ => some .image
  | video _ => some .video
  | audio _ => some .audio
  | unknown _ _ => none

/-- The name of a widget's kind. -/
def tag : Widget → String
  | unknown tag _ => tag
  | w => (w.kind?.map Kind.tag).getD ""

/-- The widget is a navigation bar. -/
def isOverlay (w : Widget) : Bool := w.kind?.any Kind.isOverlay

/-- A widget with the default properties of its kind. -/
def default : Kind → Widget
  | .label => label {}
  | .paragraph => paragraph {}
  | .inputText => inputText {}
  | .inputDate => inputDate {}
  | .button => button {}
  | .link => link {}
  | .table => table {}
  | .checkbox => checkbox {}
  | .selector => selector {}
  | .sidebar => sidebar {}
  | .bottomNav => bottomNav {}
  | .rectangle => rectangle {}
  | .ellipse => ellipse {}
  | .image => image {}
  | .video => video {}
  | .audio => audio {}

/-- A widget of a known kind from its properties. -/
def ofJson (kind : Kind) (props : Json) : Except Json.Mismatch Widget :=
  match kind with
  | .label => label <$> LabelProps.ofJson props
  | .paragraph => paragraph <$> ParagraphProps.ofJson props
  | .inputText => inputText <$> InputTextProps.ofJson props
  | .inputDate => inputDate <$> InputDateProps.ofJson props
  | .button => button <$> ButtonProps.ofJson props
  | .link => link <$> LinkProps.ofJson props
  | .table => (fun p => table p.balanced) <$> TableProps.ofJson props
  | .checkbox => checkbox <$> CheckboxProps.ofJson props
  | .selector => (fun p => selector p.filled) <$> SelectorProps.ofJson props
  | .sidebar => sidebar <$> SidebarProps.ofJson props
  | .bottomNav => bottomNav <$> BottomNavProps.ofJson props
  | .rectangle => rectangle <$> ShapeProps.ofJson props
  | .ellipse => ellipse <$> ShapeProps.ofJson props
  | .image => image <$> ImageProps.ofJson props
  | .video => video <$> MediaProps.ofJson props
  | .audio => audio <$> MediaProps.ofJson props

/-- A widget of a known kind; properties that are absent or do not fit are the defaults. -/
def ofKind (kind : Kind) (props : Json) : Widget :=
  if props.isNull then default kind else (ofJson kind props).toOption.getD (default kind)

/-- The widget of a tag and of properties. -/
def decode (tag : String) (props : Json) : Widget :=
  match Kind.ofTag? tag with
  | some kind => ofKind kind props
  | none => unknown tag props

/-- The properties of a widget as a value. -/
def properties : Widget → Json
  | label p => p.toJson
  | paragraph p => p.toJson
  | inputText p => p.toJson
  | inputDate p => p.toJson
  | button p => p.toJson
  | link p => p.toJson
  | table p => p.toJson
  | checkbox p => p.toJson
  | selector p => p.toJson
  | sidebar p => p.toJson
  | bottomNav p => p.toJson
  | rectangle p => p.toJson
  | ellipse p => p.toJson
  | image p => p.toJson
  | video p => p.toJson
  | audio p => p.toJson
  | unknown _ props => props

end Widget

end Wireframe.Design
