/-
Where things go on the canvas, and how they look.

All measures in generated code are fractions of the space that the screen has when it is shown.

* `width`, `height` — fractions of that space;
* `colorCode`, `constColor` — colours;
* `positioned` — a widget at its place;
* `textStyle`, `textWidget` — texts;
* `launchCode` — what opens an address.
-/
import Wireframe.Dart.Expr
import Wireframe.Dart.Literal

namespace Wireframe.App

open Dart Design

/-- The name of the space that the screen has. -/
def constraintsName : String := "constraints"

/-- A fraction of the width of the screen. -/
def width (v : Float) : String := constraintsName ++ ".maxWidth * " ++ fraction v

/-- A fraction of the height of the screen. -/
def height (v : Float) : String := constraintsName ++ ".maxHeight * " ++ fraction v

/-- A colour. -/
def colorCode (c : Color) : String := "Color(" ++ hexColor c ++ ")"

/-- A colour that is known beforehand. -/
def constColor (c : Color) : String := "const " ++ colorCode c

/-- The size of a text. -/
def fontSizeArg (size : Float) : Expr := .named "fontSize" (height size)

/-- A widget at its place. -/
def positioned (rect : Rect .canvas) (child : Expr) : Expr :=
  .call "Positioned"
    [.named "left" (width rect.x), .named "top" (height rect.y), .named "width" (width rect.w),
      .named "height" (height rect.h), .named "child" child]

/-- The colour of a widget. -/
def colorArg (c : Color) : Expr := .named "color" (constColor c)

/-- What makes a text bold. -/
def boldArg : Expr := .named "fontWeight" "FontWeight.bold"

/-- What a text that is too long ends in. -/
def ellipsisArg : Expr := .named "overflow" "TextOverflow.ellipsis"

/-- The style of a text of a given size and colour. -/
def textStyle (size : Float) (c : Color) (more : List Expr) : Expr :=
  .call "TextStyle" ([fontSizeArg size, colorArg c] ++ more)

/-- A text. -/
def textWidget (text : String) (args : List Expr) : Expr :=
  .call "Text" (.literal text :: args)

/-- What opens an address; nothing if there is none. -/
def launchCode (url : String) : Expr :=
  if Text.isBlankText url then "null"
  else .inline [.raw "() => launchUrl(Uri.parse(", .quoted (Text.trimBlank url),
    .raw "), mode: LaunchMode.externalApplication)"]

end Wireframe.App
