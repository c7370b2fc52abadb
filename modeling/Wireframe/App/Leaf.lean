/-
Widgets that need nothing beside them.

* `labelCode`, `paragraphCode`, `linkCode`, `buttonCode` — texts;
* `rectangleCode`, `imageCode` — shapes and images;
* `placeholderCode` — what stands for a widget of a kind that is not known.
-/
import Wireframe.App.Place
import Wireframe.Design.Properties

namespace Wireframe.App

open Dart Design

/-- A widget at the left of its place. -/
def leftAligned (child : Expr) : Expr :=
  .call "Align" [.named "alignment" "Alignment.centerLeft", .named "child" child]

/-- The code of a label. -/
def labelCode (p : LabelProps) : Expr :=
  leftAligned (textWidget p.text
    [.named "maxLines" "1", ellipsisArg,
      .named "style" (textStyle p.fontSize p.color (if p.bold then [boldArg] else []))])

/-- An alignment. -/
def alignCode : TextAlign → String
  | .left => "TextAlign.left"
  | .center => "TextAlign.center"
  | .right => "TextAlign.right"
  | .justify => "TextAlign.justify"

/-- The code of a paragraph. -/
def paragraphCode (p : ParagraphProps) : Expr :=
  textWidget p.text
    [.named "textAlign" (alignCode p.align), .named "overflow" "TextOverflow.fade",
      .named "style" (textStyle p.fontSize p.color [])]

/-- The code of a link. -/
def linkCode (p : LinkProps) : Expr :=
  leftAligned (.call "GestureDetector"
    [.named "onTap" (launchCode p.url),
      .named "child" (textWidget p.text
        [ellipsisArg,
          .named "style" (textStyle p.fontSize p.color
            [.named "decoration" "TextDecoration.underline"])])])

/-- Corners of a given radius. -/
def roundedCorners (radius : Float) : Expr :=
  .named "borderRadius" ("BorderRadius.circular(" ++ double radius ++ ")")

/-- The code of a button. -/
def buttonCode (p : ButtonProps) : Expr :=
  .call "ElevatedButton"
    [.named "onPressed" "() \x7b\x7d",
      .named "style" (.call "ElevatedButton.styleFrom"
        [.named "backgroundColor" (constColor p.bgColor),
          .named "foregroundColor" (constColor p.textColor),
          .named "padding" "EdgeInsets.zero",
          .named "shape" (.call "RoundedRectangleBorder" [roundedCorners p.borderRadius])]),
      .named "child" (.call "FittedBox"
        [.named "fit" "BoxFit.scaleDown",
          .named "child" (textWidget p.text
            [.named "style" (.call "TextStyle" [fontSizeArg p.fontSize])])])]

/-- A length that can be seen. -/
def isVisibleLength (v : Float) : Bool := v.isFinite && v > 0.0

/-- The colour of the border of a shape, if the border can be seen. -/
def visibleBorder? (p : ShapeProps) : Option Color :=
  p.borderColor.filter fun _ => isVisibleLength p.borderWidth

/-- The border of a rectangle. -/
def borderArgs (p : ShapeProps) : List Expr :=
  match visibleBorder? p with
  | some c =>
      [.named "border" ("Border.all(color: " ++ constColor c ++ ", width: " ++
        double p.borderWidth ++ ")")]
  | none => []

/-- The code of a rectangle. -/
def rectangleCode (p : ShapeProps) : Expr :=
  .call "Container"
    [.named "decoration" (.call "BoxDecoration" ([colorArg p.fill] ++ borderArgs p ++
      if isVisibleLength p.borderRadius then [roundedCorners p.borderRadius] else []))]

/-- A fit. -/
def fitCode : ImageFit → String
  | .cover => "BoxFit.cover"
  | .contain => "BoxFit.contain"
  | .fill => "BoxFit.fill"

/-- The code of an image. -/
def imageCode (p : ImageProps) : Expr :=
  if Text.isBlankText p.url then
    .call "Container"
      [.named "color" "const Color(0xFFE5E7EB)", .named "alignment" "Alignment.center",
        .named "child" "const Icon(Icons.image, color: Color(0xFF9CA3AF))"]
  else
    .call "Image.network"
      [.literal (Text.trimBlank p.url), .named "fit" (fitCode p.fit),
        .named "errorBuilder" "(context, error, stackTrace) => const Icon(Icons.broken_image)"]

/-- The colour of placeholders. -/
def outlineColor : String := "Color(0xFF9CA3AF)"

/-- The code that stands for a widget of a kind that is not known. -/
def placeholderCode (tag : String) : Expr :=
  .call "IgnorePointer"
    [.named "child" (.call "DecoratedBox"
      [.named "decoration"
          ("BoxDecoration(border: Border.all(color: const " ++ outlineColor ++ "))"),
        .named "child" (.call "Center"
          [.named "child" (textWidget tag
            [ellipsisArg, .named "style" ("const TextStyle(color: " ++ outlineColor ++ ")")])])])]

end Wireframe.App
