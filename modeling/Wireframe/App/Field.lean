/-
Widgets that need a helper class.

* `helper?` — the helper that a widget needs;
* `inputTextCode`, `inputDateCode`, `checkboxCode`, `selectorCode` — fields;
* `ellipseCode`, `videoCode`, `audioCode` — ellipses, videos and sounds.
-/
import Wireframe.App.Helper
import Wireframe.App.Leaf
import Wireframe.Design.Widget
import Wireframe.Text.Words

namespace Wireframe.App

open Dart Design

/-- The helper of a field for text. -/
def inputHelper (p : InputTextProps) : Helper :=
  if p.obscured then .obscuredInput else .textInput

/-- A video or sound that is opened by itself. -/
def opensByItself (p : MediaProps) : Bool := p.autoplay && !Text.isBlankText p.url

/-- The helper that a widget needs. -/
def helper? : Widget → Option Helper
  | .inputText p => some (inputHelper p)
  | .inputDate _ => some .dateInput
  | .checkbox _ => some .checkbox
  | .selector _ => some .dropdown
  | .ellipse _ => some .ellipsePainter
  | .video p => if opensByItself p then some .autoplay else none
  | .audio p => if opensByItself p then some .autoplay else none
  | _ => none

/-- A field with a hint. -/
def hintedCode (helper : Helper) (placeholder : String) (fontSize : Float) : Expr :=
  .call helper.className [.named "placeholder" (.literal placeholder), fontSizeArg fontSize]

/-- The code of a field for text. -/
def inputTextCode (p : InputTextProps) : Expr :=
  hintedCode (inputHelper p) p.placeholder p.fontSize

/-- The code of a field for a date. -/
def inputDateCode (p : InputDateProps) : Expr :=
  hintedCode .dateInput p.placeholder p.fontSize

/-- The code of a checkbox. -/
def checkboxCode (p : CheckboxProps) : Expr :=
  .call Helper.checkbox.className
    [.named "text" (.literal p.text), fontSizeArg p.fontSize,
      .named "initialValue" (if p.checked then "true" else "false")]

/-- The distinct texts of a list, `seen` being those that were met before. -/
def distinctAfter (seen : List String) : List String → List String
  | [] => []
  | s :: rest =>
      if seen.contains s then distinctAfter seen rest else s :: distinctAfter (s :: seen) rest

/-- The distinct texts of a list, in the order in which they are met first. -/
def distinct (texts : List String) : List String := distinctAfter [] texts

/-- Texts as literals with commas between them. -/
def literalPieces (texts : List String) : List Piece :=
  Text.joinWith [.raw ", "] (texts.map fun s => [.quoted s])

/-- The code of a selector; its options are distinct. -/
def selectorCode (p : SelectorProps) : Expr :=
  .call Helper.dropdown.className
    [.named "options"
        (.inline (.raw "const <String>[" :: literalPieces (distinct p.options) ++ [.raw "]"])),
      fontSizeArg p.fontSize]

/-- The code of an ellipse. -/
def ellipseCode (p : ShapeProps) : Expr :=
  let border : List Expr := match visibleBorder? p with
    | some c => [.named "stroke" (colorCode c), .named "strokeWidth" (double p.borderWidth)]
    | none => []
  .call "CustomPaint"
    [.named "painter" (.call ("const " ++ Helper.ellipsePainter.className)
      (.named "fill" (colorCode p.fill) :: border))]

/-- A tile that opens an address, by itself if it is asked to. -/
def mediaCode (p : MediaProps) (content : Expr) : Expr :=
  let tile : Expr := .call "GestureDetector"
    [.named "onTap" (launchCode p.url), .named "child" content]
  if opensByItself p then
    .call Helper.autoplay.className
      [.named "url" (.literal (Text.trimBlank p.url)), .named "child" tile]
  else tile

/-- The code of a video. -/
def videoCode (p : MediaProps) : Expr :=
  mediaCode p (.call "Container"
    [.named "color" "Colors.black", .named "alignment" "Alignment.center",
      .named "child" "const Icon(Icons.play_circle_outline, color: Colors.white, size: 48)"])

/-- The code of a sound. -/
def audioCode (p : MediaProps) : Expr :=
  mediaCode p (.call "Container"
    [.named "decoration" (.call "BoxDecoration"
        [.named "color" "const Color(0xFFF3F4F6)",
          .named "borderRadius" "BorderRadius.circular(8)"]),
      .named "padding" "const EdgeInsets.symmetric(horizontal: 8)",
      .named "child" (.call "const Row"
        [.named "children" (.list
          ["Icon(Icons.play_arrow)", "SizedBox(width: 8)",
            .inline [.raw "Expanded(child: Text(", .quoted "Audio",
              .raw ", overflow: TextOverflow.ellipsis))"]])])])

end Wireframe.App
