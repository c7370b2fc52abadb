/-
Literals.

A text stands in code between single quotes.  Quotes, backslashes, dollar signs and control
characters are escaped, so that the literal ends where the text does and holds no line break and no
interpolation.

* `escape` — a character inside a literal;
* `quote` — a text as a literal;
* `fraction` — a fraction of the canvas, with four places; what is no fraction is cut to one;
* `double` — a length in points, written out with a point; what is no length counts as zero;
* `hexColor` — a colour as a number of eight hexadecimal digits.
-/
import Wireframe.Design.Color
import Wireframe.Design.Rect
import Wireframe.Text.Blank

namespace Wireframe.Dart

open Design

/-! ### Texts -/

/-- The hexadecimal digits of a number, in lower case and without leading zeros. -/
def hexText (n : Nat) : List Char := Nat.toDigits 16 n

/-- A character inside a literal. -/
def escape (c : Char) : List Char :=
  if c = '\\' then ['\\', '\\']
  else if c = '\'' then ['\\', '\'']
  else if c = '$' then ['\\', '$']
  else if c = '\n' then ['\\', 'n']
  else if c = '\r' then ['\\', 'r']
  else if c = '\t' then ['\\', 't']
  else if Text.isControl c then '\\' :: 'u' :: '\x7b' :: hexText c.toNat ++ ['\x7d']
  else [c]

/-- A text as a literal. -/
def quote (s : String) : List Char := '\'' :: s.toList.flatMap escape ++ ['\'']

example : quote "a'b$\x07" = "'a\\'b\\$\\u\x7b7\x7d'".toList := by decide +kernel

/-! ### Numbers -/

/-- A fraction of the canvas. -/
def fraction (v : Float) : String :=
  Decimal.placesText 4 (if v.isFinite then clamp 0.0 1.0 v else 0.0)

/-- A length in points. -/
def double (v : Float) : String :=
  let text := Decimal.plainNumber.render (if v.isFinite && v > 0.0 then v else 0.0)
  if text.toList.contains '.' then text else text ++ ".0"

/-- The eight hexadecimal digits of a colour, in upper case. -/
def hexColor (c : Color) : String :=
  "0x" ++ String.ofList ((Color.hexDigits 8 c.argb.toNat).map Char.toUpper)

example : fraction 0.25 = "0.2500" := by decide +kernel
example : double 4.0 = "4.0" := by decide +kernel
example : hexColor (.ofRgb 0x2563eb) = "0xFF2563EB" := by decide +kernel

end Wireframe.Dart
