/-
Colours and their text.

A colour is opacity, red, green and blue, eight bits each.  It is written with a number sign and
hexadecimal digits, six when it is opaque and eight otherwise; when it is read, blanks around it, any
number of number signs and the case of the digits do not matter.

* `Color.parse?` — the colour of a text of exactly six or eight digits;
* `Color.text` — a colour as it is written;
* `Color.refusal` — what is said of a text that is no colour.
-/
import Wireframe.Json.Quoted
import Wireframe.Text.Blank

namespace Wireframe.Design

/-- Opacity, red, green and blue, from the most significant byte down. -/
structure Color where
  argb : UInt32
deriving Repr, DecidableEq, Inhabited

namespace Color

/-- The opaque colour of the low 24 bits. -/
def ofRgb (rgb : UInt32) : Color := ⟨0xFF000000 ||| (rgb &&& 0x00FFFFFF)⟩

/-- The opacity of a colour, 255 when it hides everything below. -/
def alpha (c : Color) : UInt8 := (c.argb >>> 24).toUInt8

/-- The number with the given hexadecimal digits, if all are digits. -/
def ofHex? : List Char → Option Nat
  | digits => (digits.mapM Json.hexValue?).map (·.foldl (fun n d => n * 16 + d) 0)

/-- The colour that a text names. -/
def parse? (text : String) : Option Color :=
  let digits := (Text.trimWhile Text.isBlank text.toList).dropWhile (· == '#')
  match ofHex? digits, digits.length with
  | some n, 6 => some (ofRgb n.toUInt32)
  | some n, 8 => some ⟨n.toUInt32⟩
  | _, _ => none

/-- What is said of a text that is no colour. -/
def refusal (text : String) : String :=
  s!"invalid color '{text}' (expected #RRGGBB or #AARRGGBB)"

/-- The lowest `count` hexadecimal digits of a number, in lower case. -/
def hexDigits : (count : Nat) → Nat → List Char
  | 0, _ => []
  | count + 1, n => hexDigits count (n / 16) ++ [Json.hexDigit n]

/-- A colour as it is written. -/
def text (c : Color) : String :=
  String.ofList ('#' :: if c.alpha = 0xFF then hexDigits 6 c.argb.toNat else hexDigits 8 c.argb.toNat)

example : parse? " ##80FF0000\n" = some ⟨0x80FF0000⟩ := by decide +kernel
example : (ofRgb 0x2563eb).text = "#2563eb" := by decide +kernel

end Color

end Wireframe.Design
