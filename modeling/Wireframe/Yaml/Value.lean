/-
Values of scalars.

What a scalar without quotes stands for is told by the words and numbers of the core schema.

* `Value` — what a node stands for;
* `plainValue?` — the value of a text without quotes;
* `scalarValue?` — the value of a scalar with or without a tag.

Design notes:
* a number that fits 64 bits is whole, and one that does not fit 128 bits a float; what lies between
  has no value;
* a whole number with a minus sign is another value than one without, even if it is zero;
* digits after a zero, such as those of `007`, are no number.
-/
import Wireframe.Json.Numeral
import Wireframe.Yaml.Tag

namespace Wireframe.Yaml

/-- What a node stands for. -/
inductive Value
  | null
  | bool (b : Bool)
  /-- A whole number without a minus sign. -/
  | natural (n : Nat)
  /-- A whole number with a minus sign. -/
  | signed (n : Int)
  | float (x : Float)
  | string (s : String)
  | sequence (items : List Value)
  | mapping (entries : List (Value × Value))
deriving Repr, Inhabited

/-- A number as a float. -/
def Value.toFloat? : Value → Option Float
  | natural n => some (Json.Number.int n).toFloat
  | signed n => some (Json.Number.int n).toFloat
  | float x => some x
  | _ => none

/-! ### Words -/

/-- The words for nothing. -/
def isNullWord (text : String) : Bool := ["null", "Null", "NULL", "~"].contains text

/-- The words for truth values. -/
def truth? (text : String) : Option Bool :=
  if ["true", "True", "TRUE"].contains text then some true
  else if ["false", "False", "FALSE"].contains text then some false
  else none

/-! ### Whole numbers -/

/-- The number of some digits of a base; there is at least one. -/
def digitsIn? (base : Nat) (cs : List Char) : Option Nat :=
  if cs.isEmpty then none
  else cs.foldlM (fun n c => do
    let d ← Json.hexValue? c
    if d < base then return n * base + d else none) 0

/-- The marks of bases other than ten. -/
def bases : List (List Char × Nat) := [(['0', 'x'], 16), (['0', 'o'], 8), (['0', 'b'], 2)]

/-- The number of digits after the mark of a base. -/
def marked? (cs : List Char) : Option Nat :=
  bases.findSome? fun (mark, base) => do digitsIn? base (← mark.isPrefixOf? cs)

/-- Digits after a zero. -/
def isPadded : List Char → Bool
  | '0' :: rest => !rest.isEmpty && rest.all Char.isDigit
  | _ => false

/-- The number of digits with or without the mark of a base. -/
def natural? (cs : List Char) : Option Nat :=
  (marked? cs).or (if isPadded cs then none else digitsIn? 10 cs)

/-- The number of bits of a whole number that has a value. -/
inductive Width
  | fits64
  | fits128
  | wider
deriving DecidableEq, Repr

/-- The width of a number that may be as great as `limit64` if it fits 64 bits. -/
def widthOf (limit64 limit128 n : Nat) : Width :=
  if n ≤ limit64 then .fits64 else if n ≤ limit128 then .fits128 else .wider

/-- A whole number and its width. -/
def whole? : List Char → Option (Value × Width)
  | '-' :: cs => (natural? cs).map fun (n : Nat) =>
      (.signed (-(n : Int)), widthOf 0x8000000000000000 0x80000000000000000000000000000000 n)
  | '+' :: cs => (natural? cs).map withoutSign
  | cs => (natural? cs).map withoutSign
where
  withoutSign (n : Nat) : Value × Width :=
    (.natural n, widthOf 0xFFFFFFFFFFFFFFFF 0xFFFFFFFFFFFFFFFFFFFFFFFFFFFFFFFF n)

/-! ### Floats -/

/-- The text of a number split at the first character that satisfies `p`. -/
def splitFirst (p : Char → Bool) (cs : List Char) : List Char × Option (List Char) :=
  (cs.takeWhile (!p ·), (cs.dropWhile (!p ·)).tail?)

/-- A power of ten that is too large for any float, also if it is negative. -/
def powerLimit : Nat := 400

/-- The float nearest to a number times a power of ten, if it is not too large. -/
def nearest? (digits : List Char) (power : Int) : Option Float :=
  let significant := digits.dropWhile (· == '0')
  match digitsIn? 10 significant with
  | none => some 0.0
  | some n =>
      let height : Int := power + significant.length
      if powerLimit < height then none
      else if height < -(powerLimit : Int) then some 0.0
      else
        let x := Float.ofScientific n (power < 0) power.natAbs
        if x.isFinite then some x else none

/-- A power of ten, with or without a sign. -/
def power? : List Char → Option Int
  | '-' :: cs => (digitsIn? 10 cs).map fun n => -(n : Int)
  | '+' :: cs => (digitsIn? 10 cs).map Int.ofNat
  | cs => (digitsIn? 10 cs).map Int.ofNat

/-- A number without a sign, with or without point and power of ten. -/
def unsigned? (cs : List Char) : Option Float := do
  let (mantissa, powerText) := splitFirst (fun c => c == 'e' || c == 'E') cs
  let power ← match powerText with
    | some text => power? text
    | none => some 0
  let (whole, fractionText) := splitFirst (· == '.') mantissa
  let fraction := fractionText.getD []
  let digits := whole ++ fraction
  if digits.isEmpty || !digits.all Char.isDigit then none
  else nearest? digits (power - fraction.length)

/-- The words for infinity. -/
def isInfinityWord (cs : List Char) : Bool :=
  [".inf", ".Inf", ".INF"].contains (String.ofList cs)

/-- The words for what is no number. -/
def isNaNWord (cs : List Char) : Bool := [".nan", ".NaN", ".NAN"].contains (String.ofList cs)

/-- Infinity. -/
def infinity : Float := 1.0 / 0.0

/-- A float without a sign. -/
def size? (cs : List Char) : Option Float :=
  if isInfinityWord cs then some infinity else unsigned? cs

/-- A float. -/
def float? (cs : List Char) : Option Float :=
  if isNaNWord cs then some (0.0 / 0.0)
  else
    match cs with
    | '-' :: cs => (size? cs).map fun x => -x
    | '+' :: cs => size? cs
    | cs => size? cs

/-! ### Scalars -/

/-- The digits of the text, after its sign, follow a zero. -/
def isPaddedText : List Char → Bool
  | '-' :: cs => isPadded cs
  | '+' :: cs => isPadded cs
  | cs => isPadded cs

/-- The value of a text that is no whole number. -/
def floatOrText (text : String) : Value :=
  if isPaddedText text.toList then .string text
  else
    match float? text.toList with
    | some x => .float x
    | none => .string text

/-- The value of a text without quotes. -/
def plainValue? (text : String) : Option Value :=
  if text = "" ∨ isNullWord text then some .null
  else
    match truth? text, whole? text.toList with
    | some b, _ => some (.bool b)
    | none, some (n, .fits64) => some n
    | none, some (_, .fits128) => none
    | none, _ => some (floatOrText text)

/-- A tag that only the document itself knows. -/
def isLocalTag (tag : String) : Bool := tag.toList.head? == some '!'

/-- The value of a scalar.  A tag that only the document itself knows has none, unless its octets are
no text: then it is as good as no tag. -/
def scalarValue? (tag : Option String) (plain : Bool) (text : String) : Option Value :=
  let untagged := if plain then plainValue? text else some (.string text)
  match tag with
  | none => untagged
  | some tag =>
      if isLocalTag tag then if (localName? tag).isSome then none else untagged
      else if tag = coreTag "bool" then (truth? text).map .bool
      else if tag = coreTag "int" then
        match whole? text.toList with
        | some (n, .fits64) => some n
        | _ => none
      else if tag = coreTag "float" then (float? text.toList).map .float
      else if tag = coreTag "null" then if isNullWord text then some .null else none
      else some (.string text)

end Wireframe.Yaml
