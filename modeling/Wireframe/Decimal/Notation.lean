/-
Numbers as text.

A `Notation` lists the decisions of one number format: for which magnitudes the digits are written
out and for which a power of ten is split off, whether whole numbers keep a point, whether a
positive power is signed, which way ties go.  The library writes numbers in three such formats and
in a fourth one with a fixed number of places.

* `Notation.render` — a float in a given format, by its shortest decimal;
* `documentNumber` — numbers in design documents;
* `listedNumber` — numbers in listings of a rectangle;
* `plainNumber` — numbers in messages and in generated code, never with a power of ten;
* `placesText` — a fixed number of places, ties going to even.
-/
import Wireframe.Decimal.Shortest

namespace Wireframe.Decimal

/-- The decisions of a number format. -/
structure Notation where
  /-- Leading exponents from `plainFrom` on are written out ... -/
  plainFrom : Option Int
  /-- ... and those below `plainBelow`; `none` sets no bound. -/
  plainBelow : Option Int
  /-- Whole numbers written out end in `.0`. -/
  keepPoint : Bool
  /-- Positive powers of ten carry a plus sign. -/
  signedPower : Bool
  tie : Tie

/-- Numbers in design documents: written out from `1e-5` to `1e16`. -/
def documentNumber : Notation where
  plainFrom := some (-5)
  plainBelow := some 16
  keepPoint := true
  signedPower := true
  tie := .even

/-- Numbers in the listing of a rectangle: written out from `1e-4` to `1e16`. -/
def listedNumber : Notation where
  plainFrom := some (-4)
  plainBelow := some 16
  keepPoint := true
  signedPower := false
  tie := .up

/-- Numbers that are always written out, whole ones without a point. -/
def plainNumber : Notation where
  plainFrom := none
  plainBelow := none
  keepPoint := false
  signedPower := false
  tie := .up

/-- The decimal digits of a natural number. -/
def digitsOf (n : Nat) : List Char := Nat.toDigits 10 n

/-- The digits with the point `places` digits from the right, `places` being positive. -/
def withPoint (digits : List Char) (places : Nat) : List Char :=
  let padded := List.replicate (places + 1 - digits.length) '0' ++ digits
  padded.take (padded.length - places) ++ '.' :: padded.drop (padded.length - places)

/-- A decimal written out. -/
def Scaled.plain (keepPoint : Bool) (d : Scaled) : List Char :=
  if 0 ≤ d.exponent then
    digitsOf (d.digits * power 10 d.exponent.toNat) ++ if keepPoint then ['.', '0'] else []
  else withPoint (digitsOf d.digits) (-d.exponent).toNat

/-- A decimal with one digit before the point and a power of ten. -/
def Scaled.powered (signedPower : Bool) (d : Scaled) : List Char :=
  let digits := digitsOf d.digits
  let power := d.exponent + digits.length - 1
  let front := match digits with
    | [] => []
    | [c] => [c]
    | c :: rest => c :: '.' :: rest
  let sign := if power < 0 then ['-'] else if signedPower then ['+'] else []
  front ++ 'e' :: sign ++ digitsOf power.natAbs

/-- The exponent of the leading digit. -/
def Scaled.leadingExponent (d : Scaled) : Int :=
  d.exponent + digitCount d.digits - 1

/-- A decimal in a given format. -/
def Notation.layout (style : Notation) (d : Scaled) : List Char :=
  let lead := d.leadingExponent
  if d.digits = 0 ∨ style.plainFrom.all (· ≤ lead) ∧ style.plainBelow.all (lead < ·) then
    d.plain style.keepPoint
  else d.powered style.signedPower

/-- The sign of a number, as a prefix of its text. -/
def signText (negative : Bool) : List Char := if negative then ['-'] else []

/-- A float in a given format. -/
def Notation.render (style : Notation) (x : Float) : String :=
  match Reading.ofFloat x with
  | .notNumber => "NaN"
  | .infinite negative => String.ofList (signText negative ++ ['i', 'n', 'f'])
  | .finite negative b =>
      String.ofList (signText negative ++ style.layout (b.shortest style.tie))

/-- A magnitude rounded to `places` places. -/
def Binary.inPlaces (b : Binary) (places : Nat) : Nat :=
  let value := b.quarters (4 * b.mantissa)
  roundQuotient .even (value.1 * power 10 places) value.2

/-- A float with a fixed positive number of places. -/
def placesText (places : Nat) (x : Float) : String :=
  match Reading.ofFloat x with
  | .notNumber => "NaN"
  | .infinite negative => String.ofList (signText negative ++ ['i', 'n', 'f'])
  | .finite negative b =>
      String.ofList (signText negative ++ withPoint (digitsOf (b.inPlaces places)) places)

example : documentNumber.render 1e16 = "1e+16" := by decide +kernel
example : documentNumber.render 0.00001 = "0.00001" := by decide +kernel
example : listedNumber.render 0.00001 = "1e-5" := by decide +kernel
example : plainNumber.render 4.0 = "4" := by decide +kernel
example : placesText 4 0.00005 = "0.0001" := by decide +kernel
example : placesText 4 0.25 = "0.2500" := by decide +kernel

end Wireframe.Decimal
