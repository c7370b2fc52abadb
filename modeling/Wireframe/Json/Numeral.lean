/-
Numbers of a document.

The text of a number is first split into its parts and then evaluated.  The digits are collected
from the left into a significand as long as it fits 64 bits; the digits after that only count for
the power of ten.  A number without point and power that fits 64 bits stays an integer; any other is
the significand times a power of ten, in floating-point arithmetic.

* `Numeral.read` — the parts of a number and what follows it;
* `Numeral.evaluate` — its value, or `none` when it is too large for a float;
* `Number.toFloat` — a number as a float.
-/
import Wireframe.Json.Source
import Wireframe.Json.Value

namespace Wireframe.Json

/-- The parts of a number as written. -/
structure Numeral where
  negative : Bool
  whole : List Nat
  fraction : Option (List Nat)
  power : Option Int
deriving Repr, DecidableEq

/-- The value of a decimal digit. -/
def digit? (c : Char) : Option Nat :=
  if c.isDigit then some (c.toNat - '0'.toNat) else none

/-- The digits at the start of a source, and what follows them. -/
def readDigits : Source → List Nat × Source
  | .char c :: rest =>
      match digit? c with
      | some d =>
          let more := readDigits rest
          (d :: more.1, more.2)
      | none => ([], .char c :: rest)
  | source => ([], source)

/-- At least one digit. -/
def readDigits1 (source : Source) : Except Problem (List Nat × Source) :=
  match readDigits source, source with
  | ([], _), [] => .error .ended
  | ([], _), _ => .error .malformed
  | digits, _ => .ok digits

/-- The natural number with these decimal digits. -/
def ofDigits (digits : List Nat) : Nat := digits.foldl (fun n d => n * 10 + d) 0

namespace Numeral

/-- The digits before the point: a lone zero or a run that starts with another digit. -/
def readWhole (source : Source) : Except Problem (List Nat × Source) := do
  let (digits, rest) ← readDigits1 source
  match digits with
  | 0 :: _ :: _ => .error .malformed
  | _ => .ok (digits, rest)

/-- The part after a point, if there is one. -/
def readFraction : Source → Except Problem (Option (List Nat) × Source)
  | .char '.' :: rest => do
      let (digits, rest) ← readDigits1 rest
      return (some digits, rest)
  | source => .ok (none, source)

/-- The sign of a power of ten: whether it is negative, and what follows it. -/
def readPowerSign : Source → Bool × Source
  | .char '+' :: rest => (false, rest)
  | .char '-' :: rest => (true, rest)
  | source => (false, source)

/-- The power of ten, if there is one. -/
def readPower : Source → Except Problem (Option Int × Source)
  | .char c :: rest => do
      if c = 'e' ∨ c = 'E' then
        let (negative, rest) := readPowerSign rest
        let (digits, rest) ← readDigits1 rest
        let size : Int := ofDigits digits
        return (some (if negative then -size else size), rest)
      else return (none, .char c :: rest)
  | source => .ok (none, source)

/-- A number without its sign. -/
def readUnsigned (negative : Bool) (source : Source) : Except Problem (Numeral × Source) := do
  let (whole, rest) ← readWhole source
  let (fraction, rest) ← readFraction rest
  let (power, rest) ← readPower rest
  return (⟨negative, whole, fraction, power⟩, rest)

/-- A number. -/
def read : Source → Except Problem (Numeral × Source)
  | .char '-' :: rest => readUnsigned true rest
  | source => readUnsigned false source

/-- The largest significand. -/
def significandLimit : Nat := 0xFFFFFFFFFFFFFFFF

/-- Collects digits into a significand until it would pass the limit; also the number of digits
left out. -/
def collect (significand : Nat) : List Nat → Nat × Nat
  | [] => (significand, 0)
  | d :: rest =>
      if significand * 10 + d ≤ significandLimit then collect (significand * 10 + d) rest
      else (significand, rest.length + 1)

/-- The float nearest to a natural number of 64 bits. -/
def floatOfNat (n : Nat) : Float := n.toUInt64.toFloat

/-- The float nearest to a power of ten. -/
def powerOfTen (n : Nat) : Float := Float.ofScientific 1 false n

/-- The largest power of ten that is a float. -/
def largestPower : Nat := 308

/-- A float times a power of ten, or `none` when the product is too large.  Powers beyond the
reach of a float divide in steps; the product is zero after a few of them, and `fuel` bounds their
number. -/
def scale (x : Float) (power : Int) : (fuel : Nat) → Option Float
  | 0 => some 0.0
  | fuel + 1 =>
      if power.natAbs ≤ largestPower then
        if 0 ≤ power then
          let product := x * powerOfTen power.natAbs
          if product.isInf then none else some product
        else some (x / powerOfTen power.natAbs)
      else if x == 0.0 then some x
      else if 0 ≤ power then none
      else scale (x / powerOfTen largestPower) (power + largestPower) fuel

/-- The sign of a number put to its size. -/
def signed (negative : Bool) (size : Float) : Float := if negative then -size else size

/-- A number as a float: its significand times a power of ten. -/
def evaluateFloat (n : Numeral) : Option Float :=
  let (whole, skipped) := collect 0 n.whole
  let fraction := n.fraction.getD []
  let (significand, unused) := collect whole fraction
  let power : Int := n.power.getD 0 + skipped - (fraction.length - unused : Nat)
  (scale (floatOfNat significand) power 4).map (signed n.negative)

/-- The value of a number; `none` if it is too large for a float. -/
def evaluate (n : Numeral) : Option Number :=
  match n.fraction, n.power, collect 0 n.whole with
  | none, none, (size, 0) =>
      if n.negative then
        if 0 < size ∧ size ≤ 0x8000000000000000 then some (.int (-(size : Int)))
        else some (.float (-(floatOfNat size)))
      else some (.int size)
  | _, _, _ => n.evaluateFloat.map .float

end Numeral

/-- A number as a float. -/
def Number.toFloat : Number → Float
  | .int n => Numeral.signed (decide (n < 0)) (Numeral.floatOfNat n.natAbs)
  | .float x => x

/-- A number, evaluated. -/
def readNumber (source : Source) : Except Problem (Number × Source) := do
  let (numeral, rest) ← Numeral.read source
  match numeral.evaluate with
  | some value => return (value, rest)
  | none => .error .malformed

end Wireframe.Json
