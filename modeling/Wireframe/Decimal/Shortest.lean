/-
The shortest decimal of a floating-point number.

A finite 64-bit float is a sign and a magnitude `mantissa * 2 ^ exponent` of natural mantissa.
Everything the library prints about a float is computed from that pair in exact arithmetic.

A decimal *stands for* a float if it lies between the midpoints to the two neighbouring floats,
a midpoint itself counting when the mantissa is even.  Of the decimals with the fewest digits that
stand for a float, the nearest to it is chosen; when two are equally near, a `Tie` decides.

* `Reading.ofFloat` — what a float stands for: not a number, an infinity, or a signed `Binary`;
* `Binary.quarters` — the magnitude as a fraction of naturals, in quarters of its last place;
* `Binary.standsFor` — the interval test, in exact arithmetic;
* `Binary.onGrid?` — the best decimal of a float with a given number of digits;
* `Binary.shortest` — the first number of digits, from one to seventeen, that has one.

Design notes:
* all comparisons are between products of naturals, so nothing is rounded on the way;
* seventeen digits always suffice; the exact expansion closes the search so that it is total.
-/
namespace Wireframe.Decimal

/-! ### Floating-point numbers -/

/-- The magnitude `mantissa * 2 ^ exponent`. -/
structure Binary where
  mantissa : Nat
  exponent : Int
  /-- The float below is half as far away as the float above. -/
  narrowBelow : Bool
deriving Repr, DecidableEq

/-- What a float stands for. -/
inductive Reading
  | notNumber
  | infinite (negative : Bool)
  | finite (negative : Bool) (magnitude : Binary)
deriving Repr, DecidableEq

/-- A power of natural numbers. -/
def power (base n : Nat) : Nat := Nat.pow base n

/-- The number of values of the fraction field of a 64-bit float. -/
def fractionCount : Nat := 0x10000000000000

/-- The number of values of the exponent field. -/
def exponentCount : Nat := 0x800

/-- The magnitude with the given exponent and fraction fields of a 64-bit float. -/
def Binary.ofFields (exponent fraction : Nat) : Binary :=
  if exponent = 0 then ⟨fraction, -1074, false⟩
  else ⟨fractionCount + fraction, (exponent : Int) - 1075, decide (fraction = 0 ∧ 1 < exponent)⟩

/-- What the float with these bits stands for. -/
def Reading.ofBits (bits : UInt64) : Reading :=
  let negative := decide (fractionCount * exponentCount ≤ bits.toNat)
  let exponent := bits.toNat / fractionCount % exponentCount
  let fraction := bits.toNat % fractionCount
  if exponent = 2047 then
    if fraction = 0 then .infinite negative else .notNumber
  else .finite negative (.ofFields exponent fraction)

/-- What a float stands for. -/
def Reading.ofFloat (x : Float) : Reading :=
  .ofBits x.toBits

/-- The power of a base with the exponent `max e 0`: the factor by which a scale of exponent `e`
enlarges. -/
def enlarge (base : Nat) (e : Int) : Nat := power base e.toNat

/-- Numerator and denominator of `n` quarters of the last place of `x`. -/
def Binary.quarters (x : Binary) (n : Nat) : Nat × Nat :=
  (n * enlarge 2 x.exponent, 4 * enlarge 2 (-x.exponent))

example : Reading.ofFloat 1.0 = .finite false ⟨fractionCount, -52, true⟩ := by decide +kernel
example : Reading.ofFloat (-0.0) = .finite true ⟨0, -1074, false⟩ := by decide +kernel

/-! ### Decimals -/

/-- The number `digits * 10 ^ exponent`. -/
structure Scaled where
  digits : Nat
  exponent : Int
deriving Repr, DecidableEq

/-- Where a number exactly between two neighbours goes. -/
inductive Tie
  | even
  | up
deriving Repr, DecidableEq

/-- Compares a decimal with the fraction `num / den`. -/
def Scaled.compareTo (d : Scaled) (num den : Nat) : Ordering :=
  compare (d.digits * enlarge 10 d.exponent * den) (num * enlarge 10 (-d.exponent))

/-- The decimal lies among the reals that round to `x`. -/
def Binary.standsFor (x : Binary) (d : Scaled) : Bool :=
  let low := x.quarters (4 * x.mantissa - if x.narrowBelow then 1 else 2)
  let high := x.quarters (4 * x.mantissa + 2)
  let ends := x.mantissa % 2 == 0
  let aboveLow := match d.compareTo low.1 low.2 with
    | .gt => true
    | .eq => ends
    | .lt => false
  let belowHigh := match d.compareTo high.1 high.2 with
    | .lt => true
    | .eq => ends
    | .gt => false
  aboveLow && belowHigh

/-- `num / den` split into a whole number and the order of the rest against one half. -/
def splitHalf (num den : Nat) : Nat × Ordering :=
  (num / den, compare (2 * (num % den)) den)

/-- The quotient `num / den` to the nearest whole number. -/
def roundQuotient (tie : Tie) (num den : Nat) : Nat :=
  match splitHalf num den, tie with
  | (n, .lt), _ => n
  | (n, .gt), _ => n + 1
  | (n, .eq), .up => n + 1
  | (n, .eq), .even => if n % 2 = 0 then n else n + 1

/-- The decimal for `x` among the multiples of `10 ^ e`: the nearer of the two around `x` that
stand for it. -/
def Binary.onGrid? (tie : Tie) (x : Binary) (e : Int) : Option Scaled :=
  let value := x.quarters (4 * x.mantissa)
  let num := value.1 * enlarge 10 (-e)
  let den := value.2 * enlarge 10 e
  let below : Scaled := ⟨num / den, e⟩
  let above : Scaled := ⟨num / den + 1, e⟩
  match x.standsFor below, x.standsFor above with
  | true, true => some ⟨roundQuotient tie num den, e⟩
  | true, false => some below
  | false, true => some above
  | false, false => none

/-- The number of decimal digits of `n`, one for zero. -/
def digitCount (n : Nat) : Nat := (Nat.toDigits 10 n).length

/-- The exponent `k` with `10 ^ k ≤ x < 10 ^ (k + 1)`, for positive `x`. -/
def Binary.leadingExponent (x : Binary) : Int :=
  let value := x.quarters (4 * x.mantissa)
  let whole := value.1 / value.2
  if whole = 0 then
    -- The smallest shift that makes the leading digit whole, counted from the denominator.
    let guess := digitCount (value.2 / value.1)
    if value.1 * power 10 (guess - 1) ≥ value.2 then -((guess : Int) - 1) else -(guess : Int)
  else (digitCount whole : Int) - 1

/-- The value of `x` itself, written out. -/
def Binary.exact (x : Binary) : Scaled :=
  ⟨x.mantissa * enlarge 2 x.exponent * enlarge 5 (-x.exponent), min x.exponent 0⟩

/-- Without the zeros at the end of its digits; at most `fuel` are taken off. -/
def Scaled.strip (d : Scaled) : Nat → Scaled
  | 0 => d
  | fuel + 1 =>
      if d.digits ≠ 0 ∧ d.digits % 10 = 0 then
        Scaled.strip ⟨d.digits / 10, d.exponent + 1⟩ fuel
      else d

/-- The shortest decimal that stands for `x`, nearest to it among those. -/
def Binary.shortest (tie : Tie) (x : Binary) : Scaled :=
  if x.mantissa = 0 then ⟨0, 0⟩
  else
    let found := (List.range 17).findSome? fun (extra : Nat) =>
      x.onGrid? tie (x.leadingExponent - extra)
    let d := found.getD x.exact
    d.strip (digitCount d.digits)

example : (Binary.ofFields 0 1).shortest .even = ⟨5, -324⟩ := by decide +kernel

end Wireframe.Decimal
