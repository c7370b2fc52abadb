/-
Raw code of plain characters.

Numbers and colours are written with digits, letters, points and signs, so no literal opens or
closes in them and no line ends.

* `isInert_of_isAlphanum` — letters and digits;
* `IsNumeral`, `isNumeral_render`, `isNumeral_placesText` — the characters of numbers;
* `isClosed_fraction`, `isClosed_double`, `isClosed_hexColor` — numbers and colours in code;
* `isClosed_intercalate` — raw code set one after the other.
-/
import Wireframe.Dart.Literal
import Wireframe.Proofs.Dart.Closed
import Wireframe.Proofs.Text.Letters

namespace Wireframe.Dart

theorem isInert_of_isAlphanum {c : Char} (h : c.isAlphanum) : isInert c := by
  rw [Text.isAlphanum_iff, Text.isUpper_iff, Text.isLower_iff, Text.isDigit_iff] at h
  have hquote : c ≠ '\'' := by
    rintro rfl
    revert h
    decide
  have hcontrol : Text.isControl c = false := by
    simp only [Text.isControl, Bool.or_eq_false_iff, Bool.and_eq_false_iff, decide_eq_false_iff_not]
    omega
  have hbracket : Bracket.isBracket c = false := by
    refine Bool.eq_false_iff.mpr fun hb => ?_
    have hsix : c = '(' ∨ c = ')' ∨ c = '[' ∨ c = ']' ∨ c = '\x7b' ∨ c = '\x7d' := by
      simpa [Bracket.isBracket, Bracket.all, Bracket.opening, Bracket.closing, or_assoc] using hb
    rcases hsix with rfl | rfl | rfl | rfl | rfl | rfl <;> revert h <;> decide
  simp [isInert, isPlain, hquote, hcontrol, hbracket]

/-- The characters that numbers and colours are written with. -/
def numerals : List Char :=
  ['0', '1', '2', '3', '4', '5', '6', '7', '8', '9', 'A', 'B', 'C', 'D', 'E', 'F', 'N', 'a', 'e',
    'f', 'i', 'n', 'x', '.', '+', '-']

/-- The character may stand in a number or a colour. -/
def isNumeral (c : Char) : Bool := numerals.contains c

/-- The characters are those of a number or a colour. -/
def IsNumeral (cs : List Char) : Prop := cs.all isNumeral = true

theorem isNumeral_iff {cs : List Char} : IsNumeral cs ↔ ∀ c ∈ cs, isNumeral c :=
  List.all_eq_true

theorem isClosed_of_isNumeral {code : String} (h : IsNumeral code.toList) : isClosed code := by
  have hinert : ∀ c ∈ numerals, isInert c := List.all_eq_true.mp rfl
  exact isClosed_of_isInert fun c hc =>
    hinert c (List.contains_iff_mem.mp (isNumeral_iff.mp h c hc))

namespace IsNumeral

variable {c : Char} {cs es : List Char}

theorem nil : IsNumeral [] := rfl

theorem cons (hc : isNumeral c = true) (h : IsNumeral cs) : IsNumeral (c :: cs) := by
  rw [IsNumeral, List.all_cons, hc, h]
  rfl

theorem append (hc : IsNumeral cs) (he : IsNumeral es) : IsNumeral (cs ++ es) := by
  rw [IsNumeral, List.all_append, hc, he]
  rfl

end IsNumeral

end Wireframe.Dart

namespace Wireframe.Decimal

open Dart

theorem isNumeral_digitsOf (n : Nat) : IsNumeral (digitsOf n) := by
  refine isNumeral_iff.mpr fun c hc => ?_
  have hdigit := Text.isDigit_iff.mp (Nat.isDigit_of_mem_toDigits (by decide) (by decide) hc)
  have digits : ∀ k < 58, 48 ≤ k → isNumeral (Char.ofNat k) = true := by decide +kernel
  have hchar := digits c.toNat (by omega) (by omega)
  rwa [Char.ofNat_toNat] at hchar

theorem isNumeral_withPoint {digits : List Char} (h : IsNumeral digits) (places : Nat) :
    IsNumeral (withPoint digits places) := by
  have hpadded : IsNumeral (List.replicate (places + 1 - digits.length) '0' ++ digits) := by
    refine .append (isNumeral_iff.mpr fun c hc => ?_) h
    rw [List.eq_of_mem_replicate hc]
    rfl
  rw [isNumeral_iff] at hpadded
  exact .append (isNumeral_iff.mpr fun c hc => hpadded c (List.mem_of_mem_take hc))
    (.cons rfl (isNumeral_iff.mpr fun c hc => hpadded c (List.mem_of_mem_drop hc)))

theorem isNumeral_plain (keepPoint : Bool) (d : Scaled) : IsNumeral (d.plain keepPoint) := by
  unfold Scaled.plain
  split
  · refine .append (isNumeral_digitsOf _) ?_
    cases keepPoint <;> rfl
  · exact isNumeral_withPoint (isNumeral_digitsOf _) _

theorem isNumeral_powered (signedPower : Bool) (d : Scaled) :
    IsNumeral (d.powered signedPower) := by
  have hdigits := isNumeral_digitsOf d.digits
  unfold Scaled.powered
  refine .append (.append ?_ (.cons rfl ?_)) (isNumeral_digitsOf _)
  -- the point goes behind the first digit
  · cases hcs : digitsOf d.digits with
    | nil => exact .nil
    | cons c cs =>
        rw [hcs] at hdigits
        cases cs with
        | nil => exact hdigits
        | cons c' cs =>
            rw [IsNumeral, List.all_cons, Bool.and_eq_true] at hdigits
            exact .cons hdigits.1 (.cons rfl hdigits.2)
  · split
    · rfl
    · cases signedPower <;> rfl

theorem isNumeral_layout (style : Notation) (d : Scaled) : IsNumeral (style.layout d) := by
  unfold Notation.layout
  dsimp only
  split
  · exact isNumeral_plain _ d
  · exact isNumeral_powered _ d

theorem isNumeral_signText (negative : Bool) : IsNumeral (signText negative) := by
  cases negative <;> rfl

theorem isNumeral_render (style : Notation) (x : Float) : IsNumeral (style.render x).toList := by
  unfold Notation.render
  split
  · rfl
  · rw [String.toList_ofList]
    exact .append (isNumeral_signText _) rfl
  · rw [String.toList_ofList]
    exact .append (isNumeral_signText _) (isNumeral_layout _ _)

theorem isNumeral_placesText (places : Nat) (x : Float) :
    IsNumeral (placesText places x).toList := by
  unfold placesText
  split
  · rfl
  · rw [String.toList_ofList]
    exact .append (isNumeral_signText _) rfl
  · rw [String.toList_ofList]
    exact .append (isNumeral_signText _) (isNumeral_withPoint (isNumeral_digitsOf _) _)

end Wireframe.Decimal

namespace Wireframe.Dart

open Design

theorem isNumeral_fraction (v : Float) : IsNumeral (fraction v).toList :=
  Decimal.isNumeral_placesText 4 _

theorem isNumeral_double (v : Float) : IsNumeral (double v).toList := by
  unfold double
  extract_lets text
  have htext : IsNumeral text.toList := Decimal.isNumeral_render _ _
  by_cases hpoint : text.toList.contains '.'
  · rw [if_pos hpoint]
    exact htext
  · rw [if_neg hpoint, String.toList_append]
    exact htext.append rfl

theorem isNumeral_hexDigits (count n : Nat) :
    IsNumeral ((Color.hexDigits count n).map Char.toUpper) := by
  induction count generalizing n with
  | zero => exact .nil
  | succ count ih =>
      rw [Color.hexDigits, List.map_append]
      have digits : ∀ d < 16, isNumeral (Nat.digitChar d).toUpper = true := by decide +kernel
      exact (ih (n / 16)).append (.cons (digits (n % 16) (Nat.mod_lt n (by decide))) .nil)

theorem toList_hexColor (c : Color) :
    (hexColor c).toList = '0' :: 'x' :: (Color.hexDigits 8 c.argb.toNat).map Char.toUpper := by
  simp [hexColor]

theorem isNumeral_hexColor (c : Color) : IsNumeral (hexColor c).toList := by
  rw [toList_hexColor]
  exact .cons rfl (.cons rfl (isNumeral_hexDigits 8 _))

theorem isNumeral_toString (n : Nat) : IsNumeral (toString n).toList := by
  rw [Nat.toString_eq_ofList_toDigits, String.toList_ofList]
  exact Decimal.isNumeral_digitsOf n

@[simp] theorem isClosed_fraction (v : Float) : isClosed (fraction v) :=
  isClosed_of_isNumeral (isNumeral_fraction v)

@[simp] theorem isClosed_double (v : Float) : isClosed (double v) :=
  isClosed_of_isNumeral (isNumeral_double v)

@[simp] theorem isClosed_hexColor (c : Color) : isClosed (hexColor c) :=
  isClosed_of_isNumeral (isNumeral_hexColor c)

@[simp] theorem isClosed_toString (n : Nat) : isClosed (toString n) :=
  isClosed_of_isNumeral (isNumeral_toString n)

/-- What holds of no code and is kept when some is put behind other holds of parts with a separator
between them. -/
theorem intercalate_of_append {P : String → Prop} (hnil : P "")
    (happend : ∀ {a b}, P a → P b → P (a ++ b)) {separator : String} {parts : List String}
    (hs : P separator) (h : ∀ part ∈ parts, P part) : P (String.intercalate separator parts) := by
  induction parts with
  | nil => rwa [String.intercalate_nil]
  | cons part rest ih =>
      obtain ⟨hpart, hrest⟩ := List.forall_mem_cons.mp h
      cases rest with
      | nil => rwa [String.intercalate_singleton]
      | cons next others =>
          rw [String.intercalate_cons_cons]
          exact happend (happend hpart hs) (ih hrest)

theorem isClosed_intercalate {separator : String} {parts : List String} (hs : isClosed separator)
    (h : ∀ part ∈ parts, isClosed part) : isClosed (String.intercalate separator parts) :=
  intercalate_of_append (P := fun code => isClosed code) (by decide) isClosed_append hs h

end Wireframe.Dart
