/-
Strings that are read back.

* `Source.ofChars` — characters as symbols;
* `readChars_quoteChar` — a written character;
* `readString_quote` — a written string, whatever follows it.
-/
import Wireframe.Json.Quoted

namespace Wireframe.Json

/-- Characters as symbols. -/
def Source.ofChars (cs : List Char) : Source := cs.map .char

namespace Source

@[simp] theorem ofChars_nil : ofChars [] = [] := rfl

@[simp] theorem ofChars_cons (c : Char) (cs : List Char) :
    ofChars (c :: cs) = .char c :: ofChars cs := rfl

@[simp] theorem ofChars_append (cs ds : List Char) :
    ofChars (cs ++ ds) = ofChars cs ++ ofChars ds := List.map_append

@[simp] theorem length_ofChars (cs : List Char) : (ofChars cs).length = cs.length :=
  List.length_map _

end Source

theorem hexValue?_hexDigit (n : Nat) : hexValue? (hexDigit n) = some (n % 16) := by
  have digits : ∀ d < 16, hexValue? (Nat.digitChar d) = some d := by decide
  exact digits (n % 16) (Nat.mod_lt n (by decide))

/-- The digits that a control character is written with. -/
theorem unit?_control {n : Nat} (h : n < 0x20) :
    unit? '0' '0' (hexDigit (n / 16)) (hexDigit n) = some n := by
  have hzero : hexValue? '0' = some 0 := by decide
  have hvalue : ((0 * 16 + 0) * 16 + n / 16 % 16) * 16 + n % 16 = n := by omega
  simp only [unit?, hzero, hexValue?_hexDigit, Option.bind_eq_bind, Option.bind_some,
    Option.pure_def, hvalue]

section Chars

variable {source rest : Source} {cs : List Char}

theorem readChars_escaped {e c : Char} (he : escaped? e = some c)
    (h : readChars source = .ok (cs, rest)) :
    readChars (.char '\\' :: .char e :: source) = .ok (c :: cs, rest) := by
  rw [readChars]
  · simp only [he, h]
  · rintro rfl
    cases he

theorem readChars_control {n : Nat} (hn : n < 0x20) (h : readChars source = .ok (cs, rest)) :
    readChars (Source.ofChars ['\\', 'u', '0', '0', hexDigit (n / 16), hexDigit n] ++ source) =
      .ok (Char.ofNat n :: cs, rest) := by
  -- no half of a pair is that small
  have hlow : isLowHalf n = false := by
    simp only [isLowHalf, Bool.and_eq_false_iff, decide_eq_false_iff_not]
    omega
  have hhigh : isHighHalf n = false := by
    simp only [isHighHalf, Bool.and_eq_false_iff, decide_eq_false_iff_not]
    omega
  simp only [Source.ofChars_cons, Source.ofChars_nil, List.cons_append, List.nil_append]
  rw [readChars]
  simp only [unit?_control hn, hlow, hhigh, h, Bool.false_eq_true, if_false]

theorem readChars_plain {c : Char} (hquote : c ≠ '"') (hback : c ≠ '\\') (hc : ¬c.toNat < 0x20)
    (h : readChars source = .ok (cs, rest)) :
    readChars (.char c :: source) = .ok (c :: cs, rest) := by
  rw [readChars]
  · rw [if_neg hc]
    simp only [h]
  · exact hquote
  · exact hback

/-- A written character is read back. -/
theorem readChars_quoteChar (c : Char) (h : readChars source = .ok (cs, rest)) :
    readChars (Source.ofChars (quoteChar c) ++ source) = .ok (c :: cs, rest) := by
  unfold quoteChar
  split
  · exact readChars_escaped rfl h
  · exact readChars_escaped rfl h
  · exact readChars_escaped rfl h
  · exact readChars_escaped rfl h
  · exact readChars_escaped rfl h
  · exact readChars_escaped rfl h
  · exact readChars_escaped rfl h
  · rename_i hquote hback _ _ _ _ _
    split
    · rename_i hcontrol
      have hread := readChars_control hcontrol h
      rwa [Char.ofNat_toNat] at hread
    · rename_i hcontrol
      exact readChars_plain hquote hback hcontrol h

end Chars

theorem readChars_flatMap_quoteChar (cs : List Char) (rest : Source) :
    readChars (Source.ofChars (cs.flatMap quoteChar) ++ .char '"' :: rest) = .ok (cs, rest) := by
  induction cs with
  | nil => rfl
  | cons c cs ih =>
      rw [List.flatMap_cons, Source.ofChars_append, List.append_assoc]
      exact readChars_quoteChar c ih

/-- A written string is read back, and what follows it is left. -/
theorem readString_quote (s : String) (rest : Source) :
    readString (Source.ofChars (s.toList.flatMap quoteChar) ++ .char '"' :: rest) =
      .ok (s, rest) := by
  rw [readString, readChars_flatMap_quoteChar]
  simp only [String.ofList_toList]

end Wireframe.Json
