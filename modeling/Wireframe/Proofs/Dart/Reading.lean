/-
Literals read back.

A literal is read one character after the other: a backslash and what belongs to it stand for one
character, the next quote ends the literal, and a line break or a dollar sign that is not escaped is no
part of one.  A text that is quoted is read back, and nothing behind it is touched.

* `readCharacter?`, `readLiteral?` — what a literal says, and what follows it;
* `readCharacter?_escape` — one character;
* `readText?_flatMap_escape` — all of them, up to the closing quote;
* `Guarded` — code in which every dollar sign is escaped;
* `quote_read_back` — what is read back of a quoted text.
-/
import Wireframe.Json.Quoted
import Wireframe.Proofs.Dart.Lines

namespace Wireframe.Dart

/-! ### Readers -/

/-- The number that some hexadecimal digits stand for. -/
def hexNumber? (digits : List Char) : Option Nat :=
  digits.foldlM (fun n c => (Json.hexValue? c).map (n * 16 + ·)) 0

/-- The character whose code point some hexadecimal digits are, one to six of them. -/
def codePoint? (digits : List Char) : Option Char :=
  (hexNumber? digits).bind fun n =>
    if digits ≠ [] ∧ digits.length ≤ 6 ∧ n.isValidChar then some (Char.ofNat n) else none

/-- The character whose code point stands in front of a closing brace, and what follows the brace. -/
def readCodePoint? (cs : List Char) : Option (Char × List Char) :=
  match cs.dropWhile (· != '\x7d') with
  | [] => none
  | _ :: rest => (codePoint? (cs.takeWhile (· != '\x7d'))).map (·, rest)

/-- The character that is escaped behind a backslash, and what follows it. -/
def readEscape? : List Char → Option (Char × List Char)
  | '\\' :: rest => some ('\\', rest)
  | '\'' :: rest => some ('\'', rest)
  | '$' :: rest => some ('$', rest)
  | 'n' :: rest => some ('\n', rest)
  | 'r' :: rest => some ('\r', rest)
  | 't' :: rest => some ('\t', rest)
  | 'u' :: '\x7b' :: rest => readCodePoint? rest
  | _ => none

/-- The first character of what a literal says, and what follows it. -/
def readCharacter? : List Char → Option (Char × List Char)
  | [] => none
  | c :: rest =>
      if c = '\\' then readEscape? rest
      else if c = '\'' ∨ c = '\n' ∨ c = '\r' ∨ c = '$' then none
      else some (c, rest)

theorem length_lt_of_readCodePoint? {cs rest : List Char} {c : Char}
    (h : readCodePoint? cs = some (c, rest)) : rest.length < cs.length := by
  unfold readCodePoint? at h
  split at h
  · cases h
  · rename_i brace behind hbehind
    obtain ⟨d, -, heq⟩ := Option.map_eq_some_iff.mp h
    obtain ⟨-, rfl⟩ := Prod.mk.inj heq
    have hlength := (List.dropWhile_sublist (l := cs) (· != '\x7d')).length_le
    rwa [hbehind, List.length_cons] at hlength

theorem length_lt_of_readEscape? {cs rest : List Char} {c : Char}
    (h : readEscape? cs = some (c, rest)) : rest.length < cs.length := by
  unfold readEscape? at h
  split at h
  all_goals first
    | (obtain ⟨-, rfl⟩ := Prod.mk.inj (Option.some.inj h); exact Nat.lt_succ_self _)
    | (have hlength := length_lt_of_readCodePoint? h; simp only [List.length_cons]; omega)
    | cases h

/-- To read a character is to go on. -/
theorem length_lt_of_readCharacter? {cs rest : List Char} {c : Char}
    (h : readCharacter? cs = some (c, rest)) : rest.length < cs.length := by
  unfold readCharacter? at h
  split at h
  · cases h
  · split_ifs at h
    · exact Nat.lt_succ_of_lt (length_lt_of_readEscape? h)
    · obtain ⟨-, rfl⟩ := Prod.mk.inj (Option.some.inj h)
      exact Nat.lt_succ_self _

/-- What a literal says that has been opened, and what follows its closing quote. -/
def readText? (cs : List Char) : Option (List Char × List Char) :=
  if cs.head? = some '\'' then some ([], cs.tail)
  else
    match _hread : readCharacter? cs with
    | some (c, rest) => (readText? rest).map fun read => (c :: read.1, read.2)
    | none => none
termination_by cs.length
decreasing_by exact length_lt_of_readCharacter? _hread

/-- What the literal at the beginning of some code says, and what follows it. -/
def readLiteral? : List Char → Option (String × List Char)
  | '\'' :: cs => (readText? cs).map fun read => (String.ofList read.1, read.2)
  | _ => none

theorem readText?_quote (rest : List Char) : readText? ('\'' :: rest) = some ([], rest) := by
  rw [readText?]
  rfl

theorem readText?_of_readCharacter? {cs rest : List Char} {c : Char}
    (h : readCharacter? cs = some (c, rest)) :
    readText? cs = (readText? rest).map fun read => (c :: read.1, read.2) := by
  have hquote : cs.head? ≠ some '\'' := by
    intro hhead
    obtain ⟨more, rfl⟩ := List.head?_eq_some_iff.mp hhead
    cases h
  rw [readText?, if_neg hquote]
  split
  · rename_i d behind hread
    rw [h] at hread
    obtain ⟨rfl, rfl⟩ := Prod.mk.inj (Option.some.inj hread)
    rfl
  · rename_i hread
    rw [h] at hread
    cases hread

/-! ### Code points -/

theorem hexNumber?_append {digits : List Char} {n d : Nat} {c : Char}
    (h : hexNumber? digits = some n) (hc : Json.hexValue? c = some d) :
    hexNumber? (digits ++ [c]) = some (n * 16 + d) := by
  rw [hexNumber?] at h
  rw [hexNumber?, List.foldlM_append, h]
  simp [hc]

theorem hexText_of_le {n : Nat} (h : 16 ≤ n) :
    hexText n = hexText (n / 16) ++ [Nat.digitChar (n % 16)] :=
  Nat.toDigits_of_base_le (by decide) h

theorem hexNumber?_hexText (n : Nat) : hexNumber? (hexText n) = some n := by
  have digits : ∀ d < 16, Json.hexValue? (Nat.digitChar d) = some d := by decide
  induction n using Nat.strongRecOn with
  | ind n ih =>
      by_cases hn : n < 16
      · rw [hexText, Nat.toDigits_of_lt_base hn, ← List.nil_append [Nat.digitChar n],
          hexNumber?_append rfl (digits n hn), Nat.zero_mul, Nat.zero_add]
      · rw [hexText_of_le (Nat.le_of_not_lt hn),
          hexNumber?_append (ih (n / 16) (by omega)) (digits _ (Nat.mod_lt n (by decide))),
          Nat.div_add_mod' n 16]

/-- The code point of a control character has one digit or two. -/
theorem length_hexText {n : Nat} (h : n < 256) :
    (hexText n).length = 1 ∨ (hexText n).length = 2 := by
  by_cases hn : n < 16
  · rw [hexText, Nat.toDigits_of_lt_base hn]
    exact .inl rfl
  · rw [hexText_of_le (Nat.le_of_not_lt hn), hexText,
      Nat.toDigits_of_lt_base (Nat.div_lt_of_lt_mul h)]
    exact .inr rfl

theorem codePoint?_hexText {c : Char} (h : Text.isControl c) :
    codePoint? (hexText c.toNat) = some c := by
  have hsmall : c.toNat < 256 := by
    simp only [Text.isControl, Bool.or_eq_true, Bool.and_eq_true, decide_eq_true_eq] at h
    omega
  have hlength := length_hexText hsmall
  have hne : hexText c.toNat ≠ [] := by
    intro hnil
    rw [hnil, List.length_nil] at hlength
    omega
  rw [codePoint?, hexNumber?_hexText, Option.bind_some,
    if_pos ⟨hne, by omega, c.valid⟩, Char.ofNat_toNat]

theorem readCodePoint?_hexText {c : Char} (h : Text.isControl c) (rest : List Char) :
    readCodePoint? (hexText c.toNat ++ '\x7d' :: rest) = some (c, rest) := by
  have digits : ∀ d < 16, (Nat.digitChar d != '\x7d') = true := by decide
  have hplain : ∀ d ∈ hexText c.toNat, (d != '\x7d') = true := by
    intro d hd
    obtain ⟨k, hk, rfl⟩ := mem_hexText hd
    exact digits k hk
  have htake : (hexText c.toNat ++ '\x7d' :: rest).takeWhile (· != '\x7d') = hexText c.toNat := by
    rw [List.takeWhile_append_of_pos hplain, List.takeWhile_cons_of_neg (by decide),
      List.append_nil]
  have hdrop : (hexText c.toNat ++ '\x7d' :: rest).dropWhile (· != '\x7d') = '\x7d' :: rest := by
    rw [List.dropWhile_append_of_pos hplain, List.dropWhile_cons_of_neg (by decide)]
  rw [readCodePoint?, htake, hdrop, codePoint?_hexText h]
  rfl

/-! ### Texts -/

/-- A character that is escaped is read back, whatever follows it. -/
theorem readCharacter?_escape (c : Char) (rest : List Char) :
    readCharacter? (escape c ++ rest) = some (c, rest) := by
  unfold escape
  split_ifs with hslash hquote hdollar hline hreturn htab hcontrol
  · subst hslash; rfl
  · subst hquote; rfl
  · subst hdollar; rfl
  · subst hline; rfl
  · subst hreturn; rfl
  · subst htab; rfl
  · have hread := readCodePoint?_hexText hcontrol rest
    simpa [readCharacter?, readEscape?] using hread
  · simp [readCharacter?, hslash, hquote, hline, hreturn, hdollar]

/-- What stands between the quotes is read back up to the closing one. -/
theorem readText?_flatMap_escape (cs rest : List Char) :
    readText? (cs.flatMap escape ++ '\'' :: rest) = some (cs, rest) := by
  induction cs with
  | nil => exact readText?_quote rest
  | cons c cs ih =>
      rw [List.flatMap_cons, List.append_assoc,
        readText?_of_readCharacter? (readCharacter?_escape c _), ih, Option.map_some]

/-- A quoted text is read back, and nothing behind it is touched. -/
theorem readLiteral?_quote_append (s : String) (rest : List Char) :
    readLiteral? (quote s ++ rest) = some (s, rest) := by
  rw [quote, List.append_assoc, List.cons_append, readLiteral?, List.singleton_append,
    readText?_flatMap_escape, Option.map_some, String.ofList_toList]

/-- Different texts have different literals. -/
theorem quote_injective : Function.Injective quote := by
  intro s t h
  have hread := readLiteral?_quote_append s []
  rw [h, readLiteral?_quote_append t []] at hread
  exact (Prod.mk.inj (Option.some.inj hread)).1.symm

/-! ### Interpolations -/

/-- Every dollar sign stands behind a backslash that is not escaped itself. -/
def Guarded (cs : List Char) : Prop :=
  ∀ front rest, cs = front ++ '$' :: rest → Mode.literal.after front = .escape

theorem guarded_of_not_mem {cs : List Char} (h : '$' ∉ cs) : Guarded cs := by
  rintro front rest rfl
  exact absurd (List.mem_append_right _ List.mem_cons_self) h

theorem Guarded.append {cs es : List Char} (hc : Guarded cs) (hinside : Inside cs)
    (he : Guarded es) : Guarded (cs ++ es) := by
  intro front rest h
  rcases List.append_eq_append_iff.mp h with ⟨more, rfl, hes⟩ | ⟨more, hcs, hrest⟩
  · rw [Mode.after_append, hinside.after]
    exact he more rest hes
  · cases more with
    | nil =>
        rw [List.append_nil] at hcs
        rw [← hcs, hinside.after]
        exact he [] rest hrest.symm
    | cons c more =>
        obtain ⟨rfl, rfl⟩ := List.cons.inj hrest
        exact hc front more hcs

theorem dollar_not_mem_hexText (n : Nat) : '$' ∉ hexText n := by
  intro h
  obtain ⟨d, hd, heq⟩ := mem_hexText h
  have digits : ∀ d < 16, '$' ≠ Nat.digitChar d := by decide
  exact digits d hd heq

theorem guarded_escape (c : Char) : Guarded (escape c) := by
  by_cases hc : c = '$'
  · subst hc
    intro front rest h
    have h : ['\\', '$'] = front ++ '$' :: rest := h
    cases front with
    | nil => cases h
    | cons first front =>
        obtain ⟨rfl, h⟩ := List.cons.inj h
        cases front with
        | nil => rfl
        | cons second front => simp at h
  · refine guarded_of_not_mem ?_
    unfold escape
    split_ifs
    · decide
    · decide
    · decide
    · decide
    · decide
    · simp [dollar_not_mem_hexText]
    · simpa using Ne.symm hc

theorem guarded_flatMap_escape (cs : List Char) : Guarded (cs.flatMap escape) := by
  induction cs with
  | nil => exact guarded_of_not_mem List.not_mem_nil
  | cons c cs ih =>
      rw [List.flatMap_cons]
      exact (guarded_escape c).append (inside_escape c) ih

theorem after_of_quote {s : String} {front rest : List Char} (h : quote s = front ++ '$' :: rest) :
    Mode.code.after front = .escape := by
  cases front with
  | nil => cases h
  | cons c front =>
      obtain ⟨rfl, hbody⟩ := List.cons.inj h
      have hguarded : Guarded (s.toList.flatMap escape ++ ['\'']) :=
        (guarded_flatMap_escape _).append (.flatMap inside_escape _)
          (guarded_of_not_mem (by decide))
      exact hguarded front rest hbody

/-! ### Literals -/

/-- The literal of a text is read up to its end, whatever stands behind it, and says the text; there
is no line break in it and no dollar sign that is not escaped.  So different texts have different
literals, and none of them is the beginning of another. -/
theorem quote_read_back :
    (∀ (s : String) (rest : List Char), readLiteral? (quote s ++ rest) = some (s, rest)) ∧
      (∀ (s : String), ∀ c ∈ quote s, c ≠ '\n' ∧ c ≠ '\r') ∧
      (∀ (s : String) (front rest : List Char), quote s = front ++ '$' :: rest →
        Mode.code.after front = .escape) ∧
      (∀ (s t : String) (rest more : List Char), quote s ++ rest = quote t ++ more →
        s = t ∧ rest = more) ∧
      Function.Injective quote := by
  have hunique (s t : String) (rest more : List Char) (h : quote s ++ rest = quote t ++ more) :
      s = t ∧ rest = more := by
    have hread := readLiteral?_quote_append s rest
    rw [h, readLiteral?_quote_append t more] at hread
    obtain ⟨hst, hrest⟩ := Prod.mk.inj (Option.some.inj hread)
    exact ⟨hst.symm, hrest.symm⟩
  refine ⟨readLiteral?_quote_append, fun s c hc => ?_, fun s front rest => after_of_quote, hunique,
    fun s t h => (hunique s t [] [] (by rw [h])).1⟩
  have hcontrol := isControl_of_mem_quote hc
  constructor <;> rintro rfl <;> revert hcontrol <;> decide

theorem quote_read_back_price :
    quote "it's $5\\" = "'it\\'s \\$5\\\\'".toList ∧
      readLiteral? "'it\\'s \\$5\\\\', 'x'".toList = some ("it's $5\\", ", 'x'".toList) ∧
      '$' ∈ quote "it's $5\\" ∧ ('$' ≠ '\n' ∧ '$' ≠ '\r') ∧
      Mode.code.after "'it\\'s \\".toList = .escape ∧
      (∀ rest more, quote "it's $5\\" ++ rest ≠ quote "it's $5" ++ more) := by
  obtain ⟨hread, hbreak, hdollar, hunique, -⟩ := quote_read_back
  have htext : quote "it's $5\\" = "'it\\'s \\$5\\\\'".toList := by decide +kernel
  have hmem : '$' ∈ quote "it's $5\\" := by
    rw [htext]
    decide
  have hliteral := hread "it's $5\\" ", 'x'".toList
  rw [htext] at hliteral
  exact ⟨htext, hliteral, hmem, hbreak _ _ hmem,
    hdollar "it's $5\\" "'it\\'s \\".toList "5\\\\'".toList htext,
    fun rest more heq => absurd (hunique _ _ rest more heq).1 (by decide)⟩

end Wireframe.Dart
