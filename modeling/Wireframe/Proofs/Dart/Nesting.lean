/-
Brackets that match.

Brackets in code are nested if each one that is opened is closed by one of its own kind, with nested
code between the two.  A scan with a stack of open brackets decides it.

* `Nested` — characters whose brackets match;
* `scan`, `nested_iff_scan` — the scan, and that it decides what is nested;
* `Nested.append`, `Nested.insert` — nested code beside and inside of other nested code;
* `IsBalanced` — the text of a file with nothing left open.
-/
import Wireframe.Proofs.Dart.Lines

namespace Wireframe.Dart

/-! ### Brackets -/

namespace Bracket

/-- All pairs of brackets. -/
def all : List Bracket := [round, square, curly]

/-- The character is a bracket. -/
def isBracket (c : Char) : Bool := all.any fun b => c == b.opening || c == b.closing

/-- The pair of brackets that a character opens. -/
def ofOpening? (c : Char) : Option Bracket := all.find? (·.opening == c)

/-- The pair of brackets that a character closes. -/
def ofClosing? (c : Char) : Option Bracket := all.find? (·.closing == c)

theorem ofOpening?_opening (b : Bracket) : ofOpening? b.opening = some b := by cases b <;> rfl

theorem ofOpening?_closing (b : Bracket) : ofOpening? b.closing = none := by cases b <;> rfl

theorem ofClosing?_closing (b : Bracket) : ofClosing? b.closing = some b := by cases b <;> rfl

theorem opening_of_ofOpening? {c : Char} {b : Bracket} (h : ofOpening? c = some b) :
    c = b.opening := by
  have hfound := List.find?_some h
  exact (beq_iff_eq.mp hfound).symm

theorem closing_of_ofClosing? {c : Char} {b : Bracket} (h : ofClosing? c = some b) :
    c = b.closing := by
  have hfound := List.find?_some h
  exact (beq_iff_eq.mp hfound).symm

theorem isBracket_eq_false_iff {c : Char} :
    isBracket c = false ↔ ofOpening? c = none ∧ ofClosing? c = none := by
  simp only [isBracket, ofOpening?, ofClosing?, List.find?_eq_none, List.any_eq_false,
    Bool.or_eq_true, not_or, beq_iff_eq, eq_comm (a := c)]
  exact ⟨fun h => ⟨fun b hb => (h b hb).1, fun b hb => (h b hb).2⟩,
    fun h b hb => ⟨h.1 b hb, h.2 b hb⟩⟩

end Bracket

/-- Characters whose brackets match: each that is opened is closed by one of its kind, and so are
the brackets between the two. -/
inductive Nested : List Char → Prop
  | nil : Nested []
  | other {c : Char} {cs : List Char} (hc : Bracket.isBracket c = false) (h : Nested cs) :
      Nested (c :: cs)
  | pair (b : Bracket) {inner rest : List Char} (hinner : Nested inner) (hrest : Nested rest) :
      Nested (b.opening :: inner ++ b.closing :: rest)

/-- The brackets that are open behind a character, the innermost first; nothing if it closes one that
is not the innermost. -/
def step (opened : List Bracket) (c : Char) : Option (List Bracket) :=
  match Bracket.ofOpening? c with
  | some b => some (b :: opened)
  | none =>
      match Bracket.ofClosing? c with
      | none => some opened
      | some b =>
          match opened with
          | [] => none
          | innermost :: outer => if b = innermost then some outer else none

/-- The brackets that are open behind some characters when some were open before them. -/
def scan (opened : List Bracket) (cs : List Char) : Option (List Bracket) := cs.foldlM step opened

section Scan

variable {opened : List Bracket} {cs : List Char}

theorem scan_cons (opened : List Bracket) (c : Char) (cs : List Char) :
    scan opened (c :: cs) = (step opened c).bind (scan · cs) := List.foldlM_cons

theorem scan_append (opened : List Bracket) (cs es : List Char) :
    scan opened (cs ++ es) = (scan opened cs).bind (scan · es) := List.foldlM_append

theorem scan_opening (b : Bracket) : scan opened (b.opening :: cs) = scan (b :: opened) cs := by
  rw [scan_cons, step, Bracket.ofOpening?_opening]
  rfl

theorem scan_closing (b : Bracket) : scan (b :: opened) (b.closing :: cs) = scan opened cs := by
  rw [scan_cons, step, Bracket.ofOpening?_closing, Bracket.ofClosing?_closing]
  simp only [if_true, Option.bind_some]

theorem scan_other {c : Char} (h : Bracket.isBracket c = false) :
    scan opened (c :: cs) = scan opened cs := by
  obtain ⟨hopening, hclosing⟩ := Bracket.isBracket_eq_false_iff.mp h
  rw [scan_cons, step, hopening, hclosing]
  rfl

/-- Nested characters leave open what was open. -/
theorem Nested.scan (h : Nested cs) (opened : List Bracket) : scan opened cs = some opened := by
  induction h generalizing opened with
  | nil => rfl
  | other hc _ ih => rw [scan_other hc, ih]
  | pair b _ _ ihinner ihrest =>
      rw [List.cons_append, scan_opening, scan_append, ihinner, Option.bind_some, scan_closing,
        ihrest]

/-- The characters close the given brackets one after the other, with nested characters around. -/
def Closes : (opened : List Bracket) → List Char → Prop
  | [], cs => Nested cs
  | b :: outer, cs => ∃ inner rest, cs = inner ++ b.closing :: rest ∧ Nested inner ∧
      Closes outer rest

theorem Closes.other {c : Char} (hc : Bracket.isBracket c = false) (h : Closes opened cs) :
    Closes opened (c :: cs) := by
  cases opened with
  | nil => exact .other hc h
  | cons b outer =>
      obtain ⟨inner, rest, rfl, hinner, hrest⟩ := h
      exact ⟨c :: inner, rest, rfl, .other hc hinner, hrest⟩

theorem Closes.pair (b : Bracket) {inner : List Char} (hinner : Nested inner)
    (h : Closes opened cs) : Closes opened (b.opening :: inner ++ b.closing :: cs) := by
  cases opened with
  | nil => exact .pair b hinner h
  | cons b' outer =>
      obtain ⟨inner', rest, rfl, hinner', hrest⟩ := h
      refine ⟨b.opening :: inner ++ b.closing :: inner', rest, ?_, .pair b hinner hinner', hrest⟩
      simp only [List.cons_append, List.append_assoc]

theorem closes_of_scan (h : scan opened cs = some []) : Closes opened cs := by
  induction cs generalizing opened with
  | nil =>
      obtain rfl := Option.some.inj h
      exact .nil
  | cons c cs ih =>
      rw [scan_cons, step] at h
      split at h
      -- what follows closes the bracket that is opened here
      · rename_i b hopening
        obtain rfl := Bracket.opening_of_ofOpening? hopening
        obtain ⟨inner, rest, rfl, hinner, hrest⟩ := ih h
        exact .pair b hinner hrest
      · rename_i hopening
        split at h
        · rename_i hclosing
          exact (ih h).other (Bracket.isBracket_eq_false_iff.mpr ⟨hopening, hclosing⟩)
        · rename_i b hclosing
          obtain rfl := Bracket.closing_of_ofClosing? hclosing
          split at h
          · cases h
          · split at h
            · rename_i heq
              rw [← heq]
              exact ⟨[], cs, rfl, .nil, ih h⟩
            · cases h

/-- The scan decides whether brackets match. -/
theorem nested_iff_scan : Nested cs ↔ scan [] cs = some [] :=
  ⟨fun h => h.scan [], fun h => closes_of_scan h⟩

end Scan

instance (cs : List Char) : Decidable (Nested cs) :=
  decidable_of_iff (scan [] cs = some []) nested_iff_scan.symm

namespace Nested

variable {a b c : List Char}

theorem append (ha : Nested a) (hb : Nested b) : Nested (a ++ b) := by
  rw [nested_iff_scan, scan_append, ha.scan, Option.bind_some]
  exact hb.scan []

/-- Nested characters may be put anywhere inside of others. -/
theorem insert (h : Nested (a ++ c)) (hb : Nested b) : Nested (a ++ b ++ c) := by
  rw [nested_iff_scan, scan_append] at h
  rw [nested_iff_scan, scan_append, scan_append, Option.bind_assoc]
  obtain ⟨opened, ha, hc⟩ := Option.bind_eq_some_iff.mp h
  rw [ha, Option.bind_some, hb.scan, Option.bind_some]
  exact hc

theorem of_other (h : ∀ x ∈ a, Bracket.isBracket x = false) : Nested a := by
  induction a with
  | nil => exact .nil
  | cons x a ih =>
      obtain ⟨hx, ha⟩ := List.forall_mem_cons.mp h
      exact .other hx (ih ha)

end Nested

/-! ### Texts -/

/-- Every literal of a text is closed, the brackets outside of literals match, and there are no
control characters but line feeds. -/
structure IsBalanced (text : String) : Prop where
  closed : Mode.code.after text.toList = .code
  nested : Nested (mask text).toList
  control : ∀ c ∈ text.toList, Text.isControl c = true → c = '\n'

end Wireframe.Dart
