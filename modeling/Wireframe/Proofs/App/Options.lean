/-
The options of a selector.

A selector lists each of its options once, where it is met first, and the helper that shows them starts
with the first one.  Different options have different literals, so no two values of the list are the
same.

* `mem_distinctAfter`, `nodup_distinctAfter`, `pairwise_distinctAfter` — which texts are kept, how often
  and in which order;
* `KeepsFirsts` — a list without its later repetitions;
* `writePieces_literalPieces` — literals with commas between them;
* `ListsOptions`, `listsOptions_selectorCode` — the options that a selector is written with.
-/
import Mathlib.Data.List.Nodup
import Wireframe.App.ScreenSource
import Wireframe.Proofs.Dart.Reading

namespace Wireframe.App

open Dart Design

/-! ### Texts without repetitions -/

theorem distinctAfter_cons (seen : List String) (s : String) (rest : List String) :
    distinctAfter seen (s :: rest) =
      if s ∈ seen then distinctAfter seen rest else s :: distinctAfter (s :: seen) rest := by
  rw [distinctAfter]
  by_cases h : s ∈ seen <;> simp [h]

theorem mem_distinctAfter {seen texts : List String} {s : String} :
    s ∈ distinctAfter seen texts ↔ s ∈ texts ∧ s ∉ seen := by
  induction texts generalizing seen with
  | nil => simp [distinctAfter]
  | cons t rest ih =>
    rw [distinctAfter_cons]
    by_cases ht : t ∈ seen
    · rw [if_pos ht, ih, List.mem_cons]
      constructor
      · exact fun h => ⟨.inr h.1, h.2⟩
      · rintro ⟨rfl | hs, hseen⟩
        · exact absurd ht hseen
        · exact ⟨hs, hseen⟩
    · rw [if_neg ht, List.mem_cons, ih, List.mem_cons, List.mem_cons, not_or]
      constructor
      · rintro (rfl | ⟨hs, -, hseen⟩)
        · exact ⟨.inl rfl, ht⟩
        · exact ⟨.inr hs, hseen⟩
      · rintro ⟨hs, hseen⟩
        by_cases heq : s = t
        · exact .inl heq
        · exact .inr ⟨hs.resolve_left heq, heq, hseen⟩

theorem nodup_distinctAfter (seen texts : List String) : (distinctAfter seen texts).Nodup := by
  induction texts generalizing seen with
  | nil => exact List.nodup_nil
  | cons t rest ih =>
    rw [distinctAfter_cons]
    split
    · exact ih seen
    · refine List.nodup_cons.mpr ⟨fun hmem => ?_, ih (t :: seen)⟩
      exact (mem_distinctAfter.mp hmem).2 List.mem_cons_self

/-- Texts are kept in the order in which they are met first. -/
theorem pairwise_distinctAfter (seen texts : List String) :
    (distinctAfter seen texts).Pairwise fun a b => texts.idxOf a < texts.idxOf b := by
  induction texts generalizing seen with
  | nil => exact .nil
  | cons t rest ih =>
    -- what is kept of the rest is not the first text, so its places move by one
    have hrest {more : List String} (ht : t ∈ more) : (distinctAfter more rest).Pairwise
        fun a b => (t :: rest).idxOf a < (t :: rest).idxOf b := by
      refine (ih more).imp_of_mem fun {a b} ha hb hlt => ?_
      have hne {s : String} (hs : s ∈ distinctAfter more rest) : t ≠ s := by
        rintro rfl
        exact (mem_distinctAfter.mp hs).2 ht
      rw [List.idxOf_cons_ne _ (hne ha), List.idxOf_cons_ne _ (hne hb)]
      exact Nat.succ_lt_succ hlt
    rw [distinctAfter_cons]
    by_cases ht : t ∈ seen
    · rw [if_pos ht]
      exact hrest ht
    · rw [if_neg ht]
      refine List.pairwise_cons.mpr ⟨fun s hs => ?_, hrest List.mem_cons_self⟩
      have hne : t ≠ s := by
        rintro rfl
        exact (mem_distinctAfter.mp hs).2 List.mem_cons_self
      rw [List.idxOf_cons_self, List.idxOf_cons_ne _ hne]
      exact Nat.succ_pos _

/-- The list keeps every text of another where it is met first, and nothing else. -/
structure KeepsFirsts (texts kept : List String) : Prop where
  mem_iff : ∀ s, s ∈ kept ↔ s ∈ texts
  count : ∀ s, kept.count s = if s ∈ texts then 1 else 0
  order : kept.Pairwise fun a b => texts.idxOf a < texts.idxOf b
  head : kept.head? = texts.head?

theorem mem_distinct {texts : List String} {s : String} : s ∈ distinct texts ↔ s ∈ texts := by
  simp [distinct, mem_distinctAfter]

theorem nodup_distinct (texts : List String) : (distinct texts).Nodup := nodup_distinctAfter [] texts

theorem keepsFirsts_distinct (texts : List String) : KeepsFirsts texts (distinct texts) where
  mem_iff _ := mem_distinct
  count _ := (nodup_distinct texts).count.trans (if_congr mem_distinct rfl rfl)
  order := pairwise_distinctAfter [] texts
  head := by cases texts <;> rfl

/-! ### Literals -/

/-- Texts as literals are written with commas between them. -/
theorem writePieces_literalPieces (texts : List String) :
    writePieces (literalPieces texts) = Text.joinWith [',', ' '] (texts.map quote) := by
  induction texts with
  | nil => rfl
  | cons s rest ih =>
    cases rest with
    | nil => exact List.append_nil _
    | cons t others =>
      have hpieces : writePieces (literalPieces (s :: t :: others)) =
          quote s ++ [',', ' '] ++ writePieces (literalPieces (t :: others)) := by
        show writePieces ([.quoted s] ++ [.raw ", "] ++ literalPieces (t :: others)) = _
        simp [writePieces, Piece.write]
      rw [hpieces, ih]
      rfl

/-- The line of the helper of selectors that says what is chosen at first. -/
def initialLine : List Char :=
  "  late String? _value = widget.options.isEmpty ? null : widget.options.first;".toList

/-- The line of the helper of selectors that says what can be chosen. -/
def itemsLine : List Char := "        for (final option in widget.options)".toList

/-- The options that a selector is written with, as literals and as what these say. -/
structure ListsOptions (p : SelectorProps) (literals : List (List Char)) (kept : List String) :
    Prop where
  written : ∀ n, ∃ behind, (selectorCode p).write n =
    "_DropdownField(".toList ++ newLine (n + 2) ++ "options: const <String>[".toList ++
      Text.joinWith [',', ' '] literals ++ "],".toList ++ behind
  distinct : literals.Nodup
  decoded : literals.map readLiteral? = kept.map fun s => some (s, [])
  keepsFirsts : KeepsFirsts p.options kept
  /-- The helper starts with the first of the options that it is given, and offers all of them. -/
  helper : ∃ c ∈ Helper.dropdown.classes, initialLine ∈ Outline.linesAll 2 c.body ∧
    itemsLine ∈ Outline.linesAll 2 c.body

/-- A selector is written with its options, each once and where it is met first. -/
theorem listsOptions_selectorCode (p : SelectorProps) :
    ∃ literals kept, ListsOptions p literals kept := by
  refine ⟨(distinct p.options).map quote, distinct p.options, ?_, ?_, ?_,
    keepsFirsts_distinct p.options, ?_⟩
  · intro n
    have hlist : writePieces (.raw "const <String>[" :: literalPieces (distinct p.options) ++
        [.raw "]"]) = "const <String>[".toList ++
          Text.joinWith [',', ' '] ((distinct p.options).map quote) ++ [']'] := by
      rw [← writePieces_literalPieces]
      simp [writePieces, Piece.write]
    refine ⟨newLine (n + 2) ++ (fontSizeArg p.fontSize).write (n + 2) ++ [','] ++ newLine n ++
      [')'], ?_⟩
    rw [selectorCode, Expr.write, Expr.writeLines, Expr.writeLines, Expr.writeLines, Expr.write,
      Expr.write, hlist]
    simp [Helper.className]
  · exact (nodup_distinct p.options).map quote_injective
  · rw [List.map_map]
    refine List.map_congr_left fun s _ => ?_
    have hread := readLiteral?_quote_append s []
    rwa [List.append_nil] at hread
  · decide

end Wireframe.App
