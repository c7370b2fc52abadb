/-
Code that is moved to the right.

What stands inside of other code is moved to the right, line by line: its first line stays where the
other code leaves off, and a line that is empty stays empty.  Code without carriage returns that does
not end in a line break loses nothing that way, and to move it twice is to move it once.

* `codeLines`, `nest`, `indent` — the lines of some code, and code that is moved;
* `deleteBlanks`, `unnest`, `unindent` — code that is moved back;
* `IsTidy` — code without carriage returns that does not end in a line break;
* `IsTidy.fields_nest`, `IsTidy.fields_indent` — such code keeps its lines;
* `IsTidy.nest_nest`, `IsTidy.unnest_nest`, `IsTidy.unindent_indent` — moving twice, and moving back;
* `IsMovable` — all of this.
-/
import Wireframe.Dart.Outline
import Wireframe.Proofs.Text.Words

namespace Wireframe.Dart

open Text

/-! ### Lines -/

/-- A line without a carriage return at its end. -/
def chopReturn (line : List Char) : List Char :=
  if line.getLast? = some '\r' then line.dropLast else line

/-- The lines of some code.  A line ends with a line feed, which may follow a carriage return; what is
left behind the last line feed is a line unless it is empty. -/
def codeLines (code : List Char) : List (List Char) :=
  (fields '\n' code).dropLast.map chopReturn ++
    ((fields '\n' code).getLast?.filter (· ≠ [])).toList

/-- A line behind the given number of blanks, unless it is empty. -/
def shift (n : Nat) (line : List Char) : List Char :=
  if line = [] then [] else Outline.margin n ++ line

/-- A list of which all but the first are changed. -/
def mapTail {α : Type} (f : α → α) : List α → List α
  | [] => []
  | first :: others => first :: others.map f

/-- Code of which every line but the first is moved to the right. -/
def nest (n : Nat) (code : List Char) : List Char :=
  joinWith ['\n'] (mapTail (shift n) (codeLines code))

/-- Code of which every line is moved to the right. -/
def indent (n : Nat) (code : List Char) : List Char :=
  joinWith ['\n'] ((codeLines code).map (shift n))

/-- A line without so many blanks at its beginning. -/
def deleteBlanks : Nat → List Char → List Char
  | n + 1, ' ' :: line => deleteBlanks n line
  | _, line => line

/-- Code of which every line but the first is moved back. -/
def unnest (n : Nat) (code : List Char) : List Char :=
  joinWith ['\n'] (mapTail (deleteBlanks n) (fields '\n' code))

/-- Code of which every line is moved back. -/
def unindent (n : Nat) (code : List Char) : List Char :=
  joinWith ['\n'] ((fields '\n' code).map (deleteBlanks n))

/-- Code without carriage returns that does not end in a line break. -/
structure IsTidy (code : List Char) : Prop where
  noReturn : '\r' ∉ code
  ends : code.getLast? ≠ some '\n'

section Lines

variable {code line : List Char} {n : Nat}

theorem deleteBlanks_shift (n : Nat) (line : List Char) : deleteBlanks n (shift n line) = line := by
  have hmargin : deleteBlanks n (Outline.margin n ++ line) = line := by
    induction n with
    | zero => rfl
    | succ n ih => exact ih
  unfold shift
  split
  · rename_i h
    rw [h]
    cases n <;> rfl
  · exact hmargin

theorem shift_shift (m n : Nat) (line : List Char) : shift n (shift m line) = shift (m + n) line := by
  unfold shift
  by_cases h : line = []
  · rw [if_pos h, if_pos rfl, if_pos h]
  · have hne : Outline.margin m ++ line ≠ [] := List.append_ne_nil_of_right_ne_nil _ h
    rw [if_neg h, if_neg hne, if_neg h, ← List.append_assoc, Outline.margin, Outline.margin,
      Outline.margin, List.replicate_append_replicate, Nat.add_comm]

theorem shift_eq_nil_iff : shift n line = [] ↔ line = [] := by
  unfold shift
  split
  · rename_i h
    exact iff_of_true rfl h
  · rename_i h
    exact iff_of_false (List.append_ne_nil_of_right_ne_nil _ h) h

theorem of_mem_shift {c : Char} (h : c ∈ shift n line) : c = ' ' ∨ c ∈ line := by
  unfold shift at h
  split at h
  · cases h
  · exact (List.mem_append.mp h).imp_left List.eq_of_mem_replicate

theorem map_mapTail {α : Type} (f g : α → α) (l : List α) :
    mapTail g (mapTail f l) = mapTail (g ∘ f) l := by
  cases l with
  | nil => rfl
  | cons a l => rw [mapTail, mapTail, mapTail, List.map_map]

theorem mapTail_id {α : Type} {f : α → α} (h : ∀ a, f a = a) (l : List α) : mapTail f l = l := by
  cases l with
  | nil => rfl
  | cons a l => rw [mapTail, funext h, List.map_id'']; exact fun a => rfl

theorem mem_mapTail {α : Type} {f : α → α} {l : List α} {b : α} (h : b ∈ mapTail f l) :
    b ∈ l ∨ ∃ a ∈ l, f a = b := by
  cases l with
  | nil => cases h
  | cons a l =>
    rcases List.mem_cons.mp h with rfl | h
    · exact .inl List.mem_cons_self
    · obtain ⟨c, hc, rfl⟩ := List.mem_map.mp h
      exact .inr ⟨c, List.mem_cons_of_mem a hc, rfl⟩

end Lines

/-! ### The lines of code -/

theorem getLast?_mapTail {α : Type} {f : α → α} {l : List α} {b : α}
    (h : (mapTail f l).getLast? = some b) : ∃ a, l.getLast? = some a ∧ (a = b ∨ f a = b) := by
  cases l with
  | nil => cases h
  | cons first others =>
    rw [mapTail, List.getLast?_cons, List.getLast?_map, Option.some_inj] at h
    rw [List.getLast?_cons]
    cases hlast : others.getLast? with
    | none =>
      rw [hlast] at h
      exact ⟨first, rfl, .inl h⟩
    | some a =>
      rw [hlast] at h
      exact ⟨a, rfl, .inr h⟩

theorem newLine_not_mem_shift {n : Nat} {line : List Char} (h : '\n' ∉ line) :
    '\n' ∉ shift n line := fun hmem => (of_mem_shift hmem).elim (by decide) h

/-- The lines of code that is moved hold no line feed. -/
theorem newLine_not_mem_of_mem_mapTail {n : Nat} {code line : List Char}
    (h : line ∈ mapTail (shift n) (fields '\n' code)) : '\n' ∉ line := by
  rcases mem_mapTail h with h | ⟨field, hfield, rfl⟩
  · exact not_mem_of_mem_fields h
  · exact newLine_not_mem_shift (not_mem_of_mem_fields hfield)

theorem mapTail_ne_nil {α : Type} {f : α → α} {l : List α} (h : l ≠ []) : mapTail f l ≠ [] := by
  obtain ⟨first, others, rfl⟩ := List.exists_cons_of_ne_nil h
  exact List.cons_ne_nil _ _

namespace IsTidy

variable {code : List Char}

theorem nil : IsTidy [] := ⟨List.not_mem_nil, by simp⟩

/-- Code that is not empty is split at its line feeds and nowhere else. -/
theorem codeLines_eq (h : IsTidy code) (hne : code ≠ []) : codeLines code = fields '\n' code := by
  have hlast : fields '\n' code ≠ [] := fields_ne_nil code
  have hlastLine : (fields '\n' code).getLast hlast ≠ [] := fun hnil =>
    (getLast?_of_getLast?_fields (hnil ▸ List.getLast?_eq_some_getLast hlast)).elim hne h.ends
  have hchop : (fields '\n' code).dropLast.map chopReturn = (fields '\n' code).dropLast := by
    have hkeep : ∀ line ∈ (fields '\n' code).dropLast, chopReturn line = id line := by
      intro line hline
      refine if_neg fun hreturn => h.noReturn ?_
      exact mem_of_mem_fields (List.dropLast_subset _ hline) (List.mem_of_getLast? hreturn)
    rw [List.map_congr_left hkeep, List.map_id]
  have hkept : ((fields '\n' code).getLast?.filter (· ≠ [])).toList =
      [(fields '\n' code).getLast hlast] := by
    rw [List.getLast?_eq_some_getLast hlast, Option.filter_some, if_pos (by simpa using hlastLine),
      Option.toList_some]
  rw [codeLines, hchop, hkept, List.dropLast_append_getLast]

/-- Code that is moved is its lines, moved. -/
theorem nest_eq (h : IsTidy code) (n : Nat) :
    nest n code = joinWith ['\n'] (mapTail (shift n) (fields '\n' code)) := by
  by_cases hne : code = []
  · subst hne
    rfl
  · rw [nest, h.codeLines_eq hne]

theorem indent_eq (h : IsTidy code) (n : Nat) :
    indent n code = joinWith ['\n'] ((fields '\n' code).map (shift n)) := by
  by_cases hne : code = []
  · subst hne
    rfl
  · rw [indent, h.codeLines_eq hne]

/-- No line is lost, and no two lines become one. -/
theorem fields_nest (h : IsTidy code) (n : Nat) :
    fields '\n' (nest n code) = mapTail (shift n) (fields '\n' code) := by
  rw [h.nest_eq]
  exact fields_joinWith (fun _ => newLine_not_mem_of_mem_mapTail) (mapTail_ne_nil (fields_ne_nil code))

theorem fields_indent (h : IsTidy code) (n : Nat) :
    fields '\n' (indent n code) = (fields '\n' code).map (shift n) := by
  have hlines : ∀ line ∈ (fields '\n' code).map (shift n), '\n' ∉ line := by
    intro line hline
    obtain ⟨field, hfield, rfl⟩ := List.mem_map.mp hline
    exact newLine_not_mem_shift (not_mem_of_mem_fields hfield)
  rw [h.indent_eq]
  exact fields_joinWith hlines fun hnil => fields_ne_nil code (List.map_eq_nil_iff.mp hnil)

theorem of_nest (h : IsTidy code) (n : Nat) : IsTidy (nest n code) where
  noReturn := by
    intro hmem
    rw [h.nest_eq] at hmem
    rcases mem_joinWith hmem with heq | ⟨line, hline, hmem⟩
    · cases heq
    · rcases mem_mapTail hline with hline | ⟨field, hfield, rfl⟩
      · exact h.noReturn (mem_of_mem_fields hline hmem)
      · rcases of_mem_shift hmem with heq | hmem
        · cases heq
        · exact h.noReturn (mem_of_mem_fields hfield hmem)
  ends := by
    intro hends
    have hlast := getLast?_fields_of_getLast? hends
    rw [h.fields_nest] at hlast
    obtain ⟨line, hline, hshift⟩ := getLast?_mapTail hlast
    have hnil : line = [] := hshift.elim id shift_eq_nil_iff.mp
    subst hnil
    rcases getLast?_of_getLast?_fields hline with rfl | hlast
    · cases hends
    · exact h.ends hlast

/-- To move code twice is to move it once, by the sum. -/
theorem nest_nest (h : IsTidy code) (a b : Nat) : nest b (nest a code) = nest (a + b) code := by
  have hshift : shift b ∘ shift a = shift (a + b) := funext fun line => shift_shift a b line
  rw [(h.of_nest a).nest_eq, h.fields_nest, map_mapTail, hshift, h.nest_eq]

theorem unnest_nest (h : IsTidy code) (n : Nat) : unnest n (nest n code) = code := by
  have hid : ∀ line, (deleteBlanks n ∘ shift n) line = line := fun line => deleteBlanks_shift n line
  rw [unnest, h.fields_nest, map_mapTail, mapTail_id hid, joinWith_fields]

theorem unindent_indent (h : IsTidy code) (n : Nat) : unindent n (indent n code) = code := by
  have hid : deleteBlanks n ∘ shift n = id := funext fun line => deleteBlanks_shift n line
  rw [unindent, h.fields_indent, List.map_map, hid, List.map_id, joinWith_fields]

end IsTidy

/-- What is true of code that may be moved as often as one likes. -/
structure IsMovable (code : List Char) : Prop where
  twice : ∀ a b, nest b (nest a code) = nest (a + b) code
  back : ∀ n, unnest n (nest n code) = code
  allBack : ∀ n, unindent n (indent n code) = code
  lines : ∀ n, fields '\n' (nest n code) = mapTail (shift n) (fields '\n' code)
  allLines : ∀ n, fields '\n' (indent n code) = (fields '\n' code).map (shift n)

theorem IsTidy.isMovable {code : List Char} (h : IsTidy code) : IsMovable code :=
  ⟨h.nest_nest, h.unnest_nest, h.unindent_indent, h.fields_nest, h.fields_indent⟩

example : nest 2 "a(\n  b,\n)".toList = "a(\n    b,\n  )".toList := by decide

end Wireframe.Dart
