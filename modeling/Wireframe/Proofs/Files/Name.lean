/-
Names and paths.

A name stands for an entry of a directory.  A path that is put below another consists of the names that
lead into the directory at the other and of its own.

* `isName` — names that an entry of a directory can have;
* `below` — what stands before a path that is put below another;
* `pieces_join`, `below_join` — paths below a path.
-/
import Mathlib.Data.List.Basic
import Wireframe.Files.Path
import Wireframe.Proofs.Text.Words

namespace Wireframe.Files

/-! ### Names -/

/-- The name can be that of an entry of a directory. -/
def isName (name : String) : Bool :=
  name != "" && name != "." && name != ".." && !name.toList.contains '/'

theorem isName_iff {name : String} :
    isName name ↔ name ≠ "" ∧ name ≠ "." ∧ name ≠ ".." ∧ '/' ∉ name.toList := by
  simp [isName, and_assoc]

theorem pieces_ne_nil (path : String) : pieces path ≠ [] := by
  simp [pieces, Text.fields_ne_nil]

theorem pieces_of_isName {name : String} (h : isName name) : pieces name = [name] := by
  obtain ⟨-, -, -, hslash⟩ := isName_iff.mp h
  rw [pieces, Text.fields_of_not_mem hslash, List.map_singleton, String.ofList_toList]

/-- A piece of a path is a name if it means something. -/
theorem isName_of_mem_pieces {path piece : String} (h : piece ∈ pieces path)
    (hpiece : piece ∉ ["", ".", ".."]) : isName piece := by
  obtain ⟨field, hfield, rfl⟩ := List.mem_map.mp h
  simp only [List.mem_cons, List.not_mem_nil, or_false, not_or] at hpiece
  have hslash := Text.not_mem_of_mem_fields hfield
  exact isName_iff.mpr ⟨hpiece.1, hpiece.2.1, hpiece.2.2, by rwa [String.toList_ofList]⟩

theorem isAbsolute_of_isName {name : String} (h : isName name) : isAbsolute name = false := by
  obtain ⟨-, -, -, hslash⟩ := isName_iff.mp h
  refine beq_false_of_ne fun hhead => hslash ?_
  exact List.mem_of_mem_head? hhead

theorem componentOf?_of_isName {name : String} (h : isName name) :
    componentOf? name = some (.name name) := by
  obtain ⟨hempty, hpoint, hup, -⟩ := isName_iff.mp h
  simp [componentOf?, hempty, hpoint, hup]

/-! ### Paths below a path -/

/-- What stands before a path that is put below the given one. -/
def below (base : String) : List String :=
  if base = "" then []
  else if base.toList.getLast? = some '/' then (pieces base).dropLast
  else pieces base

section Join

variable {base path : String}

theorem pieces_append_slash (a b : String) : pieces (a ++ "/" ++ b) = pieces a ++ pieces b := by
  have htext : (a ++ "/" ++ b).toList = a.toList ++ '/' :: b.toList := by simp
  rw [pieces, htext, Text.fields_append_cons, List.map_append]
  rfl

theorem exists_append_slash (h : base.toList.getLast? = some '/') : ∃ front, base = front ++ "/" := by
  obtain ⟨cs, hcs⟩ := List.getLast?_eq_some_iff.mp h
  refine ⟨String.ofList cs, String.toList_inj.mp ?_⟩
  rw [hcs, String.toList_append, String.toList_ofList]
  rfl

theorem below_append_slash (front : String) : below (front ++ "/") = pieces front := by
  have hlast : (front ++ "/").toList.getLast? = some '/' := by simp
  have hempty : front ++ "/" ≠ "" := by
    intro h
    rw [h] at hlast
    cases hlast
  have hpieces := pieces_append_slash front ""
  rw [String.append_empty] at hpieces
  rw [below, if_neg hempty, if_pos hlast, hpieces]
  exact List.dropLast_concat

/-- A path is followed to what is below it, and then by nothing or by a piece that means nothing. -/
theorem pieces_eq_below (h : base ≠ "") :
    pieces base = below base ∨ pieces base = below base ++ [""] := by
  by_cases hlast : base.toList.getLast? = some '/'
  · obtain ⟨front, rfl⟩ := exists_append_slash hlast
    have hpieces := pieces_append_slash front ""
    rw [String.append_empty] at hpieces
    rw [below_append_slash, hpieces]
    exact .inr rfl
  · rw [below, if_neg h, if_neg hlast]
    exact .inl rfl

/-- The pieces of a path that is put below another. -/
theorem pieces_join (h : isAbsolute path = false) :
    pieces (join base path) = below base ++ pieces path := by
  rw [join, h, if_neg (by decide)]
  by_cases hempty : base = ""
  · rw [if_pos hempty, below, if_pos hempty, List.nil_append]
  · rw [if_neg hempty]
    by_cases hlast : base.toList.getLast? = some '/'
    · obtain ⟨front, rfl⟩ := exists_append_slash hlast
      rw [if_pos hlast, pieces_append_slash, below_append_slash]
    · rw [if_neg hlast, pieces_append_slash, below, if_neg hempty, if_neg hlast]

theorem isAbsolute_append {a b : String} (h : a ≠ "") : isAbsolute (a ++ b) = isAbsolute a := by
  obtain ⟨c, cs, hcs⟩ := List.exists_cons_of_ne_nil (String.toList_eq_nil_iff.not.mpr h)
  rw [isAbsolute, isAbsolute, String.toList_append, hcs]
  rfl

theorem isAbsolute_join (h : isAbsolute path = false) :
    isAbsolute (join base path) = isAbsolute base := by
  rw [join, h, if_neg (by decide)]
  by_cases hempty : base = ""
  · rw [if_pos hempty, hempty, h]
    decide
  · rw [if_neg hempty]
    split
    · exact isAbsolute_append hempty
    · rw [String.append_assoc]
      exact isAbsolute_append hempty

theorem pieces_join_name {name : String} (h : isName name) :
    pieces (join base name) = below base ++ [name] := by
  rw [pieces_join (isAbsolute_of_isName h), pieces_of_isName h]

theorem join_ne_empty {name : String} (h : isName name) : join base name ≠ "" := by
  intro hjoin
  have hpieces : pieces (join base name) = below base ++ [name] := pieces_join_name h
  rw [hjoin, pieces] at hpieces
  have hlast := congrArg List.getLast? hpieces
  rw [List.getLast?_concat] at hlast
  exact (isName_iff.mp h).1 (Option.some.inj hlast).symm

theorem below_subset (base : String) : below base ⊆ pieces base := by
  rw [below]
  split
  · exact List.nil_subset _
  · split
    · exact (List.dropLast_sublist _).subset
    · exact List.Subset.refl _

/-- What stands before a path below a name in a directory. -/
theorem below_join {name : String} (h : isName name) : below (join base name) = below base ++ [name] := by
  obtain ⟨hempty, -, -, hslash⟩ := isName_iff.mp h
  have hlast : (join base name).toList.getLast? = name.toList.getLast? := by
    obtain ⟨cs, c, hname⟩ :=
      (List.eq_nil_or_concat' name.toList).resolve_left (String.toList_eq_nil_iff.not.mpr hempty)
    rw [join, isAbsolute_of_isName h, if_neg (by decide)]
    split
    · rfl
    · split <;> simp [hname, List.getLast?_cons]
  have hend : ¬ (join base name).toList.getLast? = some '/' := by
    rw [hlast]
    exact fun hslash' => hslash (List.mem_of_getLast? hslash')
  rw [below, if_neg (join_ne_empty h), if_neg hend, pieces_join_name h]

end Join

end Wireframe.Files
