/-
Names of archives.

The name under which an archive is offered is safe: it is that of a file in one directory, and the file
is not hidden.  It is what is left of the name of the project when points and blanks at its ends are
taken away and characters that are not fit for a file are replaced one by one.  So a name that is fit
stays as it is.

* `IsFit` — names that are fit for a file, and `IsFit.isPlain` — what they do not hold;
* `isFit_of_cleanName`, `IsFit.archiveName_eq` — names that are made fit, and names that are fit;
* `IsStem` — what is left of a name;
* `archiveName_stable` — an archive is named by what is left, and that is left of itself.
-/
import Wireframe.Export.ArchiveName
import Wireframe.Proofs.Text.Trimming

namespace Wireframe.Export

open Text

/-! ### Names that are fit -/

/-- A name that is fit for a file. -/
structure IsFit (stem : String) : Prop where
  ne_empty : stem ≠ ""
  chars : ∀ c ∈ stem.toList, isAlphanumeric c ∨ c ∈ ['-', '_', '.', ' ']
  ends : ∀ c, c ∈ stem.toList.head? ∨ c ∈ stem.toList.getLast? → c ≠ '.' ∧ isBlank c = false

/-- A character that does not stand between directories and can be shown. -/
def IsPlain (c : Char) : Prop := c ≠ '/' ∧ c ≠ '\\' ∧ isControl c = false

/-- What replaces a character in the name of a file. -/
def fitChar (c : Char) : Char := if isFileChar c then c else '_'

variable {name stem : String} {c : Char}

theorem isFileChar_iff : isFileChar c ↔ isAlphanumeric c ∨ c ∈ ['-', '_', '.', ' '] := by
  simp [isFileChar, or_assoc]

theorem isEdge_eq_false_iff : isEdge c = false ↔ c ≠ '.' ∧ isBlank c = false := by
  simp [isEdge]

theorem isFileChar_fitChar (c : Char) : isFileChar (fitChar c) := by
  unfold fitChar
  split
  · assumption
  · exact isFileChar_iff.mpr (.inr (by decide))

/-- No other character becomes a point or a blank. -/
theorem isEdge_of_fitChar (h : isEdge (fitChar c)) : isEdge c := by
  unfold fitChar at h
  split at h
  · exact h
  · cases h

/-- The numbers of letters and digits are none of those of slashes and of control characters. -/
theorem isPlain_of_isAlphanumeric (h : isAlphanumeric c) : IsPlain c := by
  have hranges : ∀ range ∈ alphanumericRanges, 47 < range.1 ∧
      (range.2 < 92 ∨ 92 < range.1 ∧ range.2 < 127 ∨ 159 < range.1) := by decide +kernel
  obtain ⟨range, hrange, hin⟩ := List.any_eq_true.mp h
  obtain ⟨hlow, hhigh⟩ := Bool.and_eq_true_iff.mp hin
  have hlow : range.1 ≤ c.toNat := of_decide_eq_true hlow
  have hhigh : c.toNat ≤ range.2 := of_decide_eq_true hhigh
  have hapart := hranges range hrange
  refine ⟨?_, ?_, ?_⟩
  · rintro rfl
    have hslash : '/'.toNat = 47 := rfl
    omega
  · rintro rfl
    have hslash : '\\'.toNat = 92 := rfl
    omega
  · simp only [isControl, Bool.or_eq_false_iff, Bool.and_eq_false_iff, decide_eq_false_iff_not]
    omega

/-- A fit name is no path, and it can be shown. -/
theorem IsFit.isPlain (h : IsFit stem) : ∀ c ∈ stem.toList, IsPlain c := by
  intro c hc
  rcases h.chars c hc with hc | hc
  · exact isPlain_of_isAlphanumeric hc
  · simp only [List.mem_cons, List.not_mem_nil, or_false] at hc
    rcases hc with rfl | rfl | rfl | rfl <;> exact ⟨by decide, by decide, rfl⟩

theorem map_fitChar_eq_self (h : IsFit stem) : stem.toList.map fitChar = stem.toList := by
  refine (List.map_congr_left fun c hc => ?_).trans (List.map_id _)
  exact if_pos (isFileChar_iff.mpr (h.chars c hc))

/-- A fit name is kept. -/
theorem IsFit.archiveName_eq (h : IsFit stem) : archiveName stem = stem ++ ".zip" := by
  have hclean : cleanName stem.toList = stem.toList := by
    have hblank : trimWhile isBlank stem.toList = stem.toList :=
      trimWhile_eq_self fun c hc => (h.ends c hc).2
    have hedge : trimWhile isEdge stem.toList = stem.toList :=
      trimWhile_eq_self fun c hc => isEdge_eq_false_iff.mpr (h.ends c hc)
    calc cleanName stem.toList
        = trimWhile isEdge ((trimWhile isBlank stem.toList).map fitChar) := rfl
      _ = stem.toList := by rw [hblank, map_fitChar_eq_self h, hedge]
  have hstem : archiveStem stem = stem.toList := by
    rw [archiveStem, hclean]
    split
    · rename_i hnil
      exact absurd (String.toList_eq_nil_iff.mp hnil) h.ne_empty
    · rfl
  rw [archiveName, hstem, String.ofList_toList]

/-! ### Names that are made fit -/

theorem isFit_project : IsFit "project" where
  ne_empty := by decide
  chars := by
    have hall : "project".toList.all isFileChar = true := by decide +kernel
    exact fun c hc => isFileChar_iff.mp (List.all_eq_true.mp hall c hc)
  ends := by
    rintro c (hc | hc)
    · obtain rfl : 'p' = c := Option.some.inj hc
      decide
    · obtain rfl : 't' = c := Option.some.inj hc
      decide

/-- What is left of a name is fit for a file, if anything is. -/
theorem isFit_of_cleanName (h : cleanName name.toList ≠ []) :
    IsFit (String.ofList (cleanName name.toList)) where
  ne_empty := fun hempty => h (String.ofList_eq_empty_iff.mp hempty)
  chars := by
    intro c hc
    rw [String.toList_ofList] at hc
    obtain ⟨before, after, hall, -⟩ :=
      exists_trimWhile isEdge ((trimWhile isBlank name.toList).map fitChar)
    have hmem : c ∈ (trimWhile isBlank name.toList).map fitChar := by
      rw [hall]
      exact List.mem_append_left _ (List.mem_append_right _ hc)
    obtain ⟨d, -, rfl⟩ := List.mem_map.mp hmem
    exact isFileChar_iff.mp (isFileChar_fitChar d)
  ends := by
    intro c hc
    rw [String.toList_ofList] at hc
    exact isEdge_eq_false_iff.mp (eq_false_of_mem_ends hc)

/-- What is left of a name is a part of it, but for characters that are replaced.  What is not left are
points and blanks at the ends. -/
theorem exists_cleanName (cs : List Char) : ∃ before kept after,
    cs = before ++ kept ++ after ∧ (∀ c ∈ before ++ after, isEdge c) ∧
      cleanName cs = kept.map fitChar := by
  obtain ⟨front, back, hcs, hblank⟩ := exists_trimWhile isBlank cs
  obtain ⟨left, right, hmap, hedge⟩ := exists_trimWhile isEdge ((trimWhile isBlank cs).map fitChar)
  obtain ⟨most, right', htrim, hmost, rfl⟩ := List.map_eq_append_iff.mp hmap
  obtain ⟨left', kept, rfl, rfl, hkept⟩ := List.map_eq_append_iff.mp hmost
  refine ⟨front ++ left', kept, right' ++ back, ?_, fun c hc => ?_, hkept.symm⟩
  · rw [htrim] at hcs
    rw [hcs]
    simp only [List.append_assoc]
  · have hends : c ∈ front ++ back ∨ c ∈ left' ++ right' := by
      simp only [List.mem_append] at hc ⊢
      tauto
    rcases hends with hc | hc
    · simp [isEdge, hblank c hc]
    · refine isEdge_of_fitChar (hedge _ ?_)
      rw [← List.map_append]
      exact List.mem_map_of_mem hc

/-- What is left of the name of a project: points and blanks at its ends are gone, and characters that
are not fit for a file are replaced one by one.  Where nothing is left there is a name all the same. -/
structure IsStem (name stem : String) : Prop where
  fit : IsFit stem
  rest : ∃ before kept after, name.toList = before ++ kept ++ after ∧
    (∀ c ∈ before ++ after, c = '.' ∨ isBlank c) ∧
    stem.toList = if kept = [] then "project".toList else kept.map fitChar

theorem isStem_archiveStem (name : String) : IsStem name (String.ofList (archiveStem name)) := by
  obtain ⟨before, kept, after, hname, hedge, hclean⟩ := exists_cleanName name.toList
  have hends : ∀ c ∈ before ++ after, c = '.' ∨ isBlank c := by
    intro c hc
    simpa [isEdge] using hedge c hc
  have hstem : archiveStem name = if kept = [] then "project".toList else kept.map fitChar := by
    rw [archiveStem, hclean]
    cases kept <;> rfl
  refine ⟨?_, before, kept, after, hname, hends, ?_⟩
  · by_cases hkept : kept = []
    · rw [hstem, if_pos hkept, String.ofList_toList]
      exact isFit_project
    · have hne : cleanName name.toList ≠ [] := by
        rw [hclean]
        exact fun hnil => hkept (List.map_eq_nil_iff.mp hnil)
      rw [hstem, if_neg hkept, ← hclean]
      exact isFit_of_cleanName hne
  · rw [String.toList_ofList, hstem]

/-- The name of an archive is that of a file, in no other directory and not hidden, and what is left of
it is the same name again. -/
theorem archiveName_stable (name : String) : ∃ stem, archiveName name = stem ++ ".zip" ∧
    IsStem name stem ∧ (∀ c ∈ stem.toList, IsPlain c) ∧ archiveName stem = archiveName name := by
  have hstem := isStem_archiveStem name
  refine ⟨String.ofList (archiveStem name), rfl, hstem, hstem.fit.isPlain, ?_⟩
  rw [hstem.fit.archiveName_eq]
  rfl

end Wireframe.Export
