/-
Paths of generated files.

The paths of routes and files are made of lower-case letters and digits of ASCII, underscores, points
and slashes, so that they mean the same in literals and on every system of files.

* `isPathText` — texts of such characters;
* `quote_of_isPathText` — they stand in literals as they are;
* `pieces_unitPath` — the names along the path of a screen;
* `IsPlainPath`, `isPlainPath_of_mem_files` — paths that lead into the directory they are taken from;
* `nodup_lowered_paths` — the paths of different files differ, whatever the case of letters.
-/
import Mathlib.Data.List.Nodup
import Wireframe.Files.Path
import Wireframe.Proofs.App.Generation

namespace Wireframe.App

open Dart Design

/-! ### Characters -/

/-- A character of a path. -/
def isPathChar (c : Char) : Bool := isIdChar c || c == '_' || c == '.' || c == '/'

/-- A text of characters of paths. -/
def isPathText (s : String) : Bool := s.toList.all isPathChar

theorem isPathText_iff {s : String} : isPathText s ↔ ∀ c ∈ s.toList, isPathChar c :=
  List.all_eq_true

theorem isPathText_append {a b : String} (ha : isPathText a) (hb : isPathText b) :
    isPathText (a ++ b) := by
  rw [isPathText_iff] at *
  rw [String.toList_append]
  exact List.forall_mem_append.mpr ⟨ha, hb⟩

theorem isPathText_routeId (name : String) : isPathText (routeId name) := by
  rw [isPathText_iff]
  intro c hc
  rcases isIdChar_or_eq_of_mem_routeId hc with h | rfl
  · simp [isPathChar, h]
  · decide

theorem isPathText_routePath (name : String) : isPathText (routePath name) :=
  isPathText_append (by decide) (isPathText_routeId name)

theorem isPathText_fileName (name : String) : isPathText (fileName name) :=
  isPathText_append (isPathText_routeId name) (by decide)

theorem toLower_of_isPathChar {c : Char} (h : isPathChar c) : c.toLower = c := by
  simp only [isPathChar, Bool.or_eq_true, beq_iff_eq] at h
  rcases h with ((h | rfl) | rfl) | rfl
  · exact toLower_of_isIdChar h
  · decide
  · decide
  · decide

/-- Characters of paths stand for themselves in literals. -/
theorem escape_of_isPathChar {c : Char} (h : isPathChar c) : escape c = [c] := by
  have hcontrol : Text.isControl c = false := by
    simp only [isPathChar, isIdChar, Bool.or_eq_true, beq_iff_eq, Text.isLower_iff,
      Text.isDigit_iff] at h
    rcases h with ((h | rfl) | rfl) | rfl
    · simp only [Text.isControl, Bool.or_eq_false_iff, Bool.and_eq_false_iff,
        decide_eq_false_iff_not]
      omega
    · decide
    · decide
    · decide
  have hspecial : c ∉ ['\\', '\'', '$', '\n', '\r', '\t'] := by
    intro hmem
    have hnot : ['\\', '\'', '$', '\n', '\r', '\t'].all (!isPathChar ·) := by decide
    have hc := List.all_eq_true.mp hnot c hmem
    rw [h] at hc
    cases hc
  simp only [List.mem_cons, List.not_mem_nil, or_false, not_or] at hspecial
  obtain ⟨h1, h2, h3, h4, h5, h6⟩ := hspecial
  simp [escape, h1, h2, h3, h4, h5, h6, hcontrol]

theorem quote_of_isPathText {s : String} (h : isPathText s) :
    quote s = '\'' :: (s.toList ++ ['\'']) := by
  have hflat (cs : List Char) (hcs : ∀ c ∈ cs, isPathChar c) : cs.flatMap escape = cs := by
    induction cs with
    | nil => rfl
    | cons c cs ih =>
      obtain ⟨hc, hcs⟩ := List.forall_mem_cons.mp hcs
      rw [List.flatMap_cons, escape_of_isPathChar hc, ih hcs]
      rfl
  rw [quote, hflat s.toList (isPathText_iff.mp h), List.cons_append]

theorem quote_not_mem_of_isPathText {s : String} (h : isPathText s) : '\'' ∉ s.toList := by
  intro hmem
  exact absurd (isPathText_iff.mp h _ hmem) (by decide)

/-! ### Routes -/

theorem routePath_injective {a b : String} (h : routePath a = routePath b) :
    routeId a = routeId b := by
  rw [← String.toList_inj] at h ⊢
  simpa [routePath] using h

theorem fileName_injective {a b : String} (h : fileName a = fileName b) :
    routeId a = routeId b := by
  rw [← String.toList_inj] at h ⊢
  simpa [fileName] using h

/-! ### Screens -/

/-- The path of the file of a screen. -/
def unitPath (name : String) : String := sourceRoot ++ "/screens/" ++ fileName name

theorem slash_not_mem_fileName (name : String) : '/' ∉ (fileName name).toList := by
  rw [fileName, String.toList_append, List.mem_append, not_or]
  constructor
  · intro hmem
    rcases isIdChar_or_eq_of_mem_routeId hmem with h | h <;> revert h <;> decide
  · decide

/-- The names along the path of a screen. -/
theorem pieces_unitPath (name : String) :
    Files.pieces (unitPath name) = ["lib", "screens", fileName name] := by
  have hpath : (unitPath name).toList =
      "lib".toList ++ '/' :: ("screens".toList ++ '/' :: (fileName name).toList) := by
    simp [unitPath, sourceRoot]
  rw [Files.pieces, hpath, Text.fields_append_cons, Text.fields_append_cons,
    Text.fields_of_not_mem (slash_not_mem_fileName name), Text.fields_of_not_mem (by decide),
    Text.fields_of_not_mem (by decide)]
  simp

theorem unitPath_injective {a b : String} (h : unitPath a = unitPath b) :
    routeId a = routeId b := by
  have hpieces := congrArg Files.pieces h
  rw [pieces_unitPath, pieces_unitPath] at hpieces
  simp only [List.cons.injEq, true_and, and_true] at hpieces
  exact fileName_injective hpieces

/-! ### Files -/

/-- A path of names in small letters that leads into the directory that it is taken from. -/
structure IsPlainPath (path : String) : Prop where
  characters : isPathText path
  relative : Files.isAbsolute path = false
  names : ∀ piece ∈ Files.pieces path, piece ∉ ["", ".", ".."]

theorem isPlainPath_entry : IsPlainPath Entry.path where
  characters := by decide
  relative := by decide +kernel
  names := by decide +kernel

theorem isPlainPath_unitPath (name : String) : IsPlainPath (unitPath name) where
  characters := by
    have hroot : isPathText (sourceRoot ++ "/screens/") := by decide
    exact isPathText_append hroot (isPathText_fileName name)
  relative := by
    have hhead : (unitPath name).toList.head? = some 'l' := by simp [unitPath, sourceRoot]
    rw [Files.isAbsolute, hhead]
    decide
  names := by
    -- the name of the file ends in a long suffix, whatever the screen is called
    have hfile : fileName name ∉ ["", ".", ".."] := by
      intro hmem
      have hlength : 12 ≤ (fileName name).toList.length := by simp [fileName]
      have hshort : ∀ piece ∈ ["", ".", ".."], piece.toList.length < 12 := by decide
      exact absurd (hshort _ hmem) (by omega)
    rw [pieces_unitPath, List.forall_mem_cons, List.forall_mem_cons, List.forall_mem_singleton]
    exact ⟨by decide, by decide, hfile⟩

theorem isPlainRelative_of_isPlainPath {path : String} (h : IsPlainPath path) :
    Files.isPlainRelative path = true := by
  have hname : ∀ piece ∈ Files.pieces path, Files.componentOf? piece = some (.name piece) := by
    intro piece hpiece
    have hnot := h.names piece hpiece
    simp only [List.mem_cons, List.not_mem_nil, or_false, not_or] at hnot
    obtain ⟨hempty, hpoint, hup⟩ := hnot
    simp [Files.componentOf?, hempty, hpoint, hup]
  have hnot := h.names
  -- a first piece is looked at for itself, as it may be a point
  rw [Files.isPlainRelative, Files.components]
  cases hpieces : Files.pieces path with
  | nil => rfl
  | cons first rest =>
    rw [hpieces] at hname hnot
    obtain ⟨hfirst, hrest⟩ := List.forall_mem_cons.mp hname
    have hpoint : first ≠ "." := by
      rintro rfl
      exact hnot "." List.mem_cons_self (by decide)
    simp only [h.relative, hpoint, if_false, hfirst, Bool.false_eq_true, List.all_append,
      Option.toList_some, List.all_cons, List.all_nil, Files.Component.isName, Bool.and_true,
      Bool.true_and]
    rw [List.all_eq_true]
    intro component hcomponent
    obtain ⟨piece, hpiece, hsome⟩ := List.mem_filterMap.mp hcomponent
    rw [hrest piece hpiece, Option.some.injEq] at hsome
    rw [← hsome]
    rfl

section Files

variable {project : Project}

theorem paths_files (project : Project) : (sourcesOf project).files.map (·.path) =
    Entry.path :: project.screens.map (unitPath ·.name) := by
  simp only [Sources.files, sourcesOf, List.map_cons, List.map_map]
  rfl

theorem isPlainPath_of_mem_files {file : SourceFile} (h : file ∈ (sourcesOf project).files) :
    IsPlainPath file.path := by
  have hpath : file.path ∈ (sourcesOf project).files.map (·.path) := List.mem_map.mpr ⟨file, h, rfl⟩
  rw [paths_files] at hpath
  rcases List.mem_cons.mp hpath with hpath | hpath
  · rw [hpath]
    exact isPlainPath_entry
  · obtain ⟨screen, -, hpath⟩ := List.mem_map.mp hpath
    rw [← hpath]
    exact isPlainPath_unitPath screen.name

theorem nodup_paths (h : HasDistinctScreens project) :
    ((sourcesOf project).files.map (·.path)).Nodup := by
  rw [paths_files, List.nodup_cons]
  constructor
  · intro hmem
    obtain ⟨screen, -, hpath⟩ := List.mem_map.mp hmem
    -- the first file lies one directory above the files of the screens
    have hpieces : Files.pieces Entry.path = ["lib", "main.dart"] := by decide +kernel
    rw [← hpath, pieces_unitPath] at hpieces
    simp at hpieces
  · exact h.nodup_map unitPath fun _ _ hab => className_eq_of_routeId_eq (unitPath_injective hab)

/-- The paths of different files differ even where the case of letters does not count. -/
theorem nodup_lowered_paths (h : HasDistinctScreens project) :
    ((sourcesOf project).files.map (·.path.toList.map Char.toLower)).Nodup := by
  have hsame : (sourcesOf project).files.map (·.path.toList.map Char.toLower) =
      ((sourcesOf project).files.map (·.path)).map String.toList := by
    rw [List.map_map]
    refine List.map_congr_left ?_
    intro file hfile
    have hcharacters := isPathText_iff.mp (isPlainPath_of_mem_files hfile).characters
    exact (List.map_congr_left fun c hc => toLower_of_isPathChar (hcharacters c hc)).trans
      (List.map_id _)
  rw [hsame]
  exact (nodup_paths h).map fun a b hab => String.toList_inj.mp hab

end Files

end Wireframe.App
