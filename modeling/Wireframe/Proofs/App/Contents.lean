/-
What generated files say.

A reader that goes through a file line by line finds the classes that a file declares, the files that
it imports, the entries of its map of routes and the route that is shown first.  It knows nothing of
how the file came about.

* `linesOf`, `between?` — the lines of a file, and what a line holds between two marks;
* `declaredIn`, `importsIn`, `routesIn`, `initialIn` — what the reader finds;
* `linesOf_fileText` — the lines of a file that is written as an outline;
* `declaredIn_unit` — the classes that the file of a screen declares.
-/
import Wireframe.Proofs.App.Paths
import Wireframe.Proofs.App.RawFile
import Wireframe.Proofs.Dart.Lines

namespace Wireframe.App

open Dart Design

/-! ### Readers -/

/-- The lines of a file. -/
def linesOf (contents : String) : List (List Char) := Text.fields '\n' contents.toList

/-- What a line holds between a front and a back. -/
def between? (front back : String) (line : List Char) : Option String :=
  ((front.toList.isPrefixOf? line).bind (back.toList.isSuffixOf? ·)).map String.ofList

/-- The class that a line at the margin declares. -/
def declaredOf? (line : List Char) : Option String :=
  ("class ".toList.isPrefixOf? line).map fun rest => String.ofList (rest.takeWhile (· ≠ ' '))

/-- The classes that a file declares. -/
def declaredIn (contents : String) : List String := (linesOf contents).filterMap declaredOf?

/-- The files that a file imports. -/
def importsIn (contents : String) : List String :=
  (linesOf contents).filterMap (between? "import '" "';")

/-- The line that opens the map of routes. -/
def routesHead : String := "final Map<String, WidgetBuilder> appRoutes = <String, WidgetBuilder>\x7b"

/-- The line that closes the map of routes. -/
def routesEnd : String := "\x7d;"

/-- The path and the class of an entry of the map of routes. -/
def routeOf? (line : List Char) : Option (String × String) := do
  let entry ← "  '".toList.isPrefixOf? line
  let name ← between? "': (context) => const " "()," (entry.dropWhile (· ≠ '\''))
  return (String.ofList (entry.takeWhile (· ≠ '\'')), name)

/-- The map of routes, if it holds nothing but entries. -/
def routesIn (contents : String) : Option (List (String × String)) :=
  ((((linesOf contents).dropWhile (· ≠ routesHead.toList)).drop 1).takeWhile
    (· ≠ routesEnd.toList)).mapM routeOf?

/-- The route that a line shows first. -/
def initialOf? (line : List Char) : Option String :=
  between? "initialRoute: '" "'," (line.dropWhile (· == ' '))

/-- The route that is shown first. -/
def initialIn (contents : String) : List String := (linesOf contents).filterMap initialOf?

/-! ### Lines -/

theorem between?_append (front back : String) (cs : List Char) :
    between? front back (front.toList ++ cs ++ back.toList) = some (String.ofList cs) := by
  have hfront : front.toList.isPrefixOf? (front.toList ++ cs ++ back.toList) =
      some (cs ++ back.toList) := by
    rw [List.isPrefixOf?_eq_some_iff_append_eq, List.append_assoc]
  have hback : back.toList.isSuffixOf? (cs ++ back.toList) = some cs := by
    rw [List.isSuffixOf?_eq_some_iff_append_eq]
  rw [between?, hfront, Option.bind_some, hback, Option.map_some]

theorem linesOf_fileText {outline : List Outline} (h : Outline.areWhole outline) :
    linesOf (fileText outline) = Outline.linesAll 0 outline ++ [[]] := by
  have hfields := Outline.fields_writeAll outline h 0 []
  rw [List.append_nil] at hfields
  rw [linesOf, fileText, String.toList_ofList, hfields]
  rfl

/-- What stands between the first line that is looked for and the next one that is. -/
theorem between_lines {isFront : List Char → Bool} {before block after : List (List Char)}
    {head last : List Char} (hbefore : ∀ line ∈ before, isFront line) (hhead : isFront head = false)
    (hblock : ∀ line ∈ block, line ≠ last) :
    (((before ++ head :: (block ++ last :: after)).dropWhile isFront).drop 1).takeWhile
      (· ≠ last) = block := by
  rw [List.dropWhile_append_of_pos hbefore, List.dropWhile_cons_of_neg (by simp [hhead]),
    List.drop_one, List.tail_cons,
    List.takeWhile_append_of_pos fun line hline => decide_eq_true (hblock line hline),
    List.takeWhile_cons_of_neg (by simp), List.append_nil]

/-- Lines off the margin say nothing to a reader that looks at the margin only. -/
theorem filterMap_offMargin {β : Type} {read : List Char → Option β} {lines : List (List Char)}
    (hnil : read [] = none) (hblank : ∀ rest, read (' ' :: rest) = none)
    (h : ∀ line ∈ lines, line = [] ∨ Outline.margin 1 <+: line) : lines.filterMap read = [] := by
  rw [List.filterMap_eq_nil_iff]
  intro line hline
  rcases h line hline with rfl | ⟨rest, rfl⟩
  · exact hnil
  · exact hblank rest

/-! ### Screens -/

theorem declaredOf?_offMargin {lines : List (List Char)}
    (h : ∀ line ∈ lines, line = [] ∨ Outline.margin 1 <+: line) :
    lines.filterMap declaredOf? = [] :=
  filterMap_offMargin rfl (fun _ => rfl) h

theorem declaredOf?_head {name : String} (h : ' ' ∉ name.toList) (rest : List Char) :
    declaredOf? ("class ".toList ++ (name.toList ++ ' ' :: rest)) = some name := by
  have hprefix : "class ".toList.isPrefixOf? ("class ".toList ++ (name.toList ++ ' ' :: rest)) =
      some (name.toList ++ ' ' :: rest) := List.isPrefixOf?_eq_some_iff_append_eq.mpr rfl
  have hname : (name.toList ++ ' ' :: rest).takeWhile (· ≠ ' ') = name.toList := by
    rw [List.takeWhile_append_of_pos]
    · simp
    · intro c hc
      refine decide_eq_true ?_
      rintro rfl
      exact h hc
  rw [declaredOf?, hprefix, Option.map_some, hname, String.ofList_toList]

/-- The line that opens a class. -/
def classLine (c : ClassDecl) : List Char :=
  "class ".toList ++
    (c.name.toList ++ ' ' :: ("extends ".toList ++ c.parent.toList ++ [' ', '\x7b']))

/-- The body of a class is indented, and its last line is a brace. -/
theorem lines_class (c : ClassDecl) :
    c.outline.lines 0 = classLine c :: (Outline.linesAll 2 c.body ++ [['\x7d']]) := by
  have hhead : Outline.margin 0 ++ Outline.writeHeads
      [("class " ++ c.name ++ " extends " ++ c.parent ++ " ", .curly)] = classLine c := by
    simp [Outline.margin, Outline.writeHeads, Bracket.opening, classLine]
  rw [ClassDecl.outline, braces, Outline.lines, hhead, List.cons_append]
  rfl

theorem areWhole_body {c : ClassDecl} (h : c.outline.isWhole) : Outline.areWhole c.body := by
  simp only [ClassDecl.outline, braces, Outline.isWhole, Bool.and_eq_true] at h
  exact h.1.2

/-- A class declares itself and nothing else. -/
theorem filterMap_declaredOf?_class {c : ClassDecl} (hwhole : c.outline.isWhole)
    (hname : ' ' ∉ c.name.toList) : (c.outline.lines 0).filterMap declaredOf? = [c.name] := by
  have hbody :=
    Outline.margin_of_mem_linesAll (n := 1) c.body (areWhole_body hwhole) 2 (by decide)
  rw [lines_class, List.filterMap_cons, classLine, declaredOf?_head hname]
  simp only [List.filterMap_append, declaredOf?_offMargin hbody]
  rfl

section

variable {classes : List ClassDecl}

/-- Classes below each other declare what they are. -/
theorem filterMap_declaredOf?_classes
    (h : ∀ c ∈ classes, c.outline.isClosed ∧ ' ' ∉ c.name.toList) :
    (Outline.linesAll 0 (classes.flatMap fun c => [.blank, c.outline])).filterMap declaredOf? =
      classes.map (·.name) := by
  induction classes with
  | nil => rfl
  | cons c rest ih =>
    obtain ⟨⟨hclosed, hname⟩, hrest⟩ := List.forall_mem_cons.mp h
    have hwhole := c.outline.isWhole_of_isClosed hclosed
    have hclass : (Outline.linesAll 0 [.blank, c.outline]).filterMap declaredOf? = [c.name] := by
      rw [Outline.linesAll, Outline.linesAll, Outline.linesAll, List.append_nil,
        List.filterMap_append, filterMap_declaredOf?_class hwhole hname]
      rfl
    rw [List.flatMap_cons, Outline.linesAll_append, List.filterMap_append, hclass, ih hrest]
    rfl

/-- The lines in front of the classes of a screen. -/
def libraryLines : List (List Char) :=
  Outline.linesAll 0 [banner, importLine "package:flutter/material.dart",
    importLine "package:url_launcher/url_launcher.dart"]

theorem filterMap_declaredOf?_libraryLines : libraryLines.filterMap declaredOf? = [] := rfl

theorem linesOf_screenFile (h : ∀ c ∈ classes, c.outline.isClosed) :
    linesOf (fileText (screenFile classes)) = libraryLines ++
      Outline.linesAll 0 (classes.flatMap fun c => [.blank, c.outline]) ++ [[]] := by
  have hwhole := Outline.areWhole_of_areClosed _ (areClosed_screenFile h)
  rw [linesOf_fileText hwhole, screenFile, Outline.linesAll_append]
  rfl

theorem declaredIn_screenFile (h : ∀ c ∈ classes, c.outline.isClosed ∧ ' ' ∉ c.name.toList) :
    declaredIn (fileText (screenFile classes)) = classes.map (·.name) := by
  have hend : [[]].filterMap declaredOf? = [] := rfl
  rw [declaredIn, linesOf_screenFile fun c hc => (h c hc).1, List.filterMap_append,
    List.filterMap_append, filterMap_declaredOf?_classes h, filterMap_declaredOf?_libraryLines, hend,
    List.nil_append, List.append_nil]

end

theorem declaredIn_unit (profile : Profile) (routes : Routes) (screen : Screen) :
    declaredIn (screenUnit profile routes screen).file.contents =
      (screenUnit profile routes screen).classes.map (·.name) :=
  declaredIn_screenFile fun _ hc =>
    ⟨isClosed_of_mem_unit_classes hc, blank_not_mem_unit_className hc⟩

end Wireframe.App
