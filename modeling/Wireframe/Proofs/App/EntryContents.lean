/-
What the file says that an app starts with.

The file consists of a front with the imports, the map of routes, and the class of the app.  Each
line of these is known, so what a reader finds in the file is found line by line.

* `linesOf_entry`, `filterMap_entry` — the lines of the file, and a reader that goes through them;
* `importsIn_entry`, `routesIn_entry`, `initialIn_entry` — the imports, the map of routes and the
  route that is shown first.
-/
import Wireframe.Proofs.App.Contents

namespace Wireframe.App

open Dart Design

/-! ### Lines -/

/-- The line that imports a file. -/
def importText (path : String) : List Char := "import ".toList ++ (quote path ++ ";".toList)

/-- The line of a route. -/
def routeText (route : String × String) : List Char :=
  "  ".toList ++ (quote route.1 ++ (": (context) => const " ++ route.2 ++ "(),").toList)

theorem lines_importLine (path : String) : (importLine path).lines 0 = [importText path] := by
  unfold importText
  simp only [importLine, Outline.lines, Outline.margin, List.replicate, writePieces,
    List.flatMap_cons, List.flatMap_nil, Piece.write, List.nil_append, List.append_nil]

theorem lines_routeLine (route : String × String) :
    (Entry.routeLine route).lines 2 = [routeText route] := by
  have hmargin : Outline.margin 2 = "  ".toList := by decide
  unfold routeText
  simp only [Entry.routeLine, Outline.lines, writePieces, List.flatMap_cons, List.flatMap_nil,
    Piece.write, List.append_nil, hmargin]

theorem linesAll_map {α : Type} {f : α → Outline} {g : α → List Char} {n : Nat}
    (h : ∀ a, (f a).lines n = [g a]) (l : List α) : Outline.linesAll n (l.map f) = l.map g := by
  rw [Outline.linesAll_eq_flatMap, List.flatMap_map, List.map_eq_flatMap]
  simp only [h]

variable {entry : Entry}

/-- The parts of the file, with an empty line between them. -/
theorem linesAll_entry (entry : Entry) : Outline.linesAll 0 entry.outline =
    Outline.linesAll 0 (banner :: entry.importLines) ++ [] ::
      (Outline.linesAll 0 ["void main() => runApp(const GeneratedApp());"] ++ [] ::
        (Outline.linesAll 0 entry.routeLines ++ [] :: entry.appClass.outline.lines 0)) := by
  rw [Entry.outline]
  simp only [Text.joinWith, Outline.linesAll_append, List.append_assoc]
  simp only [Outline.linesAll, Outline.lines, List.append_nil, List.nil_append, List.cons_append]

theorem linesAll_importLines (entry : Entry) : Outline.linesAll 0 (banner :: entry.importLines) =
    banner.lines 0 ++ importText "package:flutter/material.dart" :: [] ::
      entry.imports.map fun file => importText ("screens/" ++ file) := by
  rw [Outline.linesAll, Entry.importLines, Outline.linesAll_append,
    linesAll_map fun file => lines_importLine ("screens/" ++ file)]
  simp only [Outline.linesAll, lines_importLine, Outline.lines]
  rfl

theorem linesAll_routeLines (entry : Entry) : Outline.linesAll 0 entry.routeLines =
    (Outline.code "/// One route per screen.").lines 0 ++ routesHead.toList ::
      (entry.routes.map routeText ++ [routesEnd.toList]) := by
  have hhead : Outline.margin 0 ++ Outline.writeHeads
      [("final Map<String, WidgetBuilder> appRoutes = <String, WidgetBuilder>", .curly)] =
      routesHead.toList := by decide
  have hend : Outline.margin 0 ++ Outline.writeClosing
      [("final Map<String, WidgetBuilder> appRoutes = <String, WidgetBuilder>", .curly)] ++
      ";".toList = routesEnd.toList := by decide
  rw [Entry.routeLines, braces, Outline.linesAll, Outline.linesAll, Outline.lines, hhead, hend,
    linesAll_map lines_routeLine, Outline.linesAll, List.append_nil, List.cons_append]

/-- The lines in front of the map of routes. -/
def frontLines (entry : Entry) : List (List Char) :=
  Outline.linesAll 0 (banner :: entry.importLines) ++ [] ::
    (Outline.linesAll 0 ["void main() => runApp(const GeneratedApp());"] ++ [] ::
      (Outline.code "/// One route per screen.").lines 0)

theorem linesOf_entry (hclosed : entry.NamesClosed) : linesOf entry.file.contents =
    frontLines entry ++ routesHead.toList :: (entry.routes.map routeText ++ routesEnd.toList ::
      ([] :: entry.appClass.outline.lines 0 ++ [[]])) := by
  rw [Entry.file, linesOf_fileText (areWhole_entry hclosed), linesAll_entry, linesAll_routeLines]
  simp only [frontLines, List.append_assoc, List.cons_append, List.nil_append]

/-- The lines that are the same in every app. -/
def fixedLines : List (List Char) :=
  banner.lines 0 ++ Outline.linesAll 0 ["void main() => runApp(const GeneratedApp());"] ++
    (Outline.code "/// One route per screen.").lines 0 ++ [routesHead.toList, routesEnd.toList]

/-- A reader that finds nothing in the lines that are always there goes through imports, routes and
the class of the app. -/
theorem filterMap_entry {β : Type} {read : List Char → Option β} (hclosed : entry.NamesClosed)
    (hnil : read [] = none) (hfixed : fixedLines.filterMap read = []) :
    (linesOf entry.file.contents).filterMap read =
      (importText "package:flutter/material.dart" ::
        entry.imports.map fun file => importText ("screens/" ++ file)).filterMap read ++
      ((entry.routes.map routeText).filterMap read ++
        (entry.appClass.outline.lines 0).filterMap read) := by
  rw [fixedLines] at hfixed
  simp only [List.filterMap_append, List.append_eq_nil_iff] at hfixed
  obtain ⟨⟨⟨hbanner, hmain⟩, hdoc⟩, hbounds⟩ := hfixed
  have hhead : read routesHead.toList = none := List.filterMap_eq_nil_iff.mp hbounds _ (by simp)
  have hend : read routesEnd.toList = none := List.filterMap_eq_nil_iff.mp hbounds _ (by simp)
  rw [linesOf_entry hclosed, frontLines, linesAll_importLines]
  -- the line is not to be computed, only to be kept
  generalize importText "package:flutter/material.dart" = first
  simp only [List.filterMap_append, List.filterMap_cons, List.filterMap_nil, hnil, hbanner, hmain,
    hdoc, hhead, hend, List.nil_append, List.append_nil]

/-! ### Imports -/

theorem between?_importText {path : String} (h : isPathText path) :
    between? "import '" "';" (importText path) = some path := by
  have hline : importText path = "import '".toList ++ path.toList ++ "';".toList := by
    have hfront : "import '".toList = "import ".toList ++ ['\''] := by decide
    have hback : "';".toList = '\'' :: ";".toList := by decide
    unfold importText
    rw [quote_of_isPathText h, hfront, hback]
    simp only [List.append_assoc, List.cons_append, List.nil_append]
  rw [hline, between?_append, String.ofList_toList]

theorem filterMap_map_of_some {α β γ : Type} {f : α → β} {g : β → Option γ} {k : α → γ} {l : List α}
    (h : ∀ a ∈ l, g (f a) = some (k a)) : (l.map f).filterMap g = l.map k := by
  rw [List.filterMap_map]
  induction l with
  | nil => rfl
  | cons a rest ih =>
    obtain ⟨ha, hrest⟩ := List.forall_mem_cons.mp h
    rw [List.filterMap_cons, Function.comp_apply, ha, ih hrest]
    rfl

theorem filterMap_map_of_none {α β γ : Type} {f : α → β} {g : β → Option γ} (l : List α)
    (h : ∀ a, g (f a) = none) : (l.map f).filterMap g = [] := by
  rw [List.filterMap_map, List.filterMap_eq_nil_iff]
  exact fun a _ => h a

/-- The file that an app starts with imports the files of the screens. -/
theorem importsIn_entry (hclosed : entry.NamesClosed) (h : ∀ file ∈ entry.imports, isPathText file) :
    importsIn entry.file.contents =
      "package:flutter/material.dart" :: entry.imports.map ("screens/" ++ ·) := by
  have hlibrary : between? "import '" "';" (importText "package:flutter/material.dart") =
      some "package:flutter/material.dart" := by decide +kernel
  have hscreens : (entry.imports.map fun file => importText ("screens/" ++ file)).filterMap
      (between? "import '" "';") = entry.imports.map ("screens/" ++ ·) := by
    refine filterMap_map_of_some ?_
    intro file hfile
    exact between?_importText (isPathText_append (by decide) (h file hfile))
  have hroutes : (entry.routes.map routeText).filterMap (between? "import '" "';") = [] :=
    filterMap_map_of_none _ fun _ => rfl
  have hclass : (entry.appClass.outline.lines 0).filterMap (between? "import '" "';") = [] := by
    simp only [Entry.appClass, classOf, ClassDecl.outline, braces, Text.joinWith, overriding,
      parens, Outline.lines]
    rfl
  rw [importsIn, filterMap_entry hclosed rfl rfl, hroutes, hclass, List.filterMap_cons, hlibrary,
    hscreens]
  simp

/-! ### Routes -/

theorem routeOf?_routeText {route : String × String} (h : isPathText route.1) :
    routeOf? (routeText route) = some route := by
  obtain ⟨path, name⟩ := route
  -- What is read up to is the quote behind the path, so the path itself must have none.
  have hquote : ∀ c ∈ path.toList, decide (c ≠ '\'') = true := by
    intro c hc
    refine decide_eq_true ?_
    rintro rfl
    exact quote_not_mem_of_isPathText h hc
  -- A plain path is quoted as it is, and the line falls into the path, what stands between, and the
  -- class.
  have hline : routeText (path, name) = "  '".toList ++
      (path.toList ++ ("': (context) => const ".toList ++ name.toList ++ "(),".toList)) := by
    have hfront : "  '".toList = "  ".toList ++ ['\''] := by decide
    have hmiddle : "': (context) => const ".toList = '\'' :: ": (context) => const ".toList := by
      decide
    unfold routeText
    rw [quote_of_isPathText h, hfront, hmiddle]
    simp only [String.toList_append, List.append_assoc, List.cons_append, List.nil_append]
  have hfront : "  '".toList.isPrefixOf? (routeText (path, name)) =
      some (path.toList ++ ("': (context) => const ".toList ++ name.toList ++ "(),".toList)) := by
    rw [List.isPrefixOf?_eq_some_iff_append_eq, hline]
  -- The path ends at the first quote; what remains is the class between two known texts.
  have hrest : (path.toList ++ ("': (context) => const ".toList ++ name.toList ++
      "(),".toList)).dropWhile (· ≠ '\'') =
      "': (context) => const ".toList ++ name.toList ++ "(),".toList := by
    rw [List.dropWhile_append_of_pos hquote]
    rfl
  have hpath : (path.toList ++ ("': (context) => const ".toList ++ name.toList ++
      "(),".toList)).takeWhile (· ≠ '\'') = path.toList := by
    rw [List.takeWhile_append_of_pos hquote]
    exact List.append_nil _
  rw [routeOf?, hfront]
  simp only [Option.bind_eq_bind, Option.bind_some, hrest, hpath, between?_append,
    String.ofList_toList, Option.pure_def]

theorem mapM_map_of_some {α β : Type} {f : α → β} {g : β → Option α} {l : List α}
    (h : ∀ a ∈ l, g (f a) = some a) : (l.map f).mapM g = some l := by
  induction l with
  | nil => rfl
  | cons a rest ih =>
    obtain ⟨ha, hrest⟩ := List.forall_mem_cons.mp h
    rw [List.map_cons, List.mapM_cons, ha, ih hrest]
    rfl

theorem ne_routesHead_of_mem_frontLines (entry : Entry) :
    ∀ line ∈ frontLines entry, line ≠ routesHead.toList := by
  -- imports begin with another letter than the map of routes
  have himport (path : String) : importText path ≠ routesHead.toList := by
    intro heq
    have hfirst := congrArg List.head? heq
    change some 'i' = some 'f' at hfirst
    cases hfirst
  have hfixed : ∀ line ∈ banner.lines 0 ++ [] ::
      (Outline.linesAll 0 ["void main() => runApp(const GeneratedApp());"] ++ [] ::
        (Outline.code "/// One route per screen.").lines 0), line ≠ routesHead.toList := by
    decide
  rw [frontLines, linesAll_importLines]
  simp only [List.forall_mem_append, List.forall_mem_cons, List.forall_mem_map] at hfixed ⊢
  obtain ⟨hbanner, hempty, hrest⟩ := hfixed
  exact ⟨⟨hbanner, himport _, hempty, fun file _ => himport _⟩, hempty, hrest⟩

theorem routeText_ne_routesEnd (route : String × String) : routeText route ≠ routesEnd.toList := by
  intro heq
  have hfirst := congrArg List.head? heq
  change some ' ' = some '\x7d' at hfirst
  cases hfirst

/-- The map of routes in the file that an app starts with. -/
theorem routesIn_entry (hclosed : entry.NamesClosed)
    (h : ∀ route ∈ entry.routes, isPathText route.1) :
    routesIn entry.file.contents = some entry.routes := by
  have hblock : ∀ line ∈ entry.routes.map routeText, line ≠ routesEnd.toList :=
    List.forall_mem_map.mpr fun route _ => routeText_ne_routesEnd route
  have hfront : ∀ line ∈ frontLines entry, decide (line ≠ routesHead.toList) = true :=
    fun line hline => decide_eq_true (ne_routesHead_of_mem_frontLines entry line hline)
  rw [routesIn, linesOf_entry hclosed, between_lines hfront (by simp) hblock]
  exact mapM_map_of_some fun route hroute => routeOf?_routeText (h route hroute)

/-! ### The first route -/

theorem dropWhile_margin {n : Nat} {cs : List Char} (h : cs.head? ≠ some ' ') :
    (Outline.margin n ++ cs).dropWhile (· == ' ') = cs := by
  have hmargin : ∀ c ∈ Outline.margin n, (c == ' ') = true := by
    intro c hc
    rw [List.eq_of_mem_replicate hc]
    rfl
  rw [List.dropWhile_append_of_pos hmargin]
  cases cs with
  | nil => rfl
  | cons c cs =>
    refine List.dropWhile_cons_of_neg ?_
    rintro hc
    rw [beq_iff_eq.mp hc] at h
    exact h rfl

/-- The class of the app shows one route first. -/
theorem filterMap_initialOf?_appClass (h : isPathText entry.initial) :
    (entry.appClass.outline.lines 0).filterMap initialOf? = [entry.initial] := by
  -- the title is free text, but its line starts with another label
  have htitle : initialOf? (Outline.margin 6 ++
      writePieces [.raw "title: ", .quoted entry.title, .raw ","]) = none := rfl
  have hinitial : initialOf? (Outline.margin 6 ++
      writePieces [.raw "initialRoute: ", .quoted entry.initial, .raw ","]) =
      some entry.initial := by
    have hline : writePieces [.raw "initialRoute: ", .quoted entry.initial, .raw ","] =
        "initialRoute: '".toList ++ entry.initial.toList ++ "',".toList := by
      have hfront : "initialRoute: '".toList = "initialRoute: ".toList ++ ['\''] := by decide
      have hback : "',".toList = '\'' :: ",".toList := by decide
      rw [hfront, hback]
      simp only [writePieces, List.flatMap_cons, List.flatMap_nil, Piece.write,
        quote_of_isPathText h, List.append_assoc, List.cons_append, List.nil_append,
        List.append_nil]
    have hhead : ("initialRoute: '".toList ++ entry.initial.toList ++ "',".toList).head? ≠
        some ' ' := by
      show some 'i' ≠ some ' '
      decide
    rw [initialOf?, hline, dropWhile_margin hhead, between?_append, String.ofList_toList]
  simp only [Entry.appClass, classOf, ClassDecl.outline, braces, Text.joinWith, overriding, parens,
    Outline.linesAll, Outline.lines, Outline.linesAll_append, List.filterMap_append,
    List.filterMap_cons, htitle, hinitial]
  rfl

theorem initialIn_entry (hclosed : entry.NamesClosed) (h : isPathText entry.initial) :
    initialIn entry.file.contents = [entry.initial] := by
  have himports : (entry.imports.map fun file => importText ("screens/" ++ file)).filterMap
      initialOf? = [] := filterMap_map_of_none _ fun _ => rfl
  have hroutes : (entry.routes.map routeText).filterMap initialOf? = [] :=
    filterMap_map_of_none _ fun _ => rfl
  have hlibrary : initialOf? (importText "package:flutter/material.dart") = none := rfl
  rw [initialIn, filterMap_entry hclosed rfl rfl, hroutes, filterMap_initialOf?_appClass h,
    List.filterMap_cons, hlibrary, himports]
  rfl

end Wireframe.App
