/-
Free texts.

A design holds texts that are shown as they are: its name, the texts of labels, paragraphs, buttons,
links and checkboxes, hints of fields, the cells of tables, titles and entries of navigation bars.
Two designs with the same rest have the same code up to what stands inside of literals.

* `Project.withoutText` — a design with all free texts empty;
* `skeletons_elementCode` — the code of an element and of what is left of it without its texts;
* `maskedFiles_withoutText` — the same for all files of an app;
* `masked_generate` — designs that differ in their free texts only.
-/
import Wireframe.Proofs.App.RawFile
import Wireframe.Proofs.Review.Errors

namespace Wireframe.Design

open App

/-- A table with as many rows and columns and with nothing in it. -/
def TableProps.withoutText (table : TableProps) : TableProps where
  headers := table.headers.map fun _ => ""
  rows := table.rows.map fun _ => List.replicate (columnCount table) ""
  colWidths := table.colWidths
  fontSize := table.fontSize
  headerColor := table.headerColor

/-- An entry without its text. -/
def NavItem.withoutText (item : NavItem) : NavItem := { item with text := "" }

/-- A widget with all free texts empty. -/
def Widget.withoutText : Widget → Widget
  | label p => label { p with text := "" }
  | paragraph p => paragraph { p with text := "" }
  | inputText p => inputText { p with placeholder := "" }
  | inputDate p => inputDate { p with placeholder := "" }
  | button p => button { p with text := "" }
  | link p => link { p with text := "" }
  | table p => table p.withoutText
  | checkbox p => checkbox { p with text := "" }
  | sidebar p => sidebar { p with title := "", items := p.items.map NavItem.withoutText }
  | bottomNav p => bottomNav { p with items := p.items.map NavItem.withoutText }
  | other => other

/-- An element with all free texts empty. -/
def Element.withoutText (element : Element) : Element :=
  { element with widget := element.widget.withoutText }

/-- A screen with all free texts empty. -/
def Screen.withoutText (screen : Screen) : Screen :=
  { screen with elements := screen.elements.map Element.withoutText }

/-- A design with all free texts empty. -/
def Project.withoutText (project : Project) : Project :=
  { project with name := none, screens := project.screens.map Screen.withoutText }

end Wireframe.Design

namespace Wireframe.App

open Dart Design

/-! ### Elements -/

theorem foldl_max_replicate (rows columns : Nat) :
    (List.replicate (rows + 1) columns).foldl max 0 = columns := by
  have h (n : Nat) : (List.replicate n columns).foldl max columns = columns := by
    induction n with
    | zero => rfl
    | succ n ih => rw [List.replicate_succ, List.foldl_cons, Nat.max_self, ih]
  rw [List.replicate_succ, List.foldl_cons, Nat.zero_max, h]

theorem columnCount_withoutText (p : TableProps) : columnCount p.withoutText = columnCount p := by
  cases hheaders : p.headers with
  | cons first rest => simp [columnCount, TableProps.withoutText, hheaders]
  | nil =>
      cases hrows : p.rows with
      | nil => simp [columnCount, TableProps.withoutText, hheaders, hrows]
      | cons row rows =>
          -- without headers the longest row counts, and all rows of the empty table are that long
          have hempty : p.withoutText.rows.map List.length =
              List.replicate (rows.length + 1) (columnCount p) := by
            simp [TableProps.withoutText, hrows, List.map_const', List.replicate_succ]
          have hheaders' : p.withoutText.headers = [] := by
            simp [TableProps.withoutText, hheaders]
          rw [columnCount, hheaders', hempty]
          exact foldl_max_replicate rows.length (columnCount p)

theorem skeleton_rowCode (columns : Nat) (fontSize : Float) (header : Option Color)
    (texts texts' : List String) :
    (rowCode columns fontSize header texts).skeleton =
      (rowCode columns fontSize header texts').skeleton := by
  have hcell (text text' : String) : (cellCode fontSize header.isSome text).skeleton =
      (cellCode fontSize header.isSome text').skeleton := by
    simp [cellCode, textWidget, Expr.literal]
  have hcells : ((regular columns texts).map (cellCode fontSize header.isSome)).map Expr.skeleton =
      ((regular columns texts').map (cellCode fontSize header.isSome)).map Expr.skeleton := by
    simp only [regular, List.map_map]
    exact List.map_congr_left fun i _ => hcell _ _
  cases header <;> simp [rowCode, Expr.skeletons_eq_map] at hcells ⊢ <;> exact hcells

theorem skeletons_rowsCode (p : TableProps) (columns : Nat) :
    Expr.skeletons (rowsCode p columns) = Expr.skeletons (rowsCode p.withoutText columns) := by
  have hrows : (p.rows.map (rowCode columns p.fontSize none)).map Expr.skeleton =
      (p.withoutText.rows.map (rowCode columns p.fontSize none)).map Expr.skeleton := by
    simp only [TableProps.withoutText, List.map_map]
    exact List.map_congr_left fun row _ => skeleton_rowCode columns p.fontSize none row _
  have hheader : (rowCode columns p.fontSize (some p.headerColor) p.headers).skeleton =
      (rowCode columns p.fontSize (some p.headerColor) p.withoutText.headers).skeleton :=
    skeleton_rowCode ..
  have hisEmpty : p.withoutText.headers.isEmpty = p.headers.isEmpty := by
    simp only [TableProps.withoutText, List.isEmpty_map]
  simp only [Expr.skeletons_eq_map, rowsCode, List.map_append, hisEmpty, hrows]
  cases p.headers.isEmpty with
  | true => rfl
  | false =>
      simp only [Bool.false_eq_true, if_false, List.map_cons, List.map_nil, hheader]
      rfl

theorem skeleton_tableCode (p : TableProps) :
    (tableCode p).skeleton = (tableCode p.withoutText).skeleton := by
  unfold tableCode
  rw [columnCount_withoutText]
  by_cases hcolumns : columnCount p = 0
  · simp only [hcolumns, if_true]
  · have hrows := skeletons_rowsCode p (columnCount p)
    have hwidths : widthsCode p.withoutText (columnCount p) = widthsCode p (columnCount p) := rfl
    simp only [hcolumns, if_false, Expr.skeleton, Expr.skeletons, hrows, hwidths]

theorem skeleton_sidebarEntry (around : Surroundings) (p : SidebarProps) (item : NavItem) :
    (sidebarEntry around p item).skeleton = (sidebarEntry around p item.withoutText).skeleton := by
  simp [sidebarEntry, textWidget, Expr.literal, NavItem.withoutText]

theorem skeletons_sidebarCode (around : Surroundings) (rect : Rect .canvas) (p : SidebarProps) :
    Expr.skeletons (sidebarCode around rect p) = Expr.skeletons (sidebarCode around rect
      { p with title := "", items := p.items.map NavItem.withoutText }) := by
  have hentries : Expr.skeletons (p.items.map (sidebarEntry around p)) =
      Expr.skeletons ((p.items.map NavItem.withoutText).map (sidebarEntry around p)) := by
    simp only [Expr.skeletons_eq_map, List.map_map]
    exact List.map_congr_left fun item _ => skeleton_sidebarEntry around p item
  simp only [sidebarCode, sidebarPanel, Expr.skeletons, Expr.skeleton, hentries]
  rfl

theorem skeleton_bottomNavCode (around : Surroundings) (p : BottomNavProps) :
    (bottomNavCode around p).skeleton =
      (bottomNavCode around { p with items := p.items.map NavItem.withoutText }).skeleton := by
  have hentries : Expr.skeletons (p.items.mapIdx (bottomEntry around p)) =
      Expr.skeletons ((p.items.map NavItem.withoutText).mapIdx (bottomEntry around p)) := by
    rw [Expr.skeletons_eq_map, Expr.skeletons_eq_map]
    apply List.ext_getElem?
    intro i
    simp only [List.getElem?_map, List.getElem?_mapIdx, Option.map_map]
    cases p.items[i]? <;> rfl
  simp only [bottomNavCode, Expr.skeletons, Expr.skeleton, hentries]
  rfl

/-- The code of an element shows its free texts in literals only. -/
theorem skeletons_elementCode (around : Surroundings) (element : Element) :
    Expr.skeletons (elementCode around element) =
      Expr.skeletons (elementCode around element.withoutText) := by
  unfold elementCode Element.withoutText
  cases element.widget with
  | label p => rfl
  | paragraph p => rfl
  | inputText p => rfl
  | inputDate p => rfl
  | button p => rfl
  | link p => rfl
  | table p =>
      simp only [positioned, Widget.withoutText, Expr.skeletons, Expr.skeleton,
        skeleton_tableCode p]
  | checkbox p => rfl
  | sidebar p => exact skeletons_sidebarCode around element.rect p
  | bottomNav p =>
      simp only [positioned, Widget.withoutText, Expr.skeletons, Expr.skeleton,
        skeleton_bottomNavCode around p]
  | _ => rfl

/-! ### Screens -/

theorem isOverlay_withoutText (widget : Widget) :
    widget.withoutText.isOverlay = widget.isOverlay := by
  cases widget <;> rfl

theorem paintOrder_withoutText (elements : List Element) :
    paintOrder (elements.map Element.withoutText) =
      (paintOrder elements).map Element.withoutText := by
  -- the order of painting looks at depths and kinds only
  refine (List.map_mergeSort ?_).symm
  intro a _ b _
  simp only [paintedBefore, Element.withoutText, isOverlay_withoutText]
  rfl

theorem helper?_withoutText (widget : Widget) : helper? widget.withoutText = helper? widget := by
  cases widget <;> rfl

theorem startIndex_withoutText (around : Surroundings) (p : BottomNavProps) :
    startIndex around { p with items := p.items.map NavItem.withoutText } =
      startIndex around p := by
  simp only [startIndex, List.findIdx?_map]
  rfl

theorem note_withoutText (around : Surroundings) (state : ScreenState) (element : Element) :
    state.note around element.withoutText = state.note around element := by
  have hhelper : state.noteHelper element.withoutText.widget = state.noteHelper element.widget := by
    simp only [ScreenState.noteHelper, Element.withoutText, helper?_withoutText]
  rw [ScreenState.note, ScreenState.note, hhelper]
  unfold Element.withoutText
  cases element.widget with
  | bottomNav p =>
      simp only [Widget.withoutText, ScreenState.noteBar, startIndex_withoutText]
  | _ => rfl

theorem ofElements_withoutText (around : Surroundings) (elements : List Element) :
    ScreenState.ofElements around (elements.map Element.withoutText) =
      ScreenState.ofElements around elements := by
  simp only [ScreenState.ofElements, List.foldl_map, note_withoutText]

theorem skeletons_screenBuild (profile : Profile) {fragments fragments' : List Fragment}
    (h : Expr.skeletons (fragments.flatMap Fragment.code) =
      Expr.skeletons (fragments'.flatMap Fragment.code)) :
    Outline.skeletons (screenBuild profile fragments) =
      Outline.skeletons (screenBuild profile fragments') := by
  have hitems (es : List Expr) :
      Outline.skeletons (es.map .item) = (Expr.skeletons es).map .item := by
    rw [Outline.skeletons_eq_map, Expr.skeletons_eq_map, List.map_map, List.map_map]
    exact List.map_congr_left fun e _ => by simp
  simp only [screenBuild, overriding, braces, parens, brackets, Outline.skeletons,
    Outline.skeleton, hitems, h]

/-- The classes of a screen are the same up to their texts if the code of its elements is. -/
theorem skeleton_screenClasses (className : String) (profile : Profile) (state : ScreenState)
    {fragments fragments' : List Fragment}
    (h : Expr.skeletons (fragments.flatMap Fragment.code) =
      Expr.skeletons (fragments'.flatMap Fragment.code)) :
    (screenClasses className profile state fragments).map (·.outline.skeleton) =
      (screenClasses className profile state fragments').map (·.outline.skeleton) := by
  have hbuild := skeletons_screenBuild profile h
  unfold screenClasses
  -- a screen that has nothing to remember is one class, any other has a class for its state too
  by_cases hfields : stateFields state = []
  · simp [hfields, stateful, classOf, ClassDecl.outline, braces, Text.joinWith, hbuild]
  · simp [hfields, stateful, classOf, ClassDecl.outline, braces, Text.joinWith,
      Outline.skeletons_append, hbuild]

theorem skeletons_screenFile {classes classes' : List ClassDecl}
    (h : classes.map (·.outline.skeleton) = classes'.map (·.outline.skeleton)) :
    Outline.skeletons (screenFile classes) = Outline.skeletons (screenFile classes') := by
  have hclasses (cs : List ClassDecl) :
      Outline.skeletons (cs.flatMap fun c => [.blank, c.outline]) =
        (cs.map (·.outline.skeleton)).flatMap fun o => [.blank, o] := by
    rw [Outline.skeletons_eq_map, List.map_flatMap, List.flatMap_map]
    rfl
  rw [screenFile, screenFile, Outline.skeletons_append, Outline.skeletons_append, hclasses,
    hclasses, h]

theorem skeletons_unitFile (profile : Profile) (routes : Routes) (screen : Screen) :
    Outline.skeletons (screenFile (screenUnit profile routes screen).classes) =
      Outline.skeletons (screenFile (screenUnit profile routes screen.withoutText).classes) := by
  let around : Surroundings := ⟨routes, (Names.ofName screen.name).routeId⟩
  have horder := paintOrder_withoutText screen.elements
  have hstate := ofElements_withoutText around (paintOrder screen.elements)
  have hcode : Expr.skeletons
        (((paintOrder screen.elements).map (fragmentOf around)).flatMap Fragment.code) =
      Expr.skeletons ((((paintOrder screen.elements).map Element.withoutText).map
        (fragmentOf around)).flatMap Fragment.code) := by
    simp only [Expr.skeletons_eq_map, List.map_flatMap, List.flatMap_map]
    refine List.flatMap_congr ?_
    intro element _
    have helement := skeletons_elementCode around element
    simpa only [Expr.skeletons_eq_map, fragmentOf] using helement
  apply skeletons_screenFile
  simp only [screenUnit, Screen.withoutText, horder, List.map_append]
  rw [hstate, skeleton_screenClasses _ profile _ hcode]

/-! ### Files -/

theorem mask_fileText {a b : List Outline} (ha : Outline.areWhole a) (hb : Outline.areWhole b)
    (h : Outline.skeletons a = Outline.skeletons b) : mask (fileText a) = mask (fileText b) := by
  have halike := Outline.alike_writeAll_of_skeletons ha hb h 0
  simp only [mask, fileText, String.toList_ofList, halike.masked]

theorem routes_withoutText (project : Project) :
    Routes.ofProject project.withoutText = Routes.ofProject project := by
  simp only [Routes.ofProject, Project.withoutText, List.map_map]
  rfl

theorem skeletons_entry (project : Project) (routes : Routes) :
    Outline.skeletons (Entry.ofRoutes project routes).outline =
      Outline.skeletons (Entry.ofRoutes project.withoutText routes).outline := by
  have happ : (Entry.ofRoutes project routes).appClass.outline.skeleton =
      (Entry.ofRoutes project.withoutText routes).appClass.outline.skeleton := by
    simp [Entry.appClass, Entry.ofRoutes, classOf, ClassDecl.outline, braces, parens, overriding,
      Text.joinWith]
  have himports : (Entry.ofRoutes project routes).importLines =
      (Entry.ofRoutes project.withoutText routes).importLines := rfl
  have hroutes : (Entry.ofRoutes project routes).routeLines =
      (Entry.ofRoutes project.withoutText routes).routeLines := rfl
  simp only [Entry.outline, Text.joinWith, Outline.skeletons_append, Outline.skeletons, happ,
    himports, hroutes]

/-- The files of an app are those of the design without its free texts, up to what stands inside of
literals. -/
theorem maskedFiles_withoutText (project : Project) :
    (sourcesOf project).files.map (fun file => (file.path, mask file.contents)) =
      (sourcesOf project.withoutText).files.map fun file => (file.path, mask file.contents) := by
  have hentry : mask (Entry.ofRoutes project (Routes.ofProject project)).file.contents =
      mask (Entry.ofRoutes project.withoutText (Routes.ofProject project)).file.contents := by
    have hwhole := areWhole_entry (namesClosed_ofRoutes project)
    have hwhole' := areWhole_entry (namesClosed_ofRoutes project.withoutText)
    rw [routes_withoutText] at hwhole'
    exact mask_fileText hwhole hwhole' (skeletons_entry project _)
  have hunit (screen : Screen) :
      mask (screenUnit project.profile (Routes.ofProject project) screen).file.contents =
        mask (screenUnit project.profile (Routes.ofProject project)
          screen.withoutText).file.contents :=
    mask_fileText (areWhole_unitFile _ _ screen) (areWhole_unitFile _ _ screen.withoutText)
      (skeletons_unitFile _ _ screen)
  simp only [Sources.files, sourcesOf, routes_withoutText, List.map_cons, List.map_map, hentry]
  congr 1
  rw [Project.withoutText, List.map_map]
  exact List.map_congr_left fun screen _ => Prod.ext rfl (hunit screen)

/-- Designs that differ in their free texts only have the same files, up to what stands inside of
literals. -/
theorem masked_generate {p q : Project} {s t : Sources} (h : p.withoutText = q.withoutText)
    (hp : generate p = .ok s) (hq : generate q = .ok t) :
    s.files.map (·.path) = t.files.map (·.path) ∧
      s.files.map (mask ·.contents) = t.files.map (mask ·.contents) := by
  obtain rfl := eq_sourcesOf_of_generate hp
  obtain rfl := eq_sourcesOf_of_generate hq
  -- both designs leave the same design without texts, and each has its files
  have hfiles := maskedFiles_withoutText p
  rw [h, ← maskedFiles_withoutText q] at hfiles
  constructor
  · simpa [Function.comp_def] using congrArg (List.map Prod.fst) hfiles
  · simpa [Function.comp_def] using congrArg (List.map Prod.snd) hfiles

/-- A design that shows a text in several places. -/
def posterOf (text : String) : Project where
  name := some text
  screens := [{
    id := "home", name := "Home"
    elements := [
      { id := "label-1", rect := ⟨0.1, 0.1, 0.5, 0.1⟩, widget := .label { text } },
      { id := "table-1", rect := ⟨0.1, 0.3, 0.5, 0.2⟩
        widget := .table { headers := [text], rows := [[], [text, text]] } },
      { id := "sidebar-1", rect := ⟨0.0, 0.0, 0.4, 1.0⟩
        widget := .sidebar { title := text, items := [{ text, targetScreen := "Home" }] } }] }]

theorem masked_generate_posterOf :
    (posterOf "it's $5 \\\n").withoutText = (posterOf "five").withoutText ∧
      generate (posterOf "it's $5 \\\n") = .ok (sourcesOf (posterOf "it's $5 \\\n")) ∧
      generate (posterOf "five") = .ok (sourcesOf (posterOf "five")) ∧
      (sourcesOf (posterOf "it's $5 \\\n")).files.map (·.path) =
        (sourcesOf (posterOf "five")).files.map (·.path) ∧
      (sourcesOf (posterOf "it's $5 \\\n")).files.map (mask ·.contents) =
        (sourcesOf (posterOf "five")).files.map (mask ·.contents) := by
  have htexts : (posterOf "it's $5 \\\n").withoutText = (posterOf "five").withoutText := rfl
  have hquoted : generate (posterOf "it's $5 \\\n") =
      .ok (sourcesOf (posterOf "it's $5 \\\n")) := Review.generate_of_isOk (by decide +kernel)
  have hplain : generate (posterOf "five") = .ok (sourcesOf (posterOf "five")) :=
    Review.generate_of_isOk (by decide +kernel)
  exact ⟨htexts, hquoted, hplain, masked_generate htexts hquoted hplain⟩

end Wireframe.App
