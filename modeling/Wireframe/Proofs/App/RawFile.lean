/-
The raw code of files.

What stands in a file beside the code of its elements is written by the library, but for the names
of classes, which are made of letters and digits.  So every line of raw code in a file closes the
literals and the brackets that it opens.  All other brackets are written in pairs, so whatever the
texts of a design are, the files of its app are balanced: each literal in them is closed, the brackets
outside of literals match, and there is no control character but the line feed.

* `isClosed_screenClass` — the class of a screen;
* `isClosed_helper` — the classes of the helpers;
* `areClosed_unitFile`, `areClosed_entry` — the files of an app;
* `areWhole_unitFile`, `areWhole_entry` — they leave no literal open;
* `isBalanced_fileText` — what is written from outlines that close what they open;
* `isBalanced_of_generate` — the files of an app are balanced.
-/
import Wireframe.App.Sources
import Wireframe.Proofs.App.Helpers
import Wireframe.Proofs.App.RawCode
import Wireframe.Proofs.Review.Errors

namespace Wireframe.App

open Dart Design

/-! ### Names -/

theorem isClosed_screenClass (name : String) : isClosed (App.className name) :=
  isClosed_of_isInert fun _ hc => isInert_of_isAlphanum (isAlphanum_of_mem_className hc)

/-! ### Classes -/

theorem areClosed_joinWith {separator : List Outline} {sections : List (List Outline)}
    (hs : Outline.areClosed separator) (h : ∀ part ∈ sections, Outline.areClosed part) :
    Outline.areClosed (Text.joinWith separator sections) := by
  induction sections with
  | nil => rfl
  | cons part rest ih =>
      have hpart := h part List.mem_cons_self
      cases rest with
      | nil => exact hpart
      | cons next others =>
          have hrest := ih fun other ho => h other (List.mem_cons_of_mem part ho)
          rw [Text.joinWith, Outline.areClosed_append, Outline.areClosed_append, hpart, hs, hrest]
          rfl

theorem isClosed_classOf {name parent : String} {sections : List (List Outline)}
    (hname : isClosed name) (hparent : isClosed parent)
    (h : ∀ part ∈ sections, Outline.areClosed part) :
    (classOf name parent sections).outline.isClosed := by
  have hhead : isClosed ("class " ++ name ++ " extends ") :=
    isClosed_append (isClosed_append (isClosed_ofList rfl) hname) (isClosed_ofList rfl)
  have hline : isClosed ("class " ++ name ++ " extends " ++ parent ++ " ") :=
    isClosed_append (isClosed_append hhead hparent) (isClosed_ofList rfl)
  have hbody : Outline.areClosed (Text.joinWith [.blank] sections) := areClosed_joinWith rfl h
  simp (disch := exact isClosed_ofList rfl) [isClosed_given, classOf, ClassDecl.outline, braces,
    hline, hbody]

theorem isClosed_constructorLine {name : String} (hname : isClosed name) :
    (constructorLine name ["super.key"]).isClosed := by
  have hparameters : isClosed ("(\x7b" ++ String.intercalate ", " ["super.key"] ++ "\x7d);") :=
    isClosed_around rfl (isClosed_ofList rfl)
  have hconst : isClosed ("const " ++ name) := isClosed_append (isClosed_ofList rfl) hname
  rw [constructorLine, Outline.code, Outline.isClosed, closes_raw]
  simpa only [String.append_assoc] using isClosed_append hconst hparameters

theorem isClosed_stateful {name stateName : String} {constructor : Outline}
    {fields : List String} {state : List (List Outline)} {c : ClassDecl} (hname : isClosed name)
    (hstateName : isClosed stateName) (hconstructor : constructor.isClosed)
    (hfields : Outline.areClosed (fieldLines fields))
    (hstate : ∀ part ∈ state, Outline.areClosed part)
    (hc : c ∈ stateful name stateName constructor fields state) : c.outline.isClosed := by
  -- Names are all that is given from outside; the rest of the two classes is known text.
  have hline : isClosed ("State<" ++ name ++ "> createState() => " ++ stateName ++ "();") :=
    isClosed_append (isClosed_append (isClosed_append (isClosed_append (isClosed_ofList rfl) hname)
      (isClosed_ofList rfl)) hstateName) (isClosed_ofList rfl)
  unfold stateful at hc
  extract_lets creation front at hc
  have hcreation : Outline.areClosed creation := by
    simp (disch := exact isClosed_ofList rfl) [isClosed_given, creation, override, Outline.code,
      hline]
  -- The first class has a constructor, and fields where there are any.
  have hfront : ∀ part ∈ front, Outline.areClosed part := by
    intro part hpart
    unfold front at hpart
    split at hpart <;>
      simp only [List.mem_cons, List.not_mem_nil, or_false] at hpart
    · rw [hpart]
      simpa using hconstructor
    · rcases hpart with rfl | rfl
      · simpa using hconstructor
      · exact hfields
  simp only [List.mem_cons, List.not_mem_nil, or_false] at hc
  rcases hc with rfl | rfl
  · refine isClosed_classOf hname (isClosed_ofList rfl) ?_
    intro part hpart
    rcases List.mem_append.mp hpart with hpart | hpart
    · exact hfront part hpart
    · rwa [List.mem_singleton.mp hpart]
  · exact isClosed_classOf hstateName
      (isClosed_append (isClosed_append (isClosed_ofList rfl) hname) (isClosed_ofList rfl)) hstate

theorem isClosed_helper {helper : Helper} {c : ClassDecl} (h : c ∈ helper.classes) :
    c.outline.isClosed := by
  have hall : helper.classes.all (·.outline.isClosed) := by
    cases helper <;>
      simp [Helper.classes, Helper.className, textInputClasses, dateInputClasses, checkboxClasses,
        dropdownClasses, ellipseClasses, autoplayClasses, stateful, classOf, ClassDecl.outline,
        constructorLine, constructorLines, fieldLines, hintedFields, hintedParameters, overriding,
        override, buildHead, braces, parens, brackets, Outline.code, Text.joinWith] <;>
      and_intros <;> exact isClosed_ofList rfl
  exact List.all_eq_true.mp hall c h

/-! ### Screens -/

theorem areClosed_items {es : List Expr} (h : Expr.areClosed es) :
    Outline.areClosed (es.map .item) := by
  refine Outline.areClosed_iff.mpr ?_
  intro o ho
  obtain ⟨e, he, rfl⟩ := List.mem_map.mp ho
  exact Expr.areClosed_iff.mp h e he

theorem areClosed_stateFields (state : ScreenState) : Outline.areClosed (stateFields state) := by
  have hindex (i : Nat) : isClosed ("int _navIndex = " ++ toString i ++ ";") :=
    isClosed_append (isClosed_append (isClosed_ofList rfl) (isClosed_toString i))
      (isClosed_ofList rfl)
  unfold stateFields
  rw [Outline.areClosed_append, Bool.and_eq_true]
  constructor
  · cases state.sidebarVisible with
    | none => rfl
    | some visible => cases visible <;> decide
  · cases state.navIndex with
    | none => rfl
    | some index =>
        simp only [Option.toList_some, List.map_cons, List.map_nil, Outline.areClosed,
          Outline.code, Outline.isClosed, closes_raw, hindex, Bool.and_self]

theorem areClosed_screenBuild (profile : Profile) {fragments : List Fragment}
    (h : Expr.areClosed (fragments.flatMap Fragment.code)) :
    Outline.areClosed (screenBuild profile fragments) := by
  have hratio : isClosed ("aspectRatio: " ++ aspectCode profile ++ ",") :=
    isClosed_append (isClosed_append (isClosed_ofList rfl) (isClosed_append (isClosed_append
      (isClosed_double _) (isClosed_ofList rfl)) (isClosed_double _))) (isClosed_ofList rfl)
  have hitems := areClosed_items h
  simp (disch := exact isClosed_ofList rfl) [isClosed_given, screenBuild, overriding, override,
    buildHead, braces, parens, brackets, Outline.code, constraintsName, hratio, hitems]

theorem isClosed_of_mem_screenClasses {className : String} (hname : isClosed className)
    (profile : Profile) (state : ScreenState) {fragments : List Fragment}
    (hfragments : Expr.areClosed (fragments.flatMap Fragment.code)) {c : ClassDecl}
    (hc : c ∈ screenClasses className profile state fragments) : c.outline.isClosed := by
  have hstateName : isClosed (stateClassName className) :=
    isClosed_append (isClosed_append (isClosed_ofList rfl) hname) (isClosed_ofList rfl)
  have hconstructor := isClosed_constructorLine hname
  have hfields := areClosed_stateFields state
  have hbuild := areClosed_screenBuild profile hfragments
  refine isClosed_stateful hname hstateName hconstructor rfl ?_ hc
  intro part hpart
  split at hpart
  · rwa [List.mem_singleton.mp hpart]
  · simp only [List.mem_cons, List.not_mem_nil, or_false] at hpart
    rcases hpart with rfl | rfl
    · exact hfields
    · exact hbuild

theorem isClosed_importLine (path : String) : (importLine path).isClosed :=
  closes_between rfl path

theorem areClosed_screenFile {classes : List ClassDecl} (h : ∀ c ∈ classes, c.outline.isClosed) :
    Outline.areClosed (screenFile classes) := by
  have hclasses : Outline.areClosed (classes.flatMap fun c => [.blank, c.outline]) := by
    refine Outline.areClosed_iff.mpr ?_
    intro o ho
    obtain ⟨c, hc, ho⟩ := List.mem_flatMap.mp ho
    simp only [List.mem_cons, List.not_mem_nil, or_false] at ho
    rcases ho with rfl | rfl
    · rfl
    · exact h c hc
  simp (disch := exact isClosed_ofList rfl) [isClosed_given, screenFile, banner, Outline.code,
    isClosed_importLine, hclasses]

/-- The code of elements closes what it opens. -/
theorem areClosed_fragments (around : Surroundings) (elements : List Element) :
    Expr.areClosed ((elements.map (fragmentOf around)).flatMap Fragment.code) := by
  refine Expr.areClosed_iff.mpr ?_
  intro e he
  obtain ⟨fragment, hfragment, he⟩ := List.mem_flatMap.mp he
  obtain ⟨element, -, rfl⟩ := List.mem_map.mp hfragment
  exact Expr.areClosed_iff.mp (areClosed_elementCode around element) e he

/-- The classes of a screen close what they open. -/
theorem isClosed_of_mem_unit_classes {profile : Profile} {routes : Routes} {screen : Screen}
    {c : ClassDecl} (hc : c ∈ (screenUnit profile routes screen).classes) : c.outline.isClosed := by
  rcases List.mem_append.mp hc with hc | hc
  -- the classes of a helper are those of the library
  · obtain ⟨entry, hentry, hc⟩ := List.mem_flatMap.mp hc
    have hdefined := (isHelperTable_ofElements _ _).defined entry hentry
    rw [hdefined] at hc
    exact isClosed_helper hc
  · exact isClosed_of_mem_screenClasses (isClosed_screenClass screen.name) profile _
      (areClosed_fragments _ (paintOrder screen.elements)) hc

/-- The file of a screen closes what it opens. -/
theorem areClosed_unitFile (profile : Profile) (routes : Routes) (screen : Screen) :
    Outline.areClosed (screenFile (screenUnit profile routes screen).classes) :=
  areClosed_screenFile fun _ => isClosed_of_mem_unit_classes

/-- The file of a screen leaves no literal open. -/
theorem areWhole_unitFile (profile : Profile) (routes : Routes) (screen : Screen) :
    Outline.areWhole (screenFile (screenUnit profile routes screen).classes) :=
  Outline.areWhole_of_areClosed _ (areClosed_unitFile profile routes screen)

/-! ### The file that an app starts with -/

/-- The classes that an entry names have names that open nothing. -/
def Entry.NamesClosed (entry : Entry) : Prop := ∀ route ∈ entry.routes, isClosed route.2

theorem namesClosed_ofRoutes (project : Project) :
    (Entry.ofRoutes project (Routes.ofProject project)).NamesClosed := by
  intro route hroute
  obtain ⟨r, hr, rfl⟩ := List.mem_map.mp hroute
  obtain ⟨screen, -, rfl⟩ := List.mem_map.mp hr
  exact isClosed_screenClass screen.name

theorem areClosed_routeLines {entry : Entry} (h : entry.NamesClosed) :
    Outline.areClosed entry.routeLines := by
  have hroutes : Outline.areClosed (entry.routes.map Entry.routeLine) := by
    refine Outline.areClosed_iff.mpr ?_
    intro o ho
    obtain ⟨route, hroute, rfl⟩ := List.mem_map.mp ho
    have hline : isClosed (": (context) => const " ++ route.2 ++ "(),") :=
      isClosed_append (isClosed_append (isClosed_ofList rfl) (h route hroute)) (isClosed_ofList rfl)
    exact closes_append (closes_quoted route.1) (by rwa [closes_raw])
  simp (disch := exact isClosed_ofList rfl) [isClosed_given, Entry.routeLines, braces, Outline.code,
    hroutes]

theorem areClosed_importLines (entry : Entry) : Outline.areClosed entry.importLines := by
  have himports : Outline.areClosed
      (entry.imports.map fun file => importLine ("screens/" ++ file)) := by
    refine Outline.areClosed_iff.mpr ?_
    intro o ho
    obtain ⟨file, -, rfl⟩ := List.mem_map.mp ho
    exact isClosed_importLine _
  simp [Entry.importLines, isClosed_importLine, himports]

theorem isClosed_appClass (entry : Entry) : entry.appClass.outline.isClosed := by
  have htitle : closes [.raw "title: ", .quoted entry.title, .raw ","] := closes_between rfl _
  have hinitial : closes [.raw "initialRoute: ", .quoted entry.initial, .raw ","] :=
    closes_between rfl _
  refine isClosed_classOf (isClosed_ofList rfl) (isClosed_ofList rfl) ?_
  intro part hpart
  simp only [List.mem_cons, List.not_mem_nil, or_false] at hpart
  rcases hpart with rfl | rfl
  · simpa using isClosed_constructorLine (isClosed_ofList rfl)
  · simp (disch := exact isClosed_ofList rfl) [isClosed_given, overriding, override, buildHead,
      braces, parens, Outline.code, htitle, hinitial]

/-- The file that an app starts with closes what it opens. -/
theorem areClosed_entry {entry : Entry} (h : entry.NamesClosed) :
    Outline.areClosed entry.outline := by
  refine areClosed_joinWith rfl ?_
  intro part hpart
  simp only [List.mem_cons, List.not_mem_nil, or_false] at hpart
  rcases hpart with rfl | rfl | rfl | rfl
  · simp (disch := exact isClosed_ofList rfl) [isClosed_given, banner, Outline.code,
      areClosed_importLines]
  · simp (disch := exact isClosed_ofList rfl) [isClosed_given, Outline.code]
  · exact areClosed_routeLines h
  · simpa using isClosed_appClass entry

/-- The file that an app starts with leaves no literal open. -/
theorem areWhole_entry {entry : Entry} (h : entry.NamesClosed) : Outline.areWhole entry.outline :=
  Outline.areWhole_of_areClosed _ (areClosed_entry h)

theorem isBalanced_fileText {outline : List Outline} (h : Outline.areClosed outline) :
    IsBalanced (fileText outline) := by
  have hclosed := Outline.closed_writeAll outline h 0
  exact ⟨by simpa [fileText] using hclosed.after, by simpa [mask, fileText] using hclosed.nested,
    by simpa [fileText] using hclosed.control⟩

theorem isBalanced_of_mem_files {project : Project} {file : SourceFile}
    (h : file ∈ (sourcesOf project).files) : IsBalanced file.contents := by
  rcases List.mem_cons.mp h with rfl | h
  · exact isBalanced_fileText (areClosed_entry (namesClosed_ofRoutes project))
  · obtain ⟨unit, hunit, rfl⟩ := List.mem_map.mp h
    obtain ⟨screen, -, rfl⟩ := List.mem_map.mp hunit
    exact isBalanced_fileText (areClosed_unitFile _ _ screen)

/-- Every file of an app is balanced. -/
theorem isBalanced_of_generate {project : Project} {sources : Sources}
    (h : generate project = .ok sources) : ∀ file ∈ sources.files, IsBalanced file.contents := by
  obtain rfl := eq_sourcesOf_of_generate h
  exact fun _ hfile => isBalanced_of_mem_files hfile

/-- A design whose texts open brackets and literals and close others. -/
def looseEnds : Project where
  name := some "'(["
  screens := [{
    id := "home", name := "Home"
    elements := [
      { id := "link-1", rect := ⟨0.1, 0.1, 0.5, 0.1⟩
        widget := .link { text := ")\\", url := "'\x7d" } },
      { id := "table-1", rect := ⟨0.1, 0.3, 0.5, 0.2⟩
        widget := .table { headers := ["[", "\t"], rows := [["'"], ["\x7d", "(\x7b", "]"]] } },
      { id := "bottomnav-1", rect := ⟨0.0, 0.9, 1.0, 0.1⟩
        widget := .bottomNav {
          items := [{ text := "\\'", targetScreen := "Home" }, { text := "(" }] } }] }]

theorem isBalanced_of_generate_looseEnds :
    generate looseEnds = .ok (sourcesOf looseEnds) ∧
      ∀ file ∈ (sourcesOf looseEnds).files, IsBalanced file.contents := by
  have h : generate looseEnds = .ok (sourcesOf looseEnds) :=
    Review.generate_of_isOk (by decide +kernel)
  exact ⟨h, isBalanced_of_generate h⟩

end Wireframe.App
