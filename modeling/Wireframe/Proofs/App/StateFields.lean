/-
The state of a screen.

The class that holds the state of a screen has a field for the bars at the side, if there are any, and
one for the bars at the bottom.  Each starts as the bar says that is painted first, and nothing else
is kept.

* `bodyOf`, `fieldOf?`, `fieldsIn` — the fields of a class, read from a file;
* `bodyOf_unit`, `fieldsIn_unit` — the fields of the state of a screen;
* `sidebarVisible_ofElements`, `navIndex_ofElements` — what the fields start as;
* `IsStart`, `isStart_startIndex` — the entry that is chosen at first;
* `keepsBars_unit` — the fields of a screen are those of its bars.
-/
import Wireframe.Proofs.App.BarEntries
import Wireframe.Proofs.App.Contents
import Wireframe.Proofs.App.PaintOrder

namespace Wireframe.App

open Dart Design

/-! ### The reader -/

/-- A field of a class: its type, its name and what it starts as. -/
structure Field where
  type : String
  name : String
  initial : String
deriving DecidableEq, Repr

/-- The lines of the body of a class. -/
def bodyOf (name contents : String) : List (List Char) :=
  (((linesOf contents).dropWhile (declaredOf? · ≠ some name)).drop 1).takeWhile (· ≠ ['\x7d'])

/-- The field that a line declares right inside of a class. -/
def fieldOf? (line : List Char) : Option Field :=
  match line with
  | ' ' :: ' ' :: rest =>
      if rest.head? = some ' ' then none
      else
        match tokens rest with
        | [.word type, .word name, .symbol '=', .word initial, .symbol ';'] =>
            some ⟨type, name, initial⟩
        | _ => none
  | _ => none

/-- The fields of a class. -/
def fieldsIn (name contents : String) : List Field := (bodyOf name contents).filterMap fieldOf?

example : fieldOf? "  int _navIndex = 2;".toList = some ⟨"int", "_navIndex", "2"⟩ := by
  decide +kernel

/-! ### Classes of a file -/

/-- The body of a class in a file with classes of different names. -/
theorem bodyOf_screenFile {classes : List ClassDecl} {c : ClassDecl}
    (h : ∀ c ∈ classes, c.outline.isClosed ∧ ' ' ∉ c.name.toList)
    (hnodup : (classes.map (·.name)).Nodup) (hc : c ∈ classes) :
    bodyOf c.name (fileText (screenFile classes)) = Outline.linesAll 2 c.body := by
  obtain ⟨before, after, rfl⟩ := List.append_of_mem hc
  have hbefore : ∀ d ∈ before, d.outline.isClosed ∧ ' ' ∉ d.name.toList :=
    fun d hd => h d (List.mem_append_left _ hd)
  -- in front of the class no line declares one of its name
  have hfront : ∀ line ∈ libraryLines ++
      Outline.linesAll 0 (before.flatMap fun d => [.blank, d.outline]) ++ [[]],
      decide (declaredOf? line ≠ some c.name) = true := by
    intro line hline
    refine decide_eq_true ?_
    intro hdeclared
    have hmem := List.mem_filterMap.mpr ⟨line, hline, hdeclared⟩
    have hend : [[]].filterMap declaredOf? = [] := rfl
    rw [List.filterMap_append, List.filterMap_append, filterMap_declaredOf?_libraryLines,
      filterMap_declaredOf?_classes hbefore, hend, List.nil_append, List.append_nil] at hmem
    rw [List.map_append, List.map_cons] at hnodup
    exact List.disjoint_of_nodup_append hnodup hmem List.mem_cons_self
  have hbody := areWhole_body (c.outline.isWhole_of_isClosed (h c hc).1)
  have hinside : ∀ line ∈ Outline.linesAll 2 c.body, line ≠ ['\x7d'] := by
    intro line hline
    rcases Outline.margin_of_mem_linesAll (n := 1) c.body hbody 2 (by decide) line hline with
      rfl | ⟨rest, rfl⟩
    · decide
    · intro heq
      exact absurd (List.cons.inj heq).1 (by decide)
  have hhead : decide (declaredOf? (classLine c) ≠ some c.name) = false := by
    rw [classLine, declaredOf?_head (h c hc).2]
    simp
  have hlines : linesOf (fileText (screenFile (before ++ c :: after))) =
      (libraryLines ++ Outline.linesAll 0 (before.flatMap fun d => [.blank, d.outline]) ++ [[]]) ++
        classLine c :: (Outline.linesAll 2 c.body ++ ['\x7d'] ::
          (Outline.linesAll 0 (after.flatMap fun d => [.blank, d.outline]) ++ [[]])) := by
    rw [linesOf_screenFile fun d hd => (h d hd).1, List.flatMap_append, List.flatMap_cons,
      Outline.linesAll_append, Outline.linesAll_append, Outline.linesAll, Outline.linesAll,
      Outline.linesAll, lines_class, Outline.lines]
    simp
  rw [bodyOf, hlines, between_lines hfront hhead hinside]

/-- The body of a class of a screen. -/
theorem bodyOf_unit {profile : Profile} {routes : Routes} {screen : Screen} {c : ClassDecl}
    (hc : c ∈ (screenUnit profile routes screen).classes) :
    bodyOf c.name (screenUnit profile routes screen).file.contents = Outline.linesAll 2 c.body :=
  bodyOf_screenFile (fun _ hd => ⟨isClosed_of_mem_unit_classes hd, blank_not_mem_unit_className hd⟩)
    (nodup_unit_classNames profile routes screen) hc

/-! ### Fields -/

/-- The line of a field. -/
theorem fieldOf?_code {code type name initial : String} (hhead : code.toList.head? ≠ some ' ')
    (h : tokens code.toList =
      [.word type, .word name, .symbol '=', .word initial, .symbol ';']) :
    (Outline.linesAll 2 [.code code]).filterMap fieldOf? = [⟨type, name, initial⟩] := by
  have hline : Outline.linesAll 2 [.code code] = [' ' :: ' ' :: code.toList] := by
    simp [Outline.linesAll, Outline.lines, Outline.code, writePieces, Piece.write, Outline.margin]
  have hfield : fieldOf? (' ' :: ' ' :: code.toList) = some ⟨type, name, initial⟩ := by
    rw [fieldOf?, if_neg hhead, h]
    rfl
  rw [hline, List.filterMap_cons, hfield]
  rfl

/-- The fields of a state. -/
def ScreenState.fields (state : ScreenState) : List Field :=
  (state.sidebarVisible.toList.map fun visible =>
    ⟨"bool", "_sidebarVisible", if visible then "true" else "false"⟩) ++
  state.navIndex.toList.map fun index => ⟨"int", "_navIndex", toString index⟩

theorem tokens_indexField (i : Nat) : tokens ("int _navIndex = " ++ toString i ++ ";").toList =
    [.word "int", .word "_navIndex", .symbol '=', .word (toString i), .symbol ';'] := by
  have hsplit : ("int _navIndex = " ++ toString i ++ ";").toList =
      "int _navIndex ".toList ++ '=' :: (' ' :: ((toString i).toList ++ [';'])) := by
    simp
  rw [hsplit, tokens_equals i rfl (by decide) (by decide) (by decide)]
  rfl

theorem filterMap_stateFields (state : ScreenState) :
    (Outline.linesAll 2 (stateFields state)).filterMap fieldOf? = state.fields := by
  rw [stateFields, ScreenState.fields, Outline.linesAll_append, List.filterMap_append]
  congr 1
  · cases state.sidebarVisible with
    | none => rfl
    | some visible => cases visible <;> rfl
  · cases state.navIndex with
    | none => rfl
    | some index =>
        refine fieldOf?_code ?_ (tokens_indexField index)
        simp

/-- A reader of lines that finds nothing in methods. -/
structure SkipsMethods {β : Type} (read : List Char → Option β) : Prop where
  nil : read [] = none
  deep : ∀ rest, read (' ' :: ' ' :: ' ' :: rest) = none
  above : read "  @override".toList = none
  closing : read "  \x7d".toList = none

section

variable {β : Type} {read : List Char → Option β}

/-- Nothing is found in a method that takes the place of an inherited one. -/
theorem SkipsMethods.filterMap_overriding (hread : SkipsMethods read) {head : String}
    {body : List Outline} (h : Outline.areWhole (overriding head body))
    (hhead : read (Outline.margin 2 ++ Outline.writeHeads [(head, .curly)]) = none) :
    (Outline.linesAll 2 (overriding head body)).filterMap read = [] := by
  have hlines : Outline.linesAll 2 (overriding head body) =
      "  @override".toList :: (Outline.margin 2 ++ Outline.writeHeads [(head, .curly)]) ::
        (Outline.linesAll 4 body ++ ["  \x7d".toList]) := by
    simp [overriding, Dart.override, braces, Outline.code, Outline.linesAll, Outline.lines, writePieces,
      Piece.write, Outline.margin, Outline.writeClosing, Bracket.closing]
  have hbody : Outline.areWhole body := by
    simp only [overriding, braces, Outline.areWhole, Outline.isWhole, Bool.and_eq_true] at h
    exact h.2.1.1.2
  -- what is inside of the method is indented further
  have hinner : (Outline.linesAll 4 body).filterMap read = [] := by
    rw [List.filterMap_eq_nil_iff]
    intro line hline
    rcases Outline.margin_of_mem_linesAll (n := 3) body hbody 4 (by decide) line hline with
      rfl | ⟨rest, rfl⟩
    · exact hread.nil
    · exact hread.deep rest
  rw [hlines, List.filterMap_cons, hread.above, List.filterMap_cons, hhead,
    List.filterMap_append, hinner, List.filterMap_cons, hread.closing]
  rfl

/-- What is found in the class that holds a state is found in its fields. -/
theorem SkipsMethods.filterMap_sections (hread : SkipsMethods read) {profile : Profile}
    {fragments : List Fragment} (h : Outline.areWhole (screenBuild profile fragments))
    (hhead : read (Outline.margin 2 ++ Outline.writeHeads [(buildHead, .curly)]) = none)
    (state : ScreenState) :
    (Outline.linesAll 2 (Text.joinWith [.blank] (if (stateFields state).isEmpty then
      [screenBuild profile fragments] else [stateFields state, screenBuild profile fragments]))).filterMap
        read = (Outline.linesAll 2 (stateFields state)).filterMap read := by
  have hbuild : (Outline.linesAll 2 (screenBuild profile fragments)).filterMap read = [] :=
    hread.filterMap_overriding h hhead
  by_cases hempty : (stateFields state).isEmpty
  · rw [if_pos hempty, List.isEmpty_iff.mp hempty]
    exact hbuild
  · have hblank : (Outline.linesAll 2 [.blank]).filterMap read = [] := by
      rw [Outline.linesAll, Outline.lines, Outline.linesAll, List.append_nil, List.filterMap_cons,
        hread.nil]
      rfl
    rw [if_neg hempty, Text.joinWith, Text.joinWith, Outline.linesAll_append,
      Outline.linesAll_append, List.filterMap_append, List.filterMap_append, hblank, hbuild,
      List.append_nil, List.append_nil]

end

theorem skipsMethods_fieldOf? : SkipsMethods fieldOf? := ⟨rfl, fun _ => rfl, rfl, rfl⟩

/-- The class that holds the state of a screen. -/
def stateClass (routes : Routes) (profile : Profile) (screen : Screen) : ClassDecl :=
  let around : Surroundings := ⟨routes, routeId screen.name⟩
  let elements := paintOrder screen.elements
  let state := ScreenState.ofElements around elements
  let build := screenBuild profile (elements.map (fragmentOf around))
  classOf (stateClassName (className screen.name)) ("State<" ++ className screen.name ++ ">")
    (if (stateFields state).isEmpty then [build] else [stateFields state, build])

theorem stateClass_mem (profile : Profile) (routes : Routes) (screen : Screen) :
    stateClass routes profile screen ∈ (screenUnit profile routes screen).classes :=
  List.mem_append_right _ (List.mem_cons_of_mem _ (List.mem_singleton_self _))

/-- What is found in the class that holds the state of a screen. -/
theorem SkipsMethods.filterMap_stateClass {β : Type} {read : List Char → Option β}
    (hread : SkipsMethods read)
    (hhead : read (Outline.margin 2 ++ Outline.writeHeads [(buildHead, .curly)]) = none)
    (profile : Profile) (routes : Routes) (screen : Screen) :
    (Outline.linesAll 2 (stateClass routes profile screen).body).filterMap read =
      (Outline.linesAll 2 (stateFields (ScreenState.ofElements ⟨routes, routeId screen.name⟩
        (paintOrder screen.elements)))).filterMap read := by
  have hcode := areClosed_fragments ⟨routes, routeId screen.name⟩ (paintOrder screen.elements)
  have hbuild := Outline.areWhole_of_areClosed _ (areClosed_screenBuild profile hcode)
  exact hread.filterMap_sections hbuild hhead _

/-- The fields of the state of a screen are those of what was collected. -/
theorem fieldsIn_unit (profile : Profile) (routes : Routes) (screen : Screen) :
    fieldsIn (stateClassName (className screen.name))
        (screenUnit profile routes screen).file.contents =
      (ScreenState.ofElements ⟨routes, routeId screen.name⟩
        (paintOrder screen.elements)).fields := by
  rw [fieldsIn]
  have hbody := bodyOf_unit (stateClass_mem profile routes screen)
  rw [show (stateClass routes profile screen).name = stateClassName (className screen.name) from rfl]
    at hbody
  rw [hbody, skipsMethods_fieldOf?.filterMap_stateClass rfl, filterMap_stateFields]

/-! ### What the fields start as -/

/-- What a bar at the side says about itself. -/
def sidebarVisible? : Widget → Option Bool
  | .sidebar p => some p.visible
  | _ => none

/-- The entry at the bottom that is chosen at first. -/
def startIndex? (around : Surroundings) : Widget → Option Nat
  | .bottomNav p => some (startIndex around p)
  | _ => none

theorem note_fields (around : Surroundings) (state : ScreenState) (element : Element) :
    (state.note around element).sidebarVisible =
        state.sidebarVisible.or (sidebarVisible? element.widget) ∧
      (state.note around element).navIndex =
        state.navIndex.or (startIndex? around element.widget) := by
  have hhelper : (state.noteHelper element.widget).sidebarVisible = state.sidebarVisible ∧
      (state.noteHelper element.widget).navIndex = state.navIndex := by
    unfold ScreenState.noteHelper
    split <;> exact ⟨rfl, rfl⟩
  rw [← hhelper.1, ← hhelper.2, ScreenState.note]
  unfold ScreenState.noteBar
  cases element.widget <;> simp [sidebarVisible?, startIndex?]

/-- The first element of a kind decides what its field starts as. -/
theorem fields_foldl (around : Surroundings) (state : ScreenState) (elements : List Element) :
    (elements.foldl (ScreenState.note around) state).sidebarVisible =
        state.sidebarVisible.or (elements.findSome? (sidebarVisible? ·.widget)) ∧
      (elements.foldl (ScreenState.note around) state).navIndex =
        state.navIndex.or (elements.findSome? (startIndex? around ·.widget)) := by
  induction elements generalizing state with
  | nil => simp
  | cons element rest ih =>
      obtain ⟨hvisible, hindex⟩ := note_fields around state element
      obtain ⟨hvisible', hindex'⟩ := ih (state.note around element)
      rw [List.foldl_cons, hvisible', hindex', hvisible, hindex, Option.or_assoc, Option.or_assoc,
        List.findSome?_cons, List.findSome?_cons]
      constructor
      · cases sidebarVisible? element.widget <;> rfl
      · cases startIndex? around element.widget <;> rfl

theorem fields_ofElements (around : Surroundings) (elements : List Element) :
    (ScreenState.ofElements around elements).sidebarVisible =
        elements.findSome? (sidebarVisible? ·.widget) ∧
      (ScreenState.ofElements around elements).navIndex =
        elements.findSome? (startIndex? around ·.widget) := by
  obtain ⟨hvisible, hindex⟩ := fields_foldl around {} elements
  exact ⟨hvisible, hindex⟩

/-! ### The entry that is chosen at first -/

/-- The entry leads to the screen that the bar is on. -/
def LeadsBack (around : Surroundings) (item : NavItem) : Prop :=
  around.routes.path? item.targetScreen = some ("/" ++ around.current)

/-- The entry that is chosen at first: the first one that leads back, or else the first one. -/
structure IsStart (around : Surroundings) (items : List NavItem) (start : Nat) : Prop where
  back : (∃ item ∈ items, LeadsBack around item) →
    ∃ item, items[start]? = some item ∧ LeadsBack around item
  least : ∀ i item, items[i]? = some item → LeadsBack around item → start ≤ i
  zero : (∀ item ∈ items, ¬ LeadsBack around item) → start = 0
  below : items ≠ [] → start < items.length

theorem isStart_startIndex (around : Surroundings) (p : BottomNavProps) :
    IsStart around p.items (startIndex around p) := by
  unfold startIndex
  cases hfound : p.items.findIdx? fun item =>
      around.routes.path? item.targetScreen == some ("/" ++ around.current) with
  | none =>
      -- No entry leads back, so the first one is chosen.
      have hnone : ∀ item ∈ p.items, ¬ LeadsBack around item := by
        intro item hitem
        simpa [LeadsBack] using List.findIdx?_eq_none_iff.mp hfound item hitem
      constructor
      · rintro ⟨item, hitem, hback⟩
        exact absurd hback (hnone item hitem)
      · intro i item hitem hback
        exact absurd hback (hnone item (List.mem_of_getElem? hitem))
      · intro _
        rfl
      · exact List.length_pos_iff.mpr
  | some start =>
      obtain ⟨hstart, hback, hleast⟩ := List.findIdx?_eq_some_iff_getElem.mp hfound
      -- The entry that was found leads back, and every earlier one does not.
      have hback : LeadsBack around p.items[start] := by simpa [LeadsBack] using hback
      constructor
      · intro _
        exact ⟨p.items[start], List.getElem?_eq_getElem hstart, hback⟩
      · intro i item hitem hleads
        refine Nat.le_of_not_lt ?_
        intro hless
        obtain ⟨hi, rfl⟩ := List.getElem?_eq_some_iff.mp hitem
        have hother := hleast i hless
        simp only [LeadsBack] at hleads
        simp [hleads] at hother
      · intro hnone
        exact absurd hback (hnone _ (List.getElem_mem hstart))
      · intro _
        exact hstart

/-! ### Screens -/

/-- The state of a screen has a field for each kind of bar that is on the screen, and none besides.
Each starts as the bar of its kind says that is painted first. -/
structure KeepsBars (around : Surroundings) (screen : Screen) (fields : List Field) : Prop where
  names : (fields.map Field.name).Sublist ["_sidebarVisible", "_navIndex"]
  sidebar_iff : (∃ field ∈ fields, field.name = "_sidebarVisible") ↔
    ∃ element ∈ screen.elements, element.widget.kind? = some .sidebar
  sidebar : ∀ element p,
    (paintOrder screen.elements).find? (·.widget.kind? = some .sidebar) = some element →
    element.widget = .sidebar p →
    ⟨"bool", "_sidebarVisible", if p.visible then "true" else "false"⟩ ∈ fields
  bottomNav_iff : (∃ field ∈ fields, field.name = "_navIndex") ↔
    ∃ element ∈ screen.elements, element.widget.kind? = some .bottomNav
  bottomNav : ∀ element p,
    (paintOrder screen.elements).find? (·.widget.kind? = some .bottomNav) = some element →
    element.widget = .bottomNav p →
    ∃ start, ⟨"int", "_navIndex", toString start⟩ ∈ fields ∧ IsStart around p.items start

namespace ScreenState

variable (state : ScreenState)

theorem sublist_names_fields :
    (state.fields.map Field.name).Sublist ["_sidebarVisible", "_navIndex"] := by
  unfold ScreenState.fields
  cases state.sidebarVisible <;> cases state.navIndex <;> simp

theorem sidebar_mem_fields : (∃ field ∈ state.fields, field.name = "_sidebarVisible") ↔
    state.sidebarVisible.isSome := by
  unfold ScreenState.fields
  cases state.sidebarVisible <;> cases state.navIndex <;> simp

theorem navIndex_mem_fields : (∃ field ∈ state.fields, field.name = "_navIndex") ↔
    state.navIndex.isSome := by
  unfold ScreenState.fields
  cases state.sidebarVisible <;> cases state.navIndex <;> simp

end ScreenState

section Kinds

variable {β : Type} {kind : Kind} {read : Widget → Option β} {elements : List Element}

/-- What is read of widgets of one kind only is read of the first widget of that kind. -/
theorem findSome?_of_kind (h : ∀ widget : Widget, widget.kind? = some kind ↔ (read widget).isSome) :
    elements.findSome? (read ·.widget) =
      (elements.find? (·.widget.kind? = some kind)).bind (read ·.widget) := by
  induction elements with
  | nil => rfl
  | cons element rest ih =>
      rw [List.findSome?_cons, List.find?_cons]
      by_cases hkind : element.widget.kind? = some kind
      · obtain ⟨b, hb⟩ := Option.isSome_iff_exists.mp ((h _).mp hkind)
        simp [hkind, hb]
      · have hnone : read element.widget = none := by
          simpa using (h element.widget).not.mp hkind
        simp [hkind, hnone, ih]

/-- Something is read of a screen iff a widget of the kind is on it. -/
theorem isSome_findSome?_paintOrder
    (h : ∀ widget : Widget, widget.kind? = some kind ↔ (read widget).isSome) :
    ((paintOrder elements).findSome? (read ·.widget)).isSome ↔
      ∃ element ∈ elements, element.widget.kind? = some kind := by
  rw [List.findSome?_isSome_iff]
  refine exists_congr fun element => ?_
  rw [(paintOrder_perm elements).mem_iff, h]

end Kinds

theorem keepsBars_fields (around : Surroundings) (screen : Screen) :
    KeepsBars around screen
      (ScreenState.ofElements around (paintOrder screen.elements)).fields := by
  obtain ⟨hvisible, hindex⟩ := fields_ofElements around (paintOrder screen.elements)
  -- A bar is an element from which a field is set, so the first of them sets it.
  have hsidebar (widget : Widget) :
      widget.kind? = some .sidebar ↔ (sidebarVisible? widget).isSome := by
    cases widget <;> simp [Widget.kind?, sidebarVisible?]
  have hbottomNav (widget : Widget) :
      widget.kind? = some .bottomNav ↔ (startIndex? around widget).isSome := by
    cases widget <;> simp [Widget.kind?, startIndex?]
  -- In the order of the structure: names, then the bar at the side, then the one at the bottom.
  refine ⟨ScreenState.sublist_names_fields _, ?_, ?_, ?_, ?_⟩
  · rw [ScreenState.sidebar_mem_fields, hvisible]
    exact isSome_findSome?_paintOrder hsidebar
  · intro element p hfirst hwidget
    rw [findSome?_of_kind hsidebar, hfirst, Option.bind_some, hwidget, sidebarVisible?] at hvisible
    rw [ScreenState.fields, hvisible]
    simp
  · rw [ScreenState.navIndex_mem_fields, hindex]
    exact isSome_findSome?_paintOrder hbottomNav
  · intro element p hfirst hwidget
    rw [findSome?_of_kind hbottomNav, hfirst, Option.bind_some, hwidget, startIndex?] at hindex
    refine ⟨startIndex around p, ?_, isStart_startIndex around p⟩
    rw [ScreenState.fields, hindex]
    simp

/-- The state of a screen is that of the bars on it, and every bar at the bottom goes by its own
entries: entry number `i` looks for the number `i` and sets no other. -/
theorem keepsBars_unit (profile : Profile) (routes : Routes) (screen : Screen) :
    let around : Surroundings := ⟨routes, routeId screen.name⟩
    let unit := screenUnit profile routes screen
    KeepsBars around screen
        (fieldsIn (stateClassName unit.names.className) unit.file.contents) ∧
      ∀ (i : Nat) (element : Element) (p : BottomNavProps),
        (paintOrder screen.elements)[i]? = some element → element.widget = .bottomNav p →
        ∃ fragment : Fragment, unit.fragments[i]? = some fragment ∧ fragment.elementId = element.id ∧
          KeepsToItself around p.items (tokens fragment.text.toList) := by
  intro around unit
  constructor
  · have hfields := fieldsIn_unit profile routes screen
    exact hfields ▸ keepsBars_fields around screen
  -- A fragment is the code of its element alone, so its words are those of the bar.
  · intro i element p helement hwidget
    refine ⟨fragmentOf around element, ?_, rfl, ?_⟩
    · have hfragments : unit.fragments = (paintOrder screen.elements).map (fragmentOf around) := rfl
      rw [hfragments, List.getElem?_map, helement, Option.map_some]
    · have hcode : (fragmentOf around element).code =
          [positioned element.rect (bottomNavCode around p)] := by
        rw [fragmentOf, elementCode, hwidget]
      have hwhole := Expr.isWhole_of_isClosed (positioned element.rect (bottomNavCode around p))
        (by simp)
      rw [Fragment.text, hcode, List.map_singleton, String.intercalate_singleton,
        Expr.tokens_text hwhole]
      exact keepsToItself_bottomBar around element.rect p

end Wireframe.App
