/-
Where helpers are defined.

The file of a screen defines every helper that an element of the screen needs, each by its own code
and in one place, and no helper that none needs.  A table of helpers keeps the first definition of
each.

* `HelperTable.ofCalls`, `HelperTable.lookup_ofCalls` — tables after any calls;
* `HelperTable.contains_ofCalls`, `HelperTable.size_ofCalls` — which helpers they define, and how
  many;
* `helpers_ofElements_eq` — the table of a screen;
* `constructorsIn_unit` — the constructors that the file of a screen declares;
* `existsUnique_text` — the code of a helper stands in one place;
* `definesHelpers_unit` — a screen has the helpers that its elements need.
-/
import Wireframe.Proofs.App.HelperUse
import Wireframe.Proofs.App.StateFields

namespace Wireframe.App

open Dart Design

/-! ### Tables -/

namespace HelperTable

variable {δ : Type}

/-- The table after definitions were registered one after the other. -/
def ofCalls (calls : List (Helper × δ)) : HelperTable δ :=
  calls.foldl (fun table call => table.register call.1 call.2) {}

theorem lookup_cons (x : Helper) (entry : Helper × δ) (rest : List (Helper × δ)) :
    (entry :: rest).lookup x = if x = entry.1 then some entry.2 else rest.lookup x := by
  obtain ⟨key, value⟩ := entry
  rw [List.lookup_cons]
  by_cases hx : x = key
  · rw [if_pos hx, beq_iff_eq.mpr hx]
  · rw [if_neg hx, beq_eq_false_iff_ne.mpr hx]

theorem lookup_eq_none {entries : List (Helper × δ)} {x : Helper}
    (h : ∀ entry ∈ entries, x ≠ entry.1) : entries.lookup x = none := by
  induction entries with
  | nil => rfl
  | cons first rest ih =>
    obtain ⟨hfirst, hrest⟩ := List.forall_mem_cons.mp h
    rw [lookup_cons, if_neg hfirst, ih hrest]

/-- A definition that is added does not replace one that is there. -/
theorem lookup_place {entries : List (Helper × δ)} (h : InOrder entries) (helper : Helper)
    (definition : δ) (x : Helper) :
    (place helper definition entries).lookup x =
      (entries.lookup x).or (if x = helper then some definition else none) := by
  induction entries with
  | nil => rw [place, lookup_cons]; rfl
  | cons first rest ih =>
    obtain ⟨hfirst, hrest⟩ := List.pairwise_cons.mp h
    unfold place
    by_cases hless : helper.rank < first.1.rank
    · rw [if_pos hless, lookup_cons]
      by_cases hx : x = helper
      -- what comes later ranks higher
      · have hnone : (first :: rest).lookup x = none := by
          refine lookup_eq_none (List.forall_mem_cons.mpr ⟨?_, ?_⟩)
          · intro heq
            rw [← heq, hx] at hless
            exact Nat.lt_irrefl _ hless
          · intro entry hentry heq
            have hlater := hfirst entry hentry
            rw [← heq, hx] at hlater
            exact Nat.lt_asymm hless hlater
        rw [if_pos hx, if_pos hx, hnone, Option.none_or]
      · rw [if_neg hx, if_neg hx, Option.or_none]
    · rw [if_neg hless]
      by_cases hsame : helper.rank = first.1.rank
      · have hhelper := Helper.rank_injective hsame
        rw [if_pos hsame, lookup_cons]
        by_cases hx : x = helper
        · rw [if_pos (hx.trans hhelper), Option.some_or]
        · rw [if_neg hx, Option.or_none]
      · rw [if_neg hsame, lookup_cons, lookup_cons]
        by_cases hx : x = first.1
        · rw [if_pos hx, if_pos hx, Option.some_or]
        · rw [if_neg hx, if_neg hx, ih hrest]

/-- A table is in order, and holds for each helper the definition that was registered first. -/
theorem ofCalls_foldl (calls : List (Helper × δ)) {table : HelperTable δ}
    (h : InOrder table.entries) :
    InOrder (calls.foldl (fun table call => table.register call.1 call.2) table).entries ∧
      ∀ x, (calls.foldl (fun table call => table.register call.1 call.2) table).entries.lookup x =
        (table.entries.lookup x).or (calls.lookup x) := by
  induction calls generalizing table with
  | nil => exact ⟨h, fun x => by simp⟩
  | cons call rest ih =>
    have hplace : InOrder (table.register call.1 call.2).entries := h.place
    obtain ⟨horder, hlookup⟩ := ih hplace
    refine ⟨horder, fun x => ?_⟩
    rw [List.foldl_cons, hlookup, register, lookup_place h, Option.or_assoc, lookup_cons]
    split_ifs <;> rfl

/-- Registering keeps the order, and the first definition of each helper. -/
theorem lookup_ofCalls (calls : List (Helper × δ)) : InOrder (ofCalls calls).entries ∧
    ∀ helper, (ofCalls calls).entries.lookup helper = calls.lookup helper := by
  have hempty : InOrder ({} : HelperTable δ).entries := List.Pairwise.nil
  obtain ⟨horder, hlookup⟩ := ofCalls_foldl calls hempty
  exact ⟨horder, fun helper => (hlookup helper).trans Option.none_or⟩

theorem mem_keys_iff {entries : List (Helper × δ)} {helper : Helper} :
    helper ∈ entries.map (·.1) ↔ (entries.lookup helper).isSome := by
  induction entries with
  | nil => simp
  | cons first rest ih =>
    rw [List.map_cons, List.mem_cons, lookup_cons, ih]
    by_cases hfirst : helper = first.1 <;> simp [hfirst]

theorem mem_ofCalls_iff {calls : List (Helper × δ)} {helper : Helper} :
    helper ∈ (ofCalls calls).entries.map (·.1) ↔ helper ∈ calls.map (·.1) := by
  rw [mem_keys_iff, (lookup_ofCalls calls).2, mem_keys_iff]

/-- A helper is defined after some calls exactly if one of them was for it. -/
theorem contains_ofCalls {calls : List (Helper × δ)} {helper : Helper} :
    (ofCalls calls).contains helper = true ↔ helper ∈ calls.map (·.1) := by
  rw [← mem_ofCalls_iff, contains, List.any_eq_true, List.mem_map]
  simp only [decide_eq_true_iff]

/-- However often a helper was registered, it counts once. -/
theorem size_ofCalls (calls : List (Helper × δ)) :
    (ofCalls calls).size = (calls.map (·.1)).dedup.length := by
  have hkeys : ((ofCalls calls).entries.map (·.1)).Perm (calls.map (·.1)).dedup := by
    refine (List.perm_ext_iff_of_nodup (lookup_ofCalls calls).1.nodup (List.nodup_dedup _)).mpr ?_
    intro helper
    rw [mem_ofCalls_iff, List.mem_dedup]
  rw [size, ← hkeys.length_eq, List.length_map]

end HelperTable

theorem helpers_note (around : Surroundings) (state : ScreenState) (element : Element) :
    (state.note around element).helpers = (helper? element.widget).toList.foldl
      (fun table helper => table.register helper helper.classes) state.helpers := by
  have hhelper : (state.noteHelper element.widget).helpers = (helper? element.widget).toList.foldl
      (fun table helper => table.register helper helper.classes) state.helpers := by
    unfold ScreenState.noteHelper
    split
    next helper h => rw [h]; rfl
    next h => rw [h]; rfl
  rw [← hhelper, ScreenState.note]
  unfold ScreenState.noteBar
  split <;> rfl

/-- The helpers of a screen are registered element by element. -/
theorem helpers_ofElements_eq (around : Surroundings) (elements : List Element) :
    (ScreenState.ofElements around elements).helpers =
      .ofCalls ((elements.filterMap (helper? ·.widget)).map fun helper =>
        (helper, helper.classes)) := by
  -- the state that the fold starts with varies, so that the induction is on the elements alone
  have hrun (state : ScreenState) : (elements.foldl (ScreenState.note around) state).helpers =
      (elements.filterMap (helper? ·.widget)).foldl
        (fun table helper => table.register helper helper.classes) state.helpers := by
    induction elements generalizing state with
    | nil => rfl
    | cons element rest ih =>
      rw [List.foldl_cons, ih, helpers_note, List.filterMap_cons]
      cases helper? element.widget <;> rfl
  rw [HelperTable.ofCalls, List.foldl_map]
  exact hrun {}

/-- The helpers of a screen are those that its elements need. -/
theorem mem_unit_helpers {profile : Profile} {routes : Routes} {screen : Screen} {helper : Helper} :
    helper ∈ (screenUnit profile routes screen).helpers.map (·.1) ↔
      ∃ element ∈ screen.elements, Needs element.widget helper := by
  have hhelpers : (screenUnit profile routes screen).helpers =
      (ScreenState.ofElements ⟨routes, routeId screen.name⟩
        (paintOrder screen.elements)).helpers.entries := rfl
  rw [hhelpers, helpers_ofElements_eq, HelperTable.mem_ofCalls_iff, List.map_map]
  simp only [Function.comp_def, List.map_id', List.mem_filterMap, helper?_eq_some_iff,
    (paintOrder_perm screen.elements).mem_iff]

/-! ### Constructors -/

/-- The class of which a line declares the constructor. -/
def constructorOf? (line : List Char) : Option String :=
  ("  const ".toList.isPrefixOf? line).map fun rest => String.ofList (rest.takeWhile (· ≠ '('))

/-- The constructors that a file declares. -/
def constructorsIn (contents : String) : List String :=
  (linesOf contents).filterMap constructorOf?

theorem skipsMethods_constructorOf? : SkipsMethods constructorOf? := ⟨rfl, fun _ => rfl, rfl, rfl⟩

theorem constructorsIn_screenFile {classes : List ClassDecl}
    (h : ∀ c ∈ classes, c.outline.isClosed) :
    constructorsIn (fileText (screenFile classes)) =
      classes.flatMap fun c => (Outline.linesAll 2 c.body).filterMap constructorOf? := by
  have hlibrary : libraryLines.filterMap constructorOf? = [] := rfl
  have hend : [[]].filterMap constructorOf? = [] := rfl
  have hclass (c : ClassDecl) : (Outline.linesAll 0 [.blank, c.outline]).filterMap constructorOf? =
      (Outline.linesAll 2 c.body).filterMap constructorOf? := by
    have hhead : constructorOf? (classLine c) = none := rfl
    have hlast : [['\x7d']].filterMap constructorOf? = [] := rfl
    rw [Outline.linesAll, Outline.linesAll, Outline.linesAll, List.append_nil, List.filterMap_append,
      lines_class, List.filterMap_cons, hhead, List.filterMap_append, hlast, List.append_nil]
    rfl
  rw [constructorsIn, linesOf_screenFile h, List.filterMap_append, List.filterMap_append, hlibrary,
    hend, List.nil_append, List.append_nil]
  clear h
  induction classes with
  | nil => rfl
  | cons c rest ih =>
    rw [List.flatMap_cons, Outline.linesAll_append, List.filterMap_append, hclass, ih,
      List.flatMap_cons]

/-- The classes of a helper have one constructor. -/
theorem constructors_helper (helper : Helper) :
    helper.classes.flatMap (fun c => (Outline.linesAll 2 c.body).filterMap constructorOf?) =
      [helper.className] := by cases helper <;> rfl

theorem constructors_constructorLine {name : String} (h : '(' ∉ name.toList) :
    (Outline.linesAll 2 [constructorLine name ["super.key"]]).filterMap constructorOf? =
      [name] := by
  have hline : Outline.linesAll 2 [constructorLine name ["super.key"]] =
      ["  const ".toList ++ (name.toList ++ '(' :: "\x7bsuper.key\x7d);".toList)] := by
    simp [constructorLine, Outline.code, Outline.linesAll, Outline.lines, writePieces, Piece.write,
      Outline.margin]
  have hhead : "  const ".toList.isPrefixOf?
      ("  const ".toList ++ (name.toList ++ '(' :: "\x7bsuper.key\x7d);".toList)) =
      some (name.toList ++ '(' :: "\x7bsuper.key\x7d);".toList) :=
    List.isPrefixOf?_eq_some_iff_append_eq.mpr rfl
  have hname : (name.toList ++ '(' :: "\x7bsuper.key\x7d);".toList).takeWhile (· ≠ '(') =
      name.toList := by
    rw [List.takeWhile_append_of_pos]
    · simp
    · intro c hc
      refine decide_eq_true ?_
      rintro rfl
      exact h hc
  rw [hline, List.filterMap_cons, constructorOf?, hhead, Option.map_some, hname,
    String.ofList_toList]
  rfl

theorem constructors_stateFields (state : ScreenState) :
    (Outline.linesAll 2 (stateFields state)).filterMap constructorOf? = [] := by
  rw [stateFields, Outline.linesAll_append, List.filterMap_append, List.append_eq_nil_iff]
  constructor
  · cases state.sidebarVisible with
    | none => rfl
    | some visible => cases visible <;> rfl
  · cases state.navIndex with
    | none => rfl
    | some index =>
        have hline : Outline.linesAll 2 [.code ("int _navIndex = " ++ toString index ++ ";")] =
            ["  int _navIndex = ".toList ++ (toString index ++ ";").toList] := by
          simp [Outline.code, Outline.linesAll, Outline.lines, writePieces, Piece.write,
            Outline.margin]
        show (Outline.linesAll 2 [.code ("int _navIndex = " ++ toString index ++ ";")]).filterMap
          constructorOf? = []
        rw [hline]
        rfl

/-- The class of the widget that shows a screen. -/
def widgetClass (name : String) : ClassDecl :=
  classOf name "StatefulWidget" [[constructorLine name ["super.key"]],
    [Dart.override,
      .code ("State<" ++ name ++ "> createState() => " ++ stateClassName name ++ "();")]]

theorem constructors_widgetClass {name : String} (h : '(' ∉ name.toList) :
    (Outline.linesAll 2 (widgetClass name).body).filterMap constructorOf? = [name] := by
  have hbody : (widgetClass name).body = [constructorLine name ["super.key"]] ++
      [.blank, Dart.override] ++
        [.code ("State<" ++ name ++ "> createState() => " ++ stateClassName name ++ "();")] := rfl
  have habove : (Outline.linesAll 2 [.blank, Dart.override]).filterMap constructorOf? = [] := rfl
  have hcreation : Outline.linesAll 2 [.code ("State<" ++ name ++ "> createState() => " ++
      stateClassName name ++ "();")] =
      ["  State<".toList ++ (name ++ "> createState() => " ++ stateClassName name ++ "();").toList] := by
    simp [Outline.code, Outline.linesAll, Outline.lines, writePieces, Piece.write, Outline.margin]
  rw [hbody, Outline.linesAll_append, Outline.linesAll_append, List.filterMap_append,
    List.filterMap_append, constructors_constructorLine h, habove, hcreation]
  rfl

/-- The constructors that the file of a screen declares: those of its helpers, and its own. -/
theorem constructorsIn_unit (profile : Profile) (routes : Routes) (screen : Screen) :
    constructorsIn (screenUnit profile routes screen).file.contents =
      (screenUnit profile routes screen).helpers.map (·.1.className) ++
        [className screen.name] := by
  have htable := isHelperTable_ofElements ⟨routes, routeId screen.name⟩
    (paintOrder screen.elements)
  -- The classes of each helper have one constructor between them, that of the class which widgets
  -- use.
  have hhelpers : ((screenUnit profile routes screen).helpers.flatMap (·.2)).flatMap
      (fun c => (Outline.linesAll 2 c.body).filterMap constructorOf?) =
      (screenUnit profile routes screen).helpers.map (·.1.className) := by
    rw [List.flatMap_assoc, List.map_eq_flatMap]
    refine List.flatMap_congr ?_
    intro entry hentry
    rw [htable.defined entry hentry, constructors_helper]
  have hround : '(' ∉ (className screen.name).toList := by
    intro hmem
    exact absurd (isAlphanum_of_mem_className hmem) (by decide)
  -- The state of a screen has fields and methods, but no constructor of its own.
  have hstate : (Outline.linesAll 2 (stateClass routes profile screen).body).filterMap
      constructorOf? = [] := by
    rw [skipsMethods_constructorOf?.filterMap_stateClass rfl, constructors_stateFields]
  have hclasses : (screenUnit profile routes screen).classes =
      (screenUnit profile routes screen).helpers.flatMap (·.2) ++
        [widgetClass (className screen.name), stateClass routes profile screen] := rfl
  -- The file is the helpers, then the widget, then its state; only the first two declare
  -- constructors.
  rw [ScreenUnit.file, constructorsIn_screenFile fun c hc => isClosed_of_mem_unit_classes hc,
    hclasses, List.flatMap_append, hhelpers, List.flatMap_cons, List.flatMap_cons,
    constructors_widgetClass hround, hstate]
  rfl

/-- No class has two constructors. -/
theorem nodup_constructorsIn_unit (profile : Profile) (routes : Routes) (screen : Screen) :
    (constructorsIn (screenUnit profile routes screen).file.contents).Nodup := by
  have htable := isHelperTable_ofElements ⟨routes, routeId screen.name⟩
    (paintOrder screen.elements)
  have hnames : ((screenUnit profile routes screen).helpers.map (·.1.className)).Nodup := by
    have hmap : (screenUnit profile routes screen).helpers.map (·.1.className) =
      ((screenUnit profile routes screen).helpers.map (·.1)).map Helper.className := by
        rw [List.map_map]
        rfl
    rw [hmap]
    exact htable.inOrder.nodup.map fun _ _ => className_injective
  rw [constructorsIn_unit, List.nodup_append']
  refine ⟨hnames, List.nodup_singleton _, ?_⟩
  rw [List.disjoint_singleton]
  intro hmem
  obtain ⟨entry, -, hname⟩ := List.mem_map.mp hmem
  have hhead : ∀ helper : Helper, helper.className.toList.head? = some '_' := by
    intro helper
    cases helper <;> decide
  exact head?_className_ne screen.name (hname ▸ hhead entry.1)

/-! ### The code of a helper -/

/-- Classes below each other, as they stand in a file. -/
def classesText (classes : List ClassDecl) : String :=
  fileText (Text.joinWith [.blank] (classes.map fun c => [c.outline]))

/-- The second line of the code of a helper is that of its constructor. -/
theorem exists_constructor_line (helper : Helper) : ∃ first line others,
    (classesText helper.classes).toList = first ++ '\n' :: (line ++ '\n' :: others) ∧
      '\n' ∉ line ∧ constructorOf? line = some helper.className := by
  -- In all helpers the first class starts with its constructor.
  have hclass : ∃ c rest line lines, helper.classes = c :: rest ∧
      Outline.linesAll 2 c.body = line :: lines ∧ constructorOf? line = some helper.className := by
    cases helper <;> exact ⟨_, _, _, _, rfl, rfl, rfl⟩
  obtain ⟨c, rest, line, lines, hclasses, hbody, hconstructor⟩ := hclass
  -- The lines of the code start with the head of that class, so the constructor is on the second
  -- one.
  have hlines : ∃ others, others ≠ [] ∧
      linesOf (classesText helper.classes) = classLine c :: line :: others := by
    have hclosed : ∀ part ∈ helper.classes.map (fun c => [c.outline]), Outline.areClosed part := by
      intro part hpart
      obtain ⟨d, hd, rfl⟩ := List.mem_map.mp hpart
      simpa using isClosed_helper hd
    have hseparator : Outline.areClosed [.blank] := rfl
    have hwhole := Outline.areWhole_of_areClosed _ (areClosed_joinWith hseparator hclosed)
    obtain ⟨others, hothers⟩ : ∃ others, Text.joinWith [.blank]
        (helper.classes.map fun c => [c.outline]) = c.outline :: others := by
      rw [hclasses]
      cases rest <;> exact ⟨_, rfl⟩
    refine ⟨lines ++ [['\x7d']] ++ Outline.linesAll 0 others ++ [[]], by simp, ?_⟩
    rw [classesText, linesOf_fileText hwhole, hothers, Outline.linesAll, lines_class, hbody]
    simp
  obtain ⟨others, hne, hlines⟩ := hlines
  have hline : line ∈ linesOf (classesText helper.classes) := by
    rw [hlines]
    exact List.mem_cons_of_mem _ List.mem_cons_self
  refine ⟨classLine c, line, Text.joinWith ['\n'] others, ?_, Text.not_mem_of_mem_fields hline,
    hconstructor⟩
  -- A text is its lines with breaks between them.
  have htext : Text.joinWith ['\n'] (linesOf (classesText helper.classes)) =
      (classesText helper.classes).toList := Text.joinWith_fields _
  obtain ⟨next, after, rfl⟩ := List.exists_cons_of_ne_nil hne
  rw [← htext, hlines, Text.joinWith, Text.joinWith]
  simp

/-- Code with a line that declares a constructor stands in one place of a file that declares no
constructor twice. -/
theorem front_unique {contents : String} (hnodup : (constructorsIn contents).Nodup) {name : String}
    {first line others : List Char} (hline : '\n' ∉ line) (hname : constructorOf? line = some name)
    {front front' : List Char}
    (h : front ++ (first ++ '\n' :: (line ++ '\n' :: others)) <+: contents.toList)
    (h' : front' ++ (first ++ '\n' :: (line ++ '\n' :: others)) <+: contents.toList) :
    front = front' := by
  have hsplit {before : List Char}
      (hbefore : before ++ (first ++ '\n' :: (line ++ '\n' :: others)) <+: contents.toList) :
      ∃ after, linesOf contents = Text.fields '\n' (before ++ first) ++ line :: after := by
    obtain ⟨back, hback⟩ := hbefore
    have hcontents : contents.toList =
        (before ++ first) ++ '\n' :: (line ++ '\n' :: (others ++ back)) := by
      rw [← hback]
      simp
    refine ⟨Text.fields '\n' (others ++ back), ?_⟩
    rw [linesOf, hcontents, Text.fields_append_cons, Text.fields_append_cons,
      Text.fields_of_not_mem hline]
    rfl
  obtain ⟨after, hlines⟩ := hsplit h
  obtain ⟨after', hlines'⟩ := hsplit h'
  -- the constructor is declared in this line and in no other
  have honce : name ∉ (Text.fields '\n' (front ++ first) ++ after).filterMap constructorOf? := by
    rw [constructorsIn, hlines, List.filterMap_append, List.filterMap_cons, hname] at hnodup
    rw [List.filterMap_append]
    exact (List.nodup_cons.mp (List.nodup_middle.mp hnodup)).1
  have hfront : line ∉ Text.fields '\n' (front ++ first) := fun hmem =>
    honce (List.mem_filterMap.mpr ⟨line, List.mem_append_left _ hmem, hname⟩)
  have hafter : line ∉ after := fun hmem =>
    honce (List.mem_filterMap.mpr ⟨line, List.mem_append_right _ hmem, hname⟩)
  rw [hlines] at hlines'
  obtain ⟨hfields, -, -⟩ := (List.append_cons_inj_of_notMem hfront hafter).mp hlines'
  exact List.append_cancel_right (Text.fields_injective hfields)

/-- The code of classes that stand below each other in a file. -/
theorem exists_front {before classes after : List ClassDecl} (hne : classes ≠ []) :
    ∃ front, front ++ (classesText classes).toList <+:
      (fileText (screenFile (before ++ (classes ++ after)))).toList := by
  have hclasses : classes.flatMap (fun c => [Outline.blank, c.outline]) =
      .blank :: Text.joinWith [.blank] (classes.map fun c => [c.outline]) := by
    have hmap : classes.map (fun c => [c.outline]) ≠ [] := by simpa using hne
    rw [Text.cons_joinWith _ hmap, List.flatMap_map]
  have hblank (os : List Outline) : Outline.writeAll 0 (.blank :: os) =
      ['\n'] ++ Outline.writeAll 0 os := rfl
  rw [screenFile, List.flatMap_append, List.flatMap_append, hclasses, fileText, classesText,
    fileText, String.toList_ofList, String.toList_ofList, Outline.writeAll_append,
    Outline.writeAll_append, Outline.writeAll_append,
    hblank]
  refine ⟨Outline.writeAll 0 [banner, importLine "package:flutter/material.dart",
    importLine "package:url_launcher/url_launcher.dart"] ++
      (Outline.writeAll 0 (before.flatMap fun c => [.blank, c.outline]) ++ ['\n']),
    Outline.writeAll 0 (after.flatMap fun c => [.blank, c.outline]), ?_⟩
  simp only [List.append_assoc]

/-- The code of a helper of a screen stands in one place of its file. -/
theorem existsUnique_text {profile : Profile} {routes : Routes} {screen : Screen}
    {entry : Helper × List ClassDecl} (h : entry ∈ (screenUnit profile routes screen).helpers) :
    ∃! front, front ++ (classesText entry.2).toList <+:
      (screenUnit profile routes screen).file.contents.toList := by
  have hdefined : entry.2 = entry.1.classes :=
    (isHelperTable_ofElements ⟨routes, routeId screen.name⟩ (paintOrder screen.elements)).defined
      entry h
  obtain ⟨before, after, hentries⟩ := List.append_of_mem h
  -- The code of the helper is a run of the classes of the file, with others before and after it.
  have hclasses : (screenUnit profile routes screen).classes =
      before.flatMap (·.2) ++ (entry.2 ++ (after.flatMap (·.2) ++
        [widgetClass (className screen.name), stateClass routes profile screen])) := by
    have hunit : (screenUnit profile routes screen).classes =
        (screenUnit profile routes screen).helpers.flatMap (·.2) ++
          [widgetClass (className screen.name), stateClass routes profile screen] := rfl
    rw [hunit, hentries, List.flatMap_append, List.flatMap_cons]
    simp only [List.append_assoc]
  have hne : entry.2 ≠ [] := by
    rw [hdefined]
    cases entry.1 <;> exact List.cons_ne_nil _ _
  obtain ⟨front, hfront⟩ : ∃ front, front ++ (classesText entry.2).toList <+:
      (screenUnit profile routes screen).file.contents.toList := by
    rw [ScreenUnit.file, hclasses]
    exact exists_front hne
  -- The line of its constructor occurs once in the file, which leaves one place for the code around
  -- it.
  obtain ⟨first, line, others, htext, hline, hname⟩ := exists_constructor_line entry.1
  refine ⟨front, hfront, ?_⟩
  intro front' hfront'
  rw [hdefined, htext] at hfront hfront'
  exact front_unique (nodup_constructorsIn_unit profile routes screen) hline hname hfront' hfront

/-! ### Screens -/

/-- A screen defines the helpers that its elements need: in their order, each once and by its own
code, and those that its elements name. -/
structure DefinesHelpers (screen : Screen) (unit : ScreenUnit) : Prop where
  inOrder : HelperTable.InOrder unit.helpers
  needed_iff : ∀ helper, helper ∈ unit.helpers.map (·.1) ↔
    ∃ element ∈ screen.elements, Needs element.widget helper
  defined : ∀ entry ∈ unit.helpers, entry.2 = entry.1.classes
  once : ∀ entry ∈ unit.helpers,
    ∃! front, front ++ (classesText entry.2).toList <+: unit.file.contents.toList
  named_iff : ∀ helper, helper ∈ unit.helpers.map (·.1) ↔
    ∃ fragment ∈ unit.fragments, .word helper.className ∈ tokens fragment.text.toList

/-- The file of a screen defines the helpers that its elements need, and a table of helpers keeps
their order and the first definition of each, whatever is registered. -/
theorem definesHelpers_unit (profile : Profile) (routes : Routes) (screen : Screen) :
    DefinesHelpers screen (screenUnit profile routes screen) ∧
      ∀ (δ : Type) (calls : List (Helper × δ)),
        HelperTable.InOrder (HelperTable.ofCalls calls).entries ∧
          ∀ helper, (HelperTable.ofCalls calls).entries.lookup helper = calls.lookup helper := by
  have htable := isHelperTable_ofElements ⟨routes, routeId screen.name⟩
    (paintOrder screen.elements)
  refine ⟨⟨htable.inOrder, fun _ => mem_unit_helpers, htable.defined,
    fun _ => existsUnique_text, ?_⟩, fun _ calls => HelperTable.lookup_ofCalls calls⟩
  intro helper
  have hfragments : (screenUnit profile routes screen).fragments =
      (paintOrder screen.elements).map (fragmentOf ⟨routes, routeId screen.name⟩) := rfl
  rw [mem_unit_helpers, hfragments]
  simp only [List.mem_map, exists_exists_and_eq_and]
  refine exists_congr fun element => ?_
  rw [← mem_usedHelpers, usedHelpers_fragmentOf, Option.mem_toList, helper?_eq_some_iff,
    (paintOrder_perm screen.elements).mem_iff]

end Wireframe.App
