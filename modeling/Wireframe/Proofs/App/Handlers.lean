/-
What navigation bars do when they are tapped.

Whatever an element does when it is tapped stands behind a label in its code.  In the code of a
navigation bar there is one such place for each entry, in the order of the entries.

* `Expr.taps`, `Expr.isTapIn_write` — what an expression does when it is tapped, and where that is
  written;
* `Outline.items`, `Outline.isTapIn_write` — the same for outlines;
* `Fragment.handlers`, `handlers_fragmentOf` — what the code of an element does;
* `isTapIn_unit` — that is written in the file of the screen;
* `text_entryHandler` — what it says for an entry.
-/
import Wireframe.Proofs.App.Paths

namespace Wireframe.Dart.Expr

mutual

/-- What an expression does when it is tapped. -/
def taps : Expr → List Expr
  | .inline _ => []
  | .closure _ => []
  | .named label value => if label = "onTap" then [value] else taps value
  | .call _ args => tapsAll args
  | .list items => tapsAll items

/-- What expressions do when they are tapped. -/
def tapsAll : List Expr → List Expr
  | [] => []
  | e :: rest => taps e ++ tapsAll rest

end

theorem tapsAll_eq_flatMap (es : List Expr) : tapsAll es = es.flatMap taps := by
  induction es with
  | nil => rfl
  | cons e rest ih => rw [tapsAll, ih, List.flatMap_cons]

/-- Somewhere in a text stands that something is done when something is tapped. -/
def IsTapIn (handler : Expr) (text : List Char) : Prop :=
  ∃ n, "onTap: ".toList ++ handler.write n <:+: text

theorem IsTapIn.widen {text longer : List Char} {handler : Expr} (h : handler.IsTapIn text)
    (hlonger : text <:+: longer) : handler.IsTapIn longer := by
  obtain ⟨n, hn⟩ := h
  exact ⟨n, hn.trans hlonger⟩

mutual

/-- What an expression does when it is tapped is written in it. -/
theorem isTapIn_write (n : Nat) (e : Expr) : ∀ handler ∈ e.taps, handler.IsTapIn (e.write n) := by
  intro handler h
  match e with
  | .inline _ => cases h
  | .closure _ => cases h
  | .named label value =>
    rw [taps] at h
    split_ifs at h with hlabel
    · rw [List.mem_singleton.mp h, hlabel]
      exact ⟨n, List.infix_refl _⟩
    · exact (isTapIn_write n value handler h).widen
        ⟨label.toList ++ [':', ' '], [], by simp [write]⟩
  | .call _ [] => cases h
  | .call head (arg :: args) =>
    exact (isTapIn_writeLines (n + 2) (arg :: args) handler h).widen
      ⟨head.toList ++ ['('], newLine n ++ [')'], by simp [write]⟩
  | .list [] => cases h
  | .list (item :: items) =>
    exact (isTapIn_writeLines (n + 2) (item :: items) handler h).widen
      ⟨['['], newLine n ++ [']'], by simp [write]⟩

theorem isTapIn_writeLines (n : Nat) (es : List Expr) :
    ∀ handler ∈ tapsAll es, handler.IsTapIn (writeLines n es) := by
  intro handler h
  match es with
  | [] => cases h
  | e :: rest =>
    rcases List.mem_append.mp h with h | h
    · exact (isTapIn_write n e handler h).widen
        ⟨newLine n, ',' :: writeLines n rest, by simp [writeLines]⟩
    · exact (isTapIn_writeLines n rest handler h).widen
        ⟨newLine n ++ e.write n ++ [','], [], by simp [writeLines]⟩

end

end Wireframe.Dart.Expr

namespace Wireframe.Dart.Outline

mutual

/-- The expressions that stand on lines of their own. -/
def items : Outline → List Expr
  | .blank => []
  | .line _ => []
  | .item value => [value]
  | .group _ body _ => itemsAll body

/-- The expressions that stand on lines of their own in some outlines. -/
def itemsAll : List Outline → List Expr
  | [] => []
  | o :: rest => items o ++ itemsAll rest

end

theorem itemsAll_eq_flatMap (os : List Outline) : itemsAll os = os.flatMap items := by
  induction os with
  | nil => rfl
  | cons o rest ih => rw [itemsAll, ih, List.flatMap_cons]

mutual

/-- What the expressions of an outline do when they are tapped is written in it. -/
theorem isTapIn_write (n : Nat) (o : Outline) : ∀ e ∈ o.items, ∀ handler ∈ e.taps,
    handler.IsTapIn (o.write n) := by
  intro e he handler h
  match o with
  | .blank => cases he
  | .line _ => cases he
  | .item value =>
    rw [List.mem_singleton.mp he] at h
    exact (value.isTapIn_write n handler h).widen ⟨margin n, [',', '\n'], by simp [write]⟩
  | .group heads body tail =>
    exact (isTapIn_writeAll (n + 2) body e he handler h).widen
      ⟨margin n ++ writeHeads heads ++ ['\n'],
        margin n ++ writeClosing heads ++ tail.toList ++ ['\n'], by simp [write]⟩

theorem isTapIn_writeAll (n : Nat) (os : List Outline) : ∀ e ∈ itemsAll os, ∀ handler ∈ e.taps,
    handler.IsTapIn (writeAll n os) := by
  intro e he handler h
  match os with
  | [] => cases he
  | o :: rest =>
    rcases List.mem_append.mp he with he | he
    · exact (isTapIn_write n o e he handler h).widen (List.prefix_append _ _).isInfix
    · exact (isTapIn_writeAll n rest e he handler h).widen (List.suffix_append _ _).isInfix

end

end Wireframe.Dart.Outline

namespace Wireframe.App

open Dart Design Review

/-! ### Elements -/

/-- What the code of an element does when it is tapped. -/
def Fragment.handlers (fragment : Fragment) : List Expr := fragment.code.flatMap Expr.taps

theorem infix_intercalate {separator : List Char} {parts : List (List Char)} {part : List Char}
    (h : part ∈ parts) : part <:+: separator.intercalate parts := by
  induction parts with
  | nil => cases h
  | cons first rest ih =>
    cases rest with
    | nil =>
      rw [List.mem_singleton.mp h, List.intercalate_singleton]
    | cons second rest =>
      rw [List.intercalate_cons_cons]
      rcases List.mem_cons.mp h with rfl | h
      · exact (List.infix_append' [] part _).trans (List.infix_append' [] _ _)
      · exact (ih h).trans (List.suffix_append _ _).isInfix

theorem Fragment.isTapIn_text (fragment : Fragment) :
    ∀ handler ∈ fragment.handlers, handler.IsTapIn fragment.text.toList := by
  intro handler h
  obtain ⟨e, he, hhandler⟩ := List.mem_flatMap.mp h
  refine (Expr.isTapIn_write 0 e handler hhandler).widen ?_
  rw [Fragment.text, String.toList_intercalate]
  refine infix_intercalate (List.mem_map.mpr ⟨e.text, List.mem_map_of_mem he, ?_⟩)
  exact String.toList_ofList

theorem items_screenBuild (profile : Profile) (fragments : List Fragment) :
    Outline.itemsAll (screenBuild profile fragments) = fragments.flatMap Fragment.code := by
  have hlines (es : List Expr) : Outline.itemsAll (es.map .item) = es := by
    rw [Outline.itemsAll_eq_flatMap, List.flatMap_map]
    exact List.flatMap_singleton' es
  simp [screenBuild, overriding, parens, braces, brackets, override, Outline.code,
    Outline.itemsAll, Outline.items, hlines]

theorem mem_items_screenClasses (className : String) (profile : Profile) (state : ScreenState)
    {fragments : List Fragment} {e : Expr} (h : e ∈ fragments.flatMap Fragment.code) :
    ∃ c ∈ screenClasses className profile state fragments, e ∈ c.outline.items := by
  -- the method that builds the screen stands last in the class of its state
  refine ⟨_, List.mem_cons_of_mem _ (List.mem_singleton_self _), ?_⟩
  rw [← items_screenBuild profile fragments] at h
  show e ∈ Outline.itemsAll (Text.joinWith [.blank] (if (stateFields state).isEmpty then
    [screenBuild profile fragments] else [stateFields state, screenBuild profile fragments]))
  split
  · exact h
  · rw [Outline.itemsAll_eq_flatMap] at h ⊢
    rw [Text.joinWith, Text.joinWith, List.flatMap_append]
    exact List.mem_append_right _ h

/-- What the elements of a screen do when they are tapped is written in the file of the screen. -/
theorem isTapIn_unit {profile : Profile} {routes : Routes} {screen : Screen} {fragment : Fragment}
    (hfragment : fragment ∈ (screenUnit profile routes screen).fragments) :
    ∀ handler ∈ fragment.handlers,
      handler.IsTapIn (screenUnit profile routes screen).file.contents.toList := by
  intro handler h
  obtain ⟨e, he, hhandler⟩ := List.mem_flatMap.mp h
  have hcode := List.mem_flatMap.mpr ⟨fragment, hfragment, he⟩
  obtain ⟨c, hc, hitem⟩ := mem_items_screenClasses (className screen.name) profile
    (ScreenState.ofElements ⟨routes, routeId screen.name⟩ (paintOrder screen.elements)) hcode
  have hclass : c ∈ (screenUnit profile routes screen).classes := List.mem_append_right _ hc
  have hline : e ∈ Outline.itemsAll (screenFile (screenUnit profile routes screen).classes) := by
    rw [Outline.itemsAll_eq_flatMap, screenFile, List.flatMap_append, List.mem_append]
    refine .inr (List.mem_flatMap.mpr ⟨c.outline, ?_, hitem⟩)
    exact List.mem_flatMap.mpr ⟨c, hclass, List.mem_cons_of_mem _ (List.mem_singleton_self _)⟩
  have hfile : (screenUnit profile routes screen).file.contents.toList =
      Outline.writeAll 0 (screenFile (screenUnit profile routes screen).classes) :=
    String.toList_ofList
  rw [hfile]
  exact Outline.isTapIn_writeAll 0 _ e hline handler hhandler

/-- What entry number `i` of a navigation bar does. -/
def entryHandler (around : Surroundings) (widget : Widget) (i : Nat) (item : NavItem) : Expr :=
  match widget with
  | .sidebar _ => sidebarHandler (around.routes.path? item.targetScreen)
  | _ => bottomHandler i (around.routes.path? item.targetScreen)

section Bars

variable {around : Surroundings} {rect : Rect .canvas}

theorem taps_sidebarEntry (p : SidebarProps) (item : NavItem) :
    (sidebarEntry around p item).taps =
      [sidebarHandler (around.routes.path? item.targetScreen)] := rfl

theorem taps_sidebarPanel (p : SidebarProps) : (sidebarPanel around rect p).taps =
    p.items.map fun item => sidebarHandler (around.routes.path? item.targetScreen) := by
  have hpanel : (sidebarPanel around rect p).taps =
      Expr.tapsAll (p.items.map (sidebarEntry around p)) ++ [] ++ [] ++ [] := rfl
  rw [hpanel, Expr.tapsAll_eq_flatMap, List.flatMap_map]
  simp only [taps_sidebarEntry, List.append_nil]
  exact List.map_eq_flatMap.symm

theorem taps_sidebarToggle (p : SidebarProps) : (sidebarToggle rect p).taps = [] := rfl

theorem taps_bottomEntry (p : BottomNavProps) (i : Nat) (item : NavItem) :
    (bottomEntry around p i item).taps =
      [bottomHandler i (around.routes.path? item.targetScreen)] := rfl

theorem taps_bottomNav (p : BottomNavProps) : (positioned rect (bottomNavCode around p)).taps =
    p.items.mapIdx fun i item => bottomHandler i (around.routes.path? item.targetScreen) := by
  have hbar : (positioned rect (bottomNavCode around p)).taps =
      Expr.tapsAll (p.items.mapIdx (bottomEntry around p)) ++ [] ++ [] ++ [] := rfl
  rw [hbar, Expr.tapsAll_eq_flatMap, List.append_nil, List.append_nil, List.append_nil,
    List.mapIdx_eq_zipIdx_map, List.mapIdx_eq_zipIdx_map, List.flatMap_map]
  simp only [taps_bottomEntry]
  exact List.map_eq_flatMap.symm

/-- A navigation bar does one thing for each of its entries. -/
theorem handlers_fragmentOf {element : Element} (h : element.widget.isOverlay = true) :
    (fragmentOf around element).handlers =
      (navItems element.widget).mapIdx (entryHandler around element.widget) := by
  obtain ⟨id, rect, zIndex, widget⟩ := element
  cases widget with
  -- the button beside the bar is pressed, not tapped
  | sidebar p =>
    have hcode : (fragmentOf around ⟨id, rect, zIndex, .sidebar p⟩).handlers =
        (sidebarPanel around rect p).taps ++ ((sidebarToggle rect p).taps ++ []) := rfl
    rw [hcode, taps_sidebarPanel, taps_sidebarToggle]
    refine List.ext_getElem? ?_
    intro i
    rw [List.append_nil, List.append_nil, List.getElem?_map, List.getElem?_mapIdx]
    rfl
  | bottomNav p =>
    have hcode : (fragmentOf around ⟨id, rect, zIndex, .bottomNav p⟩).handlers =
        (positioned rect (bottomNavCode around p)).taps ++ [] := rfl
    rw [hcode, taps_bottomNav, List.append_nil]
    rfl
  | _ => cases h

end Bars

/-! ### Entries -/

/-- What replaces the screen by the one at a path, as a text. -/
def replaceText (path : String) : String :=
  "Navigator.pushReplacementNamed(context, '" ++ path ++ "')"

/-- What an entry says that leads to a path, entry number `i` of a navigation bar. -/
def leadText (widget : Widget) (i : Nat) (path : String) : String :=
  match widget with
  | .sidebar _ => "() => " ++ replaceText path
  | _ => "() \x7b\n  setState(() => _navIndex = " ++ toString i ++ ");\n  " ++ replaceText path ++
      ";\n\x7d"

theorem leadText_ne_null (widget : Widget) (i : Nat) (path : String) :
    leadText widget i path ≠ "null" := by
  intro h
  -- what leads somewhere is a function, which starts with a bracket
  have hhead := congrArg (·.toList.head?) h
  cases widget <;> simp [leadText] at hhead

theorem writePieces_replacePieces {path : String} (h : isPathText path) :
    writePieces (replacePieces path) = (replaceText path).toList := by
  have hpieces : writePieces (replacePieces path) =
      "Navigator.pushReplacementNamed(context, ".toList ++ (quote path ++ (")".toList ++ [])) := rfl
  rw [hpieces, quote_of_isPathText h]
  unfold replaceText
  simp

theorem text_sidebarHandler {path : String} (h : isPathText path) :
    (sidebarHandler (some path)).text = "() => " ++ replaceText path := by
  have hwrite : (sidebarHandler (some path)).write 0 =
      "() => ".toList ++ writePieces (replacePieces path) := by
    rw [sidebarHandler, Expr.write]
    rfl
  rw [← String.toList_inj, Expr.text, hwrite, writePieces_replacePieces h, String.toList_ofList,
    String.toList_append]

theorem text_bottomHandler (i : Nat) {path : String} (h : isPathText path) :
    (bottomHandler i (some path)).text =
      "() \x7b\n  setState(() => _navIndex = " ++ toString i ++ ");\n  " ++ replaceText path ++
        ";\n\x7d" := by
  have hraw (code : String) : writePieces [.raw code] = code.toList := List.append_nil _
  rw [← String.toList_inj, Expr.text, bottomHandler, Expr.write, String.toList_ofList]
  simp [writePieces_replacePieces h, hraw, newLine]

/-- An entry does nothing if no path is known for what it names, and else leads along that path. -/
theorem text_entryHandler {around : Surroundings} {widget : Widget} {i : Nat} {item : NavItem}
    (h : ∀ path, around.routes.path? item.targetScreen = some path → isPathText path) :
    (entryHandler around widget i item).text =
      ((around.routes.path? item.targetScreen).map (leadText widget i)).getD "null" := by
  unfold entryHandler
  cases hpath : around.routes.path? item.targetScreen with
  | none => cases widget <;> rfl
  | some path =>
    cases widget with
    | sidebar p => exact text_sidebarHandler (h path hpath)
    | _ => exact text_bottomHandler i (h path hpath)

theorem text_entryHandler_eq_null_iff {around : Surroundings} {widget : Widget} {i : Nat}
    {item : NavItem}
    (h : ∀ path, around.routes.path? item.targetScreen = some path → isPathText path) :
    (entryHandler around widget i item).text = "null" ↔
      around.routes.path? item.targetScreen = none := by
  rw [text_entryHandler h]
  cases around.routes.path? item.targetScreen with
  | none => exact ⟨fun _ => rfl, fun _ => rfl⟩
  | some path => simp [leadText_ne_null]

end Wireframe.App
