/-
Where navigation bars lead.

A review compares what an entry names with the route ids of all screens; the code of the entry looks
for a screen; the file that an app starts with lists the routes.  All three agree on every entry: it
is blamed exactly if it does nothing, and else it leads to the one screen that it names, along a path
that the app knows.

* `filter_eq_singleton` — a key that tells the items of a list apart finds each of them;
* `path?_eq_none_iff`, `exists_of_path?_eq_some` — what a name leads to;
* `inertItems_eq` — the entries that do nothing are those that are blamed;
* `EntryAgrees`, `targets_agree` — all places agree.
-/
import Wireframe.Proofs.App.Agreement
import Wireframe.Proofs.App.Handlers
import Wireframe.Proofs.Review.Targets

namespace Wireframe.App

open Design Dart Review

/-- A key that differs on all items of a list finds each of them. -/
theorem filter_eq_singleton {α β : Type} [DecidableEq β] {key : α → β} {l : List α} {a : α}
    (h : (l.map key).Nodup) (ha : a ∈ l) : l.filter (key · = key a) = [a] := by
  induction l with
  | nil => cases ha
  | cons b rest ih =>
    obtain ⟨hb, hrest⟩ := List.nodup_cons.mp h
    rcases List.mem_cons.mp ha with rfl | ha
    · have hnone : rest.filter (key · = key a) = [] := by
        rw [List.filter_eq_nil_iff]
        intro c hc hkey
        exact hb (List.mem_map.mpr ⟨c, hc, of_decide_eq_true hkey⟩)
      rw [List.filter_cons_of_pos (by simp), hnone]
    · have hne : key b ≠ key a := fun heq => hb (heq ▸ List.mem_map_of_mem ha)
      rw [List.filter_cons_of_neg (by simpa using hne), ih hrest ha]

section Targets

variable {project : Project}

/-! ### Screens -/

/-- The screens with the route id of a name. -/
def namesakes (project : Project) (name : String) : List Screen :=
  project.screens.filter (routeId ·.name = routeId name)

theorem namesakes_of_mem (h : HasDistinctScreens project) {screen : Screen}
    (hscreen : screen ∈ project.screens) : namesakes project screen.name = [screen] :=
  filter_eq_singleton h.nodup_routeIds hscreen

theorem namesakes_congr {a b : String} (h : routeId a = routeId b) :
    namesakes project a = namesakes project b := by
  rw [namesakes, h]
  rfl

theorem namesakes_eq_nil_iff {name : String} :
    namesakes project name = [] ↔ routeId name ∉ project.screens.map (routeId ·.name) := by
  simp [namesakes, List.filter_eq_nil_iff]

/-- A name leads to the first screen with its route id. -/
theorem resolve?_eq (name : String) : (Routes.ofProject project).resolve? name =
    (namesakes project name).head?.map Routes.ofScreen := by
  have hid : (fun route : Route => route.names.routeId == routeId name) ∘ Routes.ofScreen =
      fun screen => decide (routeId screen.name = routeId name) := by
    funext screen
    rw [Function.comp_apply, beq_eq_decide]
    rfl
  rw [Routes.resolve?, Routes.ofProject, List.find?_map, hid, namesakes, List.head?_filter]

theorem path?_eq (name : String) : (Routes.ofProject project).path? name =
    (namesakes project name).head?.map (routePath ·.name) := by
  rw [Routes.path?, resolve?_eq, Option.map_map]
  rfl

theorem path?_eq_none_iff {name : String} : (Routes.ofProject project).path? name = none ↔
    routeId name ∉ project.screens.map (routeId ·.name) := by
  rw [path?_eq, Option.map_eq_none_iff, List.head?_eq_none_iff, namesakes_eq_nil_iff]

/-- What a name leads to is the only screen with its route id. -/
theorem exists_of_path?_eq_some (h : HasDistinctScreens project) {name path : String}
    (hpath : (Routes.ofProject project).path? name = some path) :
    ∃ screen ∈ project.screens,
      namesakes project name = [screen] ∧ path = routePath screen.name := by
  rw [path?_eq] at hpath
  obtain ⟨screen, hhead, rfl⟩ := Option.map_eq_some_iff.mp hpath
  obtain ⟨hscreen, hid⟩ := List.mem_filter.mp (List.mem_of_head? hhead)
  refine ⟨screen, hscreen, ?_, rfl⟩
  rw [← namesakes_congr (of_decide_eq_true hid), namesakes_of_mem h hscreen]

/-- A screen is what its name leads to. -/
theorem resolve?_name (h : HasDistinctScreens project) {screen : Screen}
    (hscreen : screen ∈ project.screens) :
    (Routes.ofProject project).resolve? screen.name = some (Routes.ofScreen screen) := by
  rw [resolve?_eq, namesakes_of_mem h hscreen]
  rfl

theorem isPathText_of_path? {name path : String}
    (hpath : (Routes.ofProject project).path? name = some path) : isPathText path := by
  rw [path?_eq] at hpath
  obtain ⟨screen, -, rfl⟩ := Option.map_eq_some_iff.mp hpath
  exact isPathText_routePath screen.name

/-! ### Entries -/

/-- The entries that do nothing. -/
def inertItems (items : List NavItem) (handlers : List Expr) : List NavItem :=
  (items.zip handlers).filterMap fun (item, handler) =>
    if handler.text = "null" then some item else none

theorem inertItems_mapIdx {items : List NavItem} {handler : Nat → NavItem → Expr}
    {p : NavItem → Bool} (h : ∀ i item, (handler i item).text = "null" ↔ p item = true) :
    inertItems items (items.mapIdx handler) = items.filter p := by
  induction items generalizing handler with
  | nil => rfl
  | cons item rest ih =>
    -- the entries that follow have their numbers counted from one
    have hrest := ih fun i => h (i + 1)
    unfold inertItems at hrest ⊢
    rw [List.mapIdx_cons, List.zip_cons_cons, List.filterMap_cons, hrest]
    cases hp : p item with
    | true => simp [(h 0 item).mpr hp, hp]
    | false => simp [mt (h 0 item).mp (by simp [hp]), hp]

theorem text_eq_null_iff {widget : Widget} {current : String} {i : Nat} {item : NavItem} :
    (entryHandler ⟨Routes.ofProject project, current⟩ widget i item).text = "null" ↔
      routeId item.targetScreen ∉ project.screens.map (routeId ·.name) := by
  rw [← path?_eq_none_iff]
  exact text_entryHandler_eq_null_iff fun _ => isPathText_of_path?

theorem isOverlay_of_mem_navItems {widget : Widget} {item : NavItem} (h : item ∈ navItems widget) :
    widget.isOverlay = true := by
  cases hasEntry_iff.mpr h <;> rfl

/-- The entries that do nothing are those that a review blames. -/
theorem inertItems_eq (current : String) (element : Element) :
    inertItems (navItems element.widget)
        (fragmentOf ⟨Routes.ofProject project, current⟩ element).handlers =
      lostItems (project.screens.map (routeId ·.name)) element.widget := by
  by_cases h : element.widget.isOverlay = true
  · rw [handlers_fragmentOf h]
    refine inertItems_mapIdx ?_
    intro i item
    rw [text_eq_null_iff]
    simp
  · have hnone : navItems element.widget = [] :=
      List.eq_nil_iff_forall_not_mem.mpr fun _ hitem => h (isOverlay_of_mem_navItems hitem)
    rw [lostItems, hnone]
    rfl

theorem mem_targetIssues_iff {screen : Screen} {element : Element} {item : NavItem}
    (hscreen : screen ∈ project.screens) (helement : element ∈ screen.elements)
    (hitem : item ∈ navItems element.widget) :
    targetIssue (.element screen.name element.id) item ∈ (check false project).targetIssues ↔
      routeId item.targetScreen ∉ project.screens.map (routeId ·.name) := by
  rw [targetIssues_eq]
  constructor
  · intro h
    obtain ⟨other, -, h⟩ := List.mem_flatMap.mp h
    obtain ⟨otherElement, -, h⟩ := List.mem_flatMap.mp h
    obtain ⟨otherItem, hother, heq⟩ := List.mem_map.mp h
    -- the blame may be that of another entry, but then it names the same screen
    have htarget : otherItem.targetScreen = item.targetScreen :=
      (Finding.unknownTargetScreen.inj (Issue.mk.inj heq).2.1).2
    rw [← htarget]
    simpa using (List.mem_filter.mp hother).2
  · intro h
    refine List.mem_flatMap.mpr ⟨screen, hscreen, List.mem_flatMap.mpr ⟨element, helement, ?_⟩⟩
    exact List.mem_map_of_mem (List.mem_filter.mpr ⟨hitem, by simpa using h⟩)

/-! ### Agreement -/

/-- What is said of an entry at all places: by what it does, by the review, and by the routes. -/
structure EntryAgrees (project : Project) (routes : List (String × String)) (place : Place)
    (widget : Widget) (i : Nat) (item : NavItem) (handler : Expr) : Prop where
  inert : handler.text = "null" ↔
    targetIssue place item ∈ (check false project).targetIssues
  leads : handler.text ≠ "null" → ∃ screen,
    project.screens.filter (routeId ·.name = routeId item.targetScreen) = [screen] ∧
      handler.text = leadText widget i (routePath screen.name) ∧
      routes.filter (·.1 = routePath screen.name) = [(routePath screen.name, className screen.name)]

theorem entryAgrees (h : HasDistinctScreens project) {screen : Screen} {element : Element}
    (hscreen : screen ∈ project.screens) (helement : element ∈ screen.elements) {i : Nat}
    {item : NavItem} (hitem : (navItems element.widget)[i]? = some item) (current : String) :
    EntryAgrees project (sourcesOf project).entry.routes (.element screen.name element.id)
      element.widget i item
      (entryHandler ⟨Routes.ofProject project, current⟩ element.widget i item) where
  inert := by
    rw [text_eq_null_iff, mem_targetIssues_iff hscreen helement (List.mem_of_getElem? hitem)]
  leads := by
    intro hnull
    have hsome := (text_entryHandler_eq_null_iff fun _ => isPathText_of_path?).not.mp hnull
    obtain ⟨path, hpath⟩ := Option.ne_none_iff_exists'.mp hsome
    obtain ⟨target, htarget, hnamesakes, rfl⟩ := exists_of_path?_eq_some h hpath
    refine ⟨target, hnamesakes, ?_, ?_⟩
    · rw [text_entryHandler fun _ => isPathText_of_path?, hpath]
      rfl
    · have hkeys : ((sourcesOf project).entry.routes.map (·.1)).Nodup := by
        rw [routes_entry, List.map_map]
        exact nodup_keys h
      refine filter_eq_singleton hkeys (a := (routePath target.name, className target.name)) ?_
      rw [routes_entry]
      exact List.mem_map.mpr ⟨_, List.mem_map_of_mem htarget, rfl⟩

/-- The code of an element does one thing for each entry of a navigation bar, on which all agree. -/
structure BarAgrees (project : Project) (routes : List (String × String)) (screen : Screen)
    (element : Element) (fragment : Fragment) : Prop where
  count : fragment.handlers.length = (navItems element.widget).length
  written : ∀ handler ∈ fragment.handlers, handler.IsTapIn fragment.text.toList
  entries : ∀ i item handler, (navItems element.widget)[i]? = some item →
    fragment.handlers[i]? = some handler →
    EntryAgrees project routes (.element screen.name element.id) element.widget i item handler

theorem barAgrees (h : HasDistinctScreens project) {screen : Screen} {element : Element}
    (hscreen : screen ∈ project.screens) (helement : element ∈ screen.elements)
    (hbar : element.widget.isOverlay = true) (current : String) :
    BarAgrees project (sourcesOf project).entry.routes screen element
      (fragmentOf ⟨Routes.ofProject project, current⟩ element) where
  count := by
    rw [handlers_fragmentOf hbar, List.length_mapIdx]
  written := (fragmentOf ⟨Routes.ofProject project, current⟩ element).isTapIn_text
  entries := by
    intro i item handler hitem hhandler
    rw [handlers_fragmentOf hbar, List.getElem?_mapIdx, hitem, Option.map_some] at hhandler
    rw [← Option.some.inj hhandler]
    exact entryAgrees h hscreen helement hitem current

/-- The code of a screen and the review agree on its navigation bars. -/
structure ScreenAgrees (project : Project) (sources : Sources) (routes : List (String × String))
    (screen : Screen) : Prop where
  unit : screenUnit project.profile sources.routes screen ∈ sources.units
  fragments : (screenUnit project.profile sources.routes screen).fragments.Perm
    (screen.elements.map (fragmentOf ⟨sources.routes, routeId screen.name⟩))
  bars : ∀ element ∈ screen.elements, element.widget.isOverlay = true →
    BarAgrees project routes screen element
      (fragmentOf ⟨sources.routes, routeId screen.name⟩ element)
  /-- What entries do is written in the file of the screen. -/
  written : ∀ fragment ∈ (screenUnit project.profile sources.routes screen).fragments,
    ∀ handler ∈ fragment.handlers,
      handler.IsTapIn (screenUnit project.profile sources.routes screen).file.contents.toList
  /-- As many entries are blamed at the place of an element as do nothing. -/
  blames : ∀ id, (check false project).targetIssues.filter (·.place = .element screen.name id) =
    (screen.elements.filter (·.id = id)).flatMap fun element =>
      (inertItems (navItems element.widget)
        (fragmentOf ⟨sources.routes, routeId screen.name⟩ element).handlers).map
          (targetIssue (.element screen.name id))
  /-- The name of the screen leads to the screen, and to no other one. -/
  own : sources.routes.resolve? screen.name = some (Routes.ofScreen screen) ∧
    project.screens.filter (routeId ·.name = routeId screen.name) = [screen]

theorem screenAgrees (h : HasDistinctScreens project) {screen : Screen}
    (hscreen : screen ∈ project.screens) :
    ScreenAgrees project (sourcesOf project) (sourcesOf project).entry.routes screen where
  unit := List.mem_map_of_mem hscreen
  fragments := (List.mergeSort_perm screen.elements paintedBefore).map _
  bars _ helement hbar := barAgrees h hscreen helement hbar _
  written _ := isTapIn_unit
  blames := by
    intro id
    rw [targetIssues_at (filter_eq_singleton h.nodup_names hscreen)]
    refine List.flatMap_congr ?_
    intro element _
    exact congrArg _ (inertItems_eq (routeId screen.name) element).symm
  own := ⟨resolve?_name h hscreen, namesakes_of_mem h hscreen⟩

/-- For every design that there is code for, an entry of a navigation bar does nothing exactly if it
is blamed, and else replaces the screen by the only one with the route id that the entry names, along
a path that stands in the routes of the app for the class of that screen.  The blames of a review are
those of the entries that do nothing, in the order of screens, elements and entries, so that each
element has as many. -/
theorem targets_agree {sources : Sources} (h : generate project = .ok sources) :
    ∃ routes, routesIn sources.entry.file.contents = some routes ∧
      (∀ screen ∈ project.screens, ScreenAgrees project sources routes screen) ∧
      (check false project).targetIssues = project.screens.flatMap fun screen =>
        screen.elements.flatMap fun element =>
          (inertItems (navItems element.widget)
            (fragmentOf ⟨sources.routes, routeId screen.name⟩ element).handlers).map
              (targetIssue (.element screen.name element.id)) := by
  have hdistinct := generates_iff.mp ⟨sources, h⟩
  obtain rfl := eq_sourcesOf_of_generate h
  refine ⟨(sourcesOf project).entry.routes, ?_, fun _ => screenAgrees hdistinct, ?_⟩
  · rw [routesIn_sourcesOf, routes_entry]
  · rw [targetIssues_eq]
    refine List.flatMap_congr ?_
    intro screen _
    refine List.flatMap_congr ?_
    intro element _
    exact congrArg _ (inertItems_eq (routeId screen.name) element).symm

/-- A design with one entry that leads somewhere and one that does not. -/
def guidedTour : Project where
  screens := [
    { id := "1", name := "Old Town"
      elements := [
        { id := "bar", rect := ⟨0.0, 0.0, 0.3, 1.0⟩
          widget := .sidebar { items :=
            [{ text := "Walk", targetScreen := "old-town!" },
              { text := "Drive", targetScreen := "Garage" }] } }] },
    { id := "2", name := "Harbour" }]

theorem targets_agree_guidedTour : generate guidedTour = .ok (sourcesOf guidedTour) ∧
    (check false guidedTour).targetIssues =
      [.of (.unknownTargetScreen "Drive" "Garage") (.element "Old Town" "bar")] := by
  have hdistinct : HasDistinctScreens guidedTour :=
    ⟨List.cons_ne_nil _ _, by decide +kernel, by decide +kernel⟩
  have hgenerate := generate_of_distinct hdistinct
  obtain ⟨routes, -, -, hissues⟩ := targets_agree hgenerate
  refine ⟨hgenerate, ?_⟩
  rw [hissues]
  rfl

end Targets

end Wireframe.App
