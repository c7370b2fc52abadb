/-
Entries of navigation bars whose target is blank.

No screen has a blank name, but what is compared are route ids, and a name without letters and digits
has one too: the word for a screen.  A screen whose name comes down to that word is what all blank
targets lead to.  In a design without such a screen they lead nowhere and are blamed.

* `runs_eq_nil_iff` — texts without words;
* `IsNameless`, `routeId_eq_screen_iff` — the names that come down to the word for a screen;
* `isNameless_of_isBlankText` — blank names are among them;
* `BlankEntry`, `blank_targets` — what becomes of an entry with a blank target.
-/
import Wireframe.Proofs.App.Targets

namespace Wireframe.App

open Design Dart Review

/-! ### Names -/

theorem runs_eq_nil_iff {p : Char → Bool} {cs : List Char} :
    Text.runs p cs = [] ↔ ∀ c ∈ cs, p c = false := by
  induction cs with
  | nil => simp [Text.runs]
  | cons c rest ih =>
    rw [List.forall_mem_cons]
    cases hc : p c with
    | false => rw [Text.runs_cons_of_not hc, ih, eq_self, true_and]
    | true =>
      -- a character of the class makes a run or lengthens one
      refine iff_of_false ?_ (by simp)
      unfold Text.runs
      rw [if_pos hc]
      split
      · split <;> exact List.cons_ne_nil _ _
      · exact List.cons_ne_nil _ _

/-- A name without letters and digits of ASCII, or with the word for a screen alone. -/
def IsNameless (name : String) : Prop :=
  (∀ c ∈ name.toList, (baseLetter c).isAlphanum = false) ∨ nameWords name = [screenWord]

theorem nameWords_eq_nil_iff {name : String} :
    nameWords name = [] ↔ ∀ c ∈ name.toList, (baseLetter c).isAlphanum = false := by
  rw [nameWords, List.map_eq_nil_iff, runs_eq_nil_iff, List.forall_mem_map]

/-- Only names that come down to the word for a screen have it for a route id. -/
theorem routeId_eq_screen_iff {name : String} : routeId name = "screen" ↔ IsNameless name := by
  rw [IsNameless, ← nameWords_eq_nil_iff]
  constructor
  · intro h
    have hwords : routeWords name = [screenWord] := routeWords_eq_of_routeId_eq (b := "") h
    unfold routeWords at hwords
    split at hwords
    · exact .inl ‹_›
    · rename_i first rest heq
      split at hwords
      · exact .inr (heq.trans hwords)
      -- with the word put in front there would be two
      · cases hwords
  · intro h
    have hwords : routeWords name = [screenWord] := by
      rcases h with h | h <;> rw [routeWords, h]
      rfl
    rw [routeId, hwords]
    rfl

theorem isAlphanum_baseLetter_of_isBlank {c : Char} (h : Text.isBlank c = true) :
    (baseLetter c).isAlphanum = false := by
  have hbase : baseLetter c = c := by
    unfold baseLetter
    split <;> first | rfl | exact absurd h (by decide)
  rw [hbase, ← Bool.not_eq_true, Text.isAlphanum_iff, Text.isUpper_iff, Text.isLower_iff,
    Text.isDigit_iff]
  simp only [Text.isBlank, Bool.or_eq_true, Bool.and_eq_true, decide_eq_true_eq, beq_iff_eq] at h
  omega

theorem isNameless_of_isBlankText {name : String} (h : Text.isBlankText name = true) :
    IsNameless name :=
  .inl fun c hc => isAlphanum_baseLetter_of_isBlank (List.all_eq_true.mp h c hc)

theorem routeId_of_isBlankText {name : String} (h : Text.isBlankText name = true) :
    routeId name = "screen" :=
  routeId_eq_screen_iff.mpr (isNameless_of_isBlankText h)

/-! ### Entries -/

section Entries

variable {project : Project}

/-- A blank target leads nowhere exactly if no screen is nameless. -/
theorem not_mem_routeIds_iff_of_isBlankText {target : String}
    (h : Text.isBlankText target = true) :
    routeId target ∉ project.screens.map (routeId ·.name) ↔
      ∀ screen ∈ project.screens, ¬ IsNameless screen.name := by
  rw [routeId_of_isBlankText h, List.mem_map, not_exists]
  refine forall_congr' ?_
  intro screen
  rw [not_and, routeId_eq_screen_iff]

/-- What becomes of entry number `i` of a navigation bar whose target is blank: it is blamed and does
nothing, unless there is a nameless screen, and then it leads there. -/
structure BlankEntry (project : Project) (place : Place) (widget : Widget) (i : Nat)
    (item : NavItem) (handler : Expr) : Prop where
  blamed : targetIssue place item ∈ (check false project).targetIssues ↔
    ∀ screen ∈ project.screens, ¬ IsNameless screen.name
  inert : handler.text = "null" ↔ ∀ screen ∈ project.screens, ¬ IsNameless screen.name
  leads : handler.text = "null" ∨ handler.text = leadText widget i "/screen"

theorem blankEntry {screen : Screen} {element : Element} (hscreen : screen ∈ project.screens)
    (helement : element ∈ screen.elements) {i : Nat} {item : NavItem}
    (hitem : (navItems element.widget)[i]? = some item)
    (hblank : Text.isBlankText item.targetScreen = true) (current : String) :
    BlankEntry project (.element screen.name element.id) element.widget i item
      (entryHandler ⟨Routes.ofProject project, current⟩ element.widget i item) where
  blamed := by
    rw [mem_targetIssues_iff hscreen helement (List.mem_of_getElem? hitem),
      not_mem_routeIds_iff_of_isBlankText hblank]
  inert := by
    rw [text_eq_null_iff, not_mem_routeIds_iff_of_isBlankText hblank]
  leads := by
    rw [text_entryHandler fun _ => isPathText_of_path?]
    cases hpath : (Routes.ofProject project).path? item.targetScreen with
    | none => exact .inl rfl
    | some path =>
      rw [path?_eq] at hpath
      obtain ⟨target, htarget, rfl⟩ := Option.map_eq_some_iff.mp hpath
      have hid : routeId target.name = routeId item.targetScreen :=
        of_decide_eq_true (List.mem_filter.mp (List.mem_of_head? htarget)).2
      refine .inr ?_
      rw [routePath, hid, routeId_of_isBlankText hblank]
      rfl

/-- In every design, what becomes of an entry with a blank target depends on the names of the screens
alone: if none of them is nameless, the entry is blamed and does nothing, and else it is not blamed
and leads to a screen.  If there is code for the design, what the entry does is written in it. -/
theorem blank_targets (project : Project) {screen : Screen} {element : Element}
    (hscreen : screen ∈ project.screens) (helement : element ∈ screen.elements) {i : Nat}
    {item : NavItem} (hitem : (navItems element.widget)[i]? = some item)
    (hblank : Text.isBlankText item.targetScreen = true) :
    ∃ handler, BlankEntry project (.element screen.name element.id) element.widget i item handler ∧
      (fragmentOf ⟨Routes.ofProject project, routeId screen.name⟩ element).handlers[i]? =
        some handler ∧
      ∀ sources, generate project = .ok sources → ∃ unit ∈ sources.units,
        unit.names = Names.ofName screen.name ∧ handler.IsTapIn unit.file.contents.toList := by
  have hhandler : (fragmentOf ⟨Routes.ofProject project, routeId screen.name⟩
      element).handlers[i]? = some (entryHandler ⟨Routes.ofProject project, routeId screen.name⟩
        element.widget i item) := by
    rw [handlers_fragmentOf (isOverlay_of_mem_navItems (List.mem_of_getElem? hitem)),
      List.getElem?_mapIdx, hitem, Option.map_some]
  refine ⟨_, blankEntry hscreen helement hitem hblank _, hhandler, ?_⟩
  intro sources hsources
  have hagrees := screenAgrees (generates_iff.mp ⟨sources, hsources⟩) hscreen
  obtain rfl := eq_sourcesOf_of_generate hsources
  refine ⟨_, hagrees.unit, rfl, hagrees.written _ ?_ _ (List.mem_of_getElem? hhandler)⟩
  exact hagrees.fragments.mem_iff.mpr (List.mem_map_of_mem helement)

/-- A screen with one entry, which has no target. -/
def soonScreen (name : String) : Screen where
  id := "a"
  name := name
  elements := [
    { id := "m", rect := ⟨0.0, 0.9, 1.0, 0.1⟩
      widget := .bottomNav { items := [{ text := "Soon" }] } }]

/-- A design with that screen alone. -/
def soonProject (name : String) : Project where
  screens := [soonScreen name]

/-- What the entry does. -/
def soonHandlers (name : String) : List Expr :=
  (soonScreen name).elements.flatMap fun element =>
    (fragmentOf ⟨Routes.ofProject (soonProject name), routeId name⟩ element).handlers

theorem blank_targets_soonProject :
    (∀ screen ∈ (soonProject "Home").screens, ¬ IsNameless screen.name) ∧
    targetIssue (.element "Home" "m") { text := "Soon" } ∈
      (check false (soonProject "Home")).targetIssues ∧
    ∃ handler ∈ soonHandlers "Home", handler.text = "null" := by
  have hnames : ∀ screen ∈ (soonProject "Home").screens, ¬ IsNameless screen.name := by
    simp only [← routeId_eq_screen_iff]
    decide +kernel
  have hscreen : soonScreen "Home" ∈ (soonProject "Home").screens := List.mem_cons_self
  obtain ⟨handler, hentry, hhandler, -⟩ :=
    blank_targets (soonProject "Home") hscreen List.mem_cons_self (i := 0) rfl rfl
  refine ⟨hnames, hentry.blamed.mpr hnames, handler, ?_, hentry.inert.mpr hnames⟩
  exact List.mem_flatMap.mpr ⟨_, List.mem_cons_self, List.mem_of_getElem? hhandler⟩

/-- There is code for a design whose only entry has no target, and yet the entry is not blamed and
leads to a screen. -/
theorem blank_target_leads_to_nameless :
    generate (soonProject "Меню") = .ok (sourcesOf (soonProject "Меню")) ∧
      (check false (soonProject "Меню")).targetIssues = [] ∧
      (soonHandlers "Меню").map (·.text) =
        ["() \x7b\n  setState(() => _navIndex = 0);\n" ++
          "  Navigator.pushReplacementNamed(context, '/screen');\n\x7d"] := by
  have hdistinct : HasDistinctScreens (soonProject "Меню") :=
    ⟨List.cons_ne_nil _ _, by decide +kernel, by decide +kernel⟩
  refine ⟨generate_of_distinct hdistinct, ?_, ?_⟩
  · rw [targetIssues_eq]
    rfl
  · have hhandlers : soonHandlers "Меню" = [bottomHandler 0 (some "/screen")] := rfl
    have hpath : isPathText "/screen" := isPathText_routePath ""
    rw [hhandlers, List.map_singleton, text_bottomHandler 0 hpath]
    rfl

end Entries

end Wireframe.App
