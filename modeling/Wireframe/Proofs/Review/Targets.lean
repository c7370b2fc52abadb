/-
What a review says of navigation bars.

An entry is blamed if the route id of what it names is that of no screen.  The blames stand in the
report in the order of screens, elements and entries, with the issues of other kinds between them.

* `lostItems` — the entries of a widget that are blamed;
* `targetIssues_eq` — all blames of a review;
* `targetIssues_at` — the blames at one place.
-/
import Wireframe.Proofs.Review.Verdict

namespace Wireframe.Review

open Design

/-- The entries of a navigation bar that lead to none of the given routes. -/
def lostItems (routes : List String) (widget : Widget) : List NavItem :=
  (navItems widget).filter fun item => !routes.contains (App.routeId item.targetScreen)

/-- What is said of an entry that leads nowhere. -/
def targetIssue (place : Place) (item : NavItem) : Issue :=
  .of (.unknownTargetScreen item.text item.targetScreen) place

/-- What is said of entries that lead nowhere. -/
def Report.targetIssues (report : Report) : List Issue :=
  report.issues.filter (·.code = .unknownTargetScreen)

/-! ### Elements -/

theorem code_ne_of_mem_rectFindings {r : Rect .canvas} {finding : Finding}
    (h : finding ∈ rectFindings r) : finding.code ≠ .unknownTargetScreen := by
  unfold rectFindings at h
  split_ifs at h
  · simp [List.mem_singleton.mp h, Finding.code]
  · simp [List.mem_singleton.mp h, Finding.code]
  · simp [List.mem_singleton.mp h, Finding.code]
  · cases h

theorem filter_elementFindings (routes earlier : List String) (element : Element) :
    (elementFindings routes earlier element).filter (·.code = .unknownTargetScreen) =
      targetFindings routes element.widget := by
  have hrect : (rectFindings element.rect).filter (·.code = .unknownTargetScreen) = [] :=
    List.filter_eq_nil_iff.mpr fun _ h =>
      mt of_decide_eq_true (code_ne_of_mem_rectFindings h)
  have hkind : (kindFindings element.widget).filter (·.code = .unknownTargetScreen) = [] := by
    unfold kindFindings
    split <;> rfl
  have htarget : (targetFindings routes element.widget).filter
      (·.code = .unknownTargetScreen) = targetFindings routes element.widget := by
    rw [List.filter_eq_self, targetFindings, List.forall_mem_map]
    exact fun _ _ => rfl
  unfold elementFindings
  rw [List.filter_append, List.filter_append, List.filter_append, hrect, hkind, htarget]
  cases earlier.idxOf? element.id <;> rfl

theorem filter_elementIssues (routes : List String) (screen : String) (earlier : List String)
    (elements : List Element) :
    (elementIssues routes screen earlier elements).filter (·.code = .unknownTargetScreen) =
      elements.flatMap fun element =>
        (lostItems routes element.widget).map (targetIssue (.element screen element.id)) := by
  -- the ids before an element matter for its id only
  induction elements generalizing earlier with
  | nil => rfl
  | cons element rest ih =>
    have hfirst : ((elementFindings routes earlier element).map
        (Issue.of · (.element screen element.id))).filter (·.code = .unknownTargetScreen) =
        (lostItems routes element.widget).map (targetIssue (.element screen element.id)) := by
      rw [List.filter_map]
      show ((elementFindings routes earlier element).filter
        (·.code = .unknownTargetScreen)).map _ = _
      rw [filter_elementFindings, targetFindings, List.map_map]
      rfl
    rw [elementIssues, List.filter_append, hfirst, ih, List.flatMap_cons]

/-! ### Screens -/

theorem filter_withinScreen (routes : List String) (screen : Screen) :
    (withinScreen routes screen).filter (·.code = .unknownTargetScreen) =
      screen.elements.flatMap fun element =>
        (lostItems routes element.widget).map (targetIssue (.element screen.name element.id)) := by
  have hbars : ((overlayFindings screen.elements).map (Issue.of · (.screen screen.name))).filter
      (·.code = .unknownTargetScreen) = [] := by
    rw [List.filter_eq_nil_iff, List.forall_mem_map]
    intro finding hfinding
    show ¬ decide (finding.code = .unknownTargetScreen) = true
    rw [code_of_mem_overlayFindings hfinding]
    decide
  rw [withinScreen, List.filter_append, filter_elementIssues, hbars, List.append_nil]

theorem filter_screenIssues (claimed : Claimed) (index : Nat) (screens : List Screen) :
    (screenIssues claimed index screens).filter (·.code = .unknownTargetScreen) = [] := by
  rw [List.filter_eq_nil_iff]
  intro issue hissue hcode
  have hnames := code_of_mem_screenIssues issue hissue
  rw [of_decide_eq_true hcode] at hnames
  exact absurd hnames (by decide)

/-- The blames of a review stand in the order of screens, elements and entries. -/
theorem targetIssues_eq (project : Project) : (check false project).targetIssues =
    project.screens.flatMap fun screen => screen.elements.flatMap fun element =>
      (lostItems (project.screens.map (App.routeId ·.name)) element.widget).map
        (targetIssue (.element screen.name element.id)) := by
  show (issues project).filter _ = _
  by_cases hscreens : project.screens = []
  · rw [issues_of_no_screens hscreens, hscreens]
    rfl
  · rw [issues_of_screens hscreens, List.filter_append, filter_screenIssues, List.nil_append,
      List.filter_flatMap]
    simp only [filter_withinScreen]

/-! ### Places -/

/-- Only some items of a list lead to a result. -/
theorem flatMap_ite {α β : Type} (p : α → Bool) (f : α → List β) (l : List α) :
    (l.flatMap fun a => if p a then f a else []) = (l.filter p).flatMap f := by
  induction l with
  | nil => rfl
  | cons a rest ih => cases h : p a <;> simp [List.flatMap_cons, h, ih]

/-- The blames of one element at a place. -/
theorem filter_targetIssue (screen other id otherId : String) (items : List NavItem) :
    (items.map (targetIssue (.element other otherId))).filter (·.place = .element screen id) =
      if other = screen then
        if otherId = id then items.map (targetIssue (.element screen id)) else []
      else [] := by
  by_cases h : other = screen ∧ otherId = id
  · obtain ⟨rfl, rfl⟩ := h
    rw [if_pos rfl, if_pos rfl, List.filter_eq_self, List.forall_mem_map]
    exact fun _ _ => decide_eq_true rfl
  · have hnone : (items.map (targetIssue (.element other otherId))).filter
        (·.place = .element screen id) = [] := by
      rw [List.filter_eq_nil_iff, List.forall_mem_map]
      intro item _ hitem
      exact h (Place.element.inj (of_decide_eq_true hitem))
    rw [hnone]
    split_ifs with hother hid
    · exact absurd ⟨hother, hid⟩ h
    · rfl
    · rfl

/-- The blames at the place of an element are those of all elements of that id. -/
theorem targetIssues_at {project : Project} {screen : Screen}
    (h : project.screens.filter (·.name = screen.name) = [screen]) (id : String) :
    (check false project).targetIssues.filter (·.place = .element screen.name id) =
      (screen.elements.filter (·.id = id)).flatMap fun element =>
        (lostItems (project.screens.map (App.routeId ·.name)) element.widget).map
          (targetIssue (.element screen.name id)) := by
  -- no other screen has the name, so the place lies in this one
  have hscreen (other : Screen) : (other.elements.flatMap fun element =>
        (lostItems (project.screens.map (App.routeId ·.name)) element.widget).map
          (targetIssue (.element other.name element.id))).filter
        (·.place = .element screen.name id) =
      if other.name = screen.name then
        (other.elements.filter (·.id = id)).flatMap fun element =>
          (lostItems (project.screens.map (App.routeId ·.name)) element.widget).map
            (targetIssue (.element screen.name id))
      else [] := by
    rw [List.filter_flatMap]
    simp only [filter_targetIssue]
    by_cases hname : other.name = screen.name
    · simp only [if_pos hname]
      simpa using flatMap_ite (·.id = id) _ other.elements
    · simp only [if_neg hname, List.flatMap_eq_nil_iff, implies_true]
  rw [targetIssues_eq, List.filter_flatMap]
  simp only [hscreen]
  simpa [h] using flatMap_ite (·.name = screen.name) _ project.screens

end Wireframe.Review
