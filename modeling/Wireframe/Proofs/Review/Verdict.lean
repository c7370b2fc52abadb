/-
What a report says of a design.

A design is sound if its screens and elements can be told apart and stay on the canvas; it is
flawless if, moreover, everything in it can be seen and leads somewhere.

* `isOk_iff`, `isOk_promote` — a report is fine if everything in it is a warning, and a strict one if
  there is nothing in it;
* `errorCount_eq_length`, `warningCount_eq_zero` — a report of errors;
* `exists_of_mem_issues` — every issue has the severity of its finding;
* `IsSound`, `IsFlawless` — what is asked of a design;
* `isOk_check_iff`, `issues_eq_nil_iff` — a design has no errors if it is sound, and no issues if it is
  flawless;
* `check_verdicts` — both kinds of reports.
-/
import Mathlib.Data.List.Basic
import Wireframe.Proofs.Review.Elements
import Wireframe.Proofs.Review.Screens
import Wireframe.Review.Check

namespace Wireframe.Review

open Design

/-! ### Counts -/

section Counts

variable {report : Report}

/-- A report is fine if everything in it is a warning. -/
theorem isOk_iff : report.isOk = true ↔ ∀ issue ∈ report.issues, issue.severity = .warning := by
  unfold Report.isOk Report.errorCount Report.count
  rw [beq_iff_eq, List.length_eq_zero_iff, List.filter_eq_nil_iff]
  refine forall₂_congr ?_
  intro issue _
  cases issue.severity <;> decide

theorem isOk_promote : report.promote.isOk = true ↔ report.issues = [] := by
  rw [isOk_iff, Report.promote, List.forall_mem_map, List.eq_nil_iff_forall_not_mem]
  refine forall₂_congr ?_
  intro issue _
  constructor
  · intro h
    cases h
  · exact False.elim

theorem errorCount_eq_length (h : ∀ issue ∈ report.issues, issue.severity = .error) :
    report.errorCount = report.issues.length := by
  unfold Report.errorCount Report.count
  rw [List.filter_eq_self.mpr]
  intro issue hissue
  exact decide_eq_true (h issue hissue)

theorem warningCount_eq_zero (h : ∀ issue ∈ report.issues, issue.severity = .error) :
    report.warningCount = 0 := by
  unfold Report.warningCount Report.count
  rw [List.length_eq_zero_iff, List.filter_eq_nil_iff]
  intro issue hissue
  rw [h issue hissue]
  decide

end Counts

/-! ### Issues -/

theorem exists_of_mem_map_of {findings : List Finding} {place : Place} {issue : Issue}
    (h : issue ∈ findings.map (.of · place)) : ∃ finding ∈ findings, issue = .of finding place := by
  obtain ⟨finding, hmem, rfl⟩ := List.mem_map.mp h
  exact ⟨finding, hmem, rfl⟩

theorem exists_of_mem_screenIssues {claimed : Claimed} {index : Nat} {screens : List Screen}
    {issue : Issue} (h : issue ∈ screenIssues claimed index screens) :
    ∃ finding name, issue = .of finding (.screen name) := by
  induction screens generalizing claimed index with
  | nil => cases h
  | cons screen rest ih =>
    rcases List.mem_append.mp h with h | h
    · obtain ⟨finding, -, rfl⟩ := exists_of_mem_map_of h
      exact ⟨_, _, rfl⟩
    · exact ih h

theorem exists_of_mem_elementIssues {routes : List String} {screen : String} {earlier : List String}
    {elements : List Element} {issue : Issue}
    (h : issue ∈ elementIssues routes screen earlier elements) :
    ∃ element ∈ elements, ∃ before, ∃ finding ∈ elementFindings routes before element,
      issue = .of finding (.element screen element.id) := by
  induction elements generalizing earlier with
  | nil => cases h
  | cons element rest ih =>
    rcases List.mem_append.mp h with h | h
    · exact ⟨element, List.mem_cons_self, earlier, exists_of_mem_map_of h⟩
    · obtain ⟨other, hother, hissue⟩ := ih h
      exact ⟨other, List.mem_cons_of_mem element hother, hissue⟩

/-- Every issue has the severity of its finding. -/
theorem exists_of_mem_issues {project : Project} {issue : Issue} (h : issue ∈ issues project) :
    ∃ finding place, issue = .of finding place := by
  unfold issues at h
  split at h
  · rw [List.mem_singleton] at h
    exact ⟨_, _, h⟩
  · rcases List.mem_append.mp h with h | h
    · obtain ⟨finding, name, rfl⟩ := exists_of_mem_screenIssues h
      exact ⟨_, _, rfl⟩
    · obtain ⟨screen, -, h⟩ := List.mem_flatMap.mp h
      rcases List.mem_append.mp h with h | h
      · obtain ⟨element, -, before, finding, -, rfl⟩ := exists_of_mem_elementIssues h
        exact ⟨_, _, rfl⟩
      · obtain ⟨finding, -, rfl⟩ := exists_of_mem_map_of h
        exact ⟨_, _, rfl⟩

/-! ### Designs -/

/-- A rectangle of finite numbers that stays on the canvas, up to the tolerance. -/
structure StaysOnCanvas (r : Rect .canvas) : Prop where
  finite : ∀ v ∈ [r.x, r.y, r.w, r.h], v.isFinite = true
  inUnit : ∀ v ∈ [r.x, r.y, r.w, r.h], -rectTolerance ≤ v ∧ v ≤ 1.0 + rectTolerance
  right : r.x + r.w ≤ 1.0 + rectTolerance
  bottom : r.y + r.h ≤ 1.0 + rectTolerance

theorem staysOnCanvas_iff {r : Rect .canvas} :
    StaysOnCanvas r ↔ r.isOnCanvas rectTolerance = true := by
  simp only [Rect.isOnCanvas, Rect.isFinite, Rect.inUnit, Bool.and_eq_true, decide_eq_true_eq]
  constructor
  · rintro ⟨hfinite, hunit, hright, hbottom⟩
    simp only [List.forall_mem_cons] at hfinite hunit
    obtain ⟨hx, hy, hw, hh, -⟩ := hfinite
    obtain ⟨ux, uy, uw, uh, -⟩ := hunit
    exact ⟨⟨⟨⟨⟨⟨⟨⟨⟨hx, hy⟩, hw⟩, hh⟩, ux⟩, uy⟩, uw⟩, uh⟩, hright⟩, hbottom⟩
  · rintro ⟨⟨⟨⟨⟨⟨⟨⟨⟨hx, hy⟩, hw⟩, hh⟩, ux⟩, uy⟩, uw⟩, uh⟩, hright⟩, hbottom⟩
    refine ⟨?_, ?_, hright, hbottom⟩
    · simp [hx, hy, hw, hh]
    · simp [ux, uy, uw, uh]

/-- The screens and elements of a design can be told apart, and stay on the canvas. -/
structure IsSound (project : Project) : Prop where
  hasScreen : project.screens ≠ []
  screenIds : (project.screens.map (·.id)).Nodup
  notBlank : ∀ screen ∈ project.screens, Text.isBlankText screen.name = false
  classes : (project.screens.map (App.className ·.name)).Nodup
  elementIds : ∀ screen ∈ project.screens, (screen.elements.map (·.id)).Nodup
  onCanvas : ∀ screen ∈ project.screens, ∀ element ∈ screen.elements, StaysOnCanvas element.rect

/-- A sound design in which everything can be seen and leads somewhere. -/
structure IsFlawless (project : Project) : Prop extends IsSound project where
  visible : ∀ screen ∈ project.screens, ∀ element ∈ screen.elements,
    0.0 < element.rect.w * element.rect.h
  known : ∀ screen ∈ project.screens, ∀ element ∈ screen.elements,
    element.widget.kind?.isSome = true
  targets : ∀ screen ∈ project.screens, ∀ element ∈ screen.elements, ∀ item,
    HasEntry element.widget item →
      ∃ target ∈ project.screens, App.routeId target.name = App.routeId item.targetScreen
  bars : ∀ screen ∈ project.screens, ∀ kind ∈ [Kind.sidebar, Kind.bottomNav],
    screen.elements.countP (·.widget.kind? = some kind) ≤ 1

/-! ### Screens -/

section Screens

variable {screens : List Screen}

theorem screenIssues_eq_nil_iff : screenIssues {} 0 screens = [] ↔
    (screens.map (·.id)).Nodup ∧ (∀ screen ∈ screens, Text.isBlankText screen.name = false) ∧
      (screens.map (App.className ·.name)).Nodup := by
  have hids := ids_fine_iff screens Claimed.records_nil
  have hnames := names_fine_iff screens Claimed.records_nil
  rw [haveOwnNames_nil_left] at hnames
  rw [← hnames, List.eq_nil_iff_forall_not_mem]
  constructor
  · intro hnone
    have hall := hids.mp fun issue hissue => absurd hissue (hnone issue)
    exact ⟨hall.2, fun issue hissue => absurd hissue (hnone issue)⟩
  · rintro ⟨hnodup, hfine⟩ issue hissue
    rcases code_of_mem_screenIssues issue hissue with hcode | hcode
    · exact hids.mpr ⟨fun _ _ => List.not_mem_nil, hnodup⟩ issue hissue hcode
    · exact hfine issue hissue hcode

/-- All faults of ids and names are errors. -/
theorem severity_of_mem_screenIssues {claimed : Claimed} {index : Nat} {issue : Issue}
    (h : issue ∈ screenIssues claimed index screens) : issue.severity = .error := by
  have hcode := code_of_mem_screenIssues issue h
  obtain ⟨finding, name, rfl⟩ := exists_of_mem_screenIssues h
  change finding.code = _ ∨ finding.code ∈ Claimed.nameCodes at hcode
  change finding.severity = .error
  simp only [Claimed.nameCodes, List.mem_cons, List.not_mem_nil, or_false] at hcode
  unfold Finding.severity
  rcases hcode with hcode | hcode | hcode | hcode <;> rw [hcode]

theorem screenIssues_warn_iff : (∀ issue ∈ screenIssues {} 0 screens, issue.severity = .warning) ↔
    screenIssues {} 0 screens = [] := by
  rw [List.eq_nil_iff_forall_not_mem]
  constructor
  · intro hwarning issue hissue
    have herror := severity_of_mem_screenIssues hissue
    rw [hwarning issue hissue] at herror
    cases herror
  · exact fun hnone issue hissue => absurd hissue (hnone issue)

variable {routes : List String} {screen : Screen}

/-- The kinds of faults that there can be within a screen. -/
def withinCodes : List Code := .multipleOverlays :: elementCodes

theorem code_of_mem_withinScreen {issue : Issue} (h : issue ∈ withinScreen routes screen) :
    issue.code ∈ withinCodes := by
  rcases List.mem_append.mp h with h | h
  · obtain ⟨element, -, before, finding, hfinding, rfl⟩ := exists_of_mem_elementIssues h
    exact List.mem_cons_of_mem _ (code_of_mem_elementFindings hfinding)
  · obtain ⟨finding, hfinding, rfl⟩ := exists_of_mem_map_of h
    exact List.mem_cons.mpr (.inl (code_of_mem_overlayFindings hfinding))

theorem withinScreen_warn_iff : (∀ issue ∈ withinScreen routes screen, issue.severity = .warning) ↔
    (screen.elements.map (·.id)).Nodup ∧
      ∀ element ∈ screen.elements, StaysOnCanvas element.rect := by
  have helements : (∀ issue ∈ elementIssues routes screen.name [] screen.elements,
      issue.severity = .warning) ↔
      (∀ element ∈ screen.elements, element.id ∉ [] ∧ StaysOnCanvas element.rect) ∧
        (screen.elements.map (·.id)).Nodup := by
    refine forall_mem_elementIssues_iff ?_
    intro earlier element
    rw [staysOnCanvas_iff]
    exact elementFindings_warn_iff
  have hbars : ∀ issue ∈ (overlayFindings screen.elements).map (Issue.of · (.screen screen.name)),
      issue.severity = .warning :=
    List.forall_mem_map.mpr fun _ => severity_of_mem_overlayFindings
  rw [withinScreen, List.forall_mem_append, helements, and_iff_left hbars, and_comm]
  simp

theorem withinScreen_eq_nil_iff : withinScreen routes screen = [] ↔
    ((screen.elements.map (·.id)).Nodup ∧
      ∀ element ∈ screen.elements, (StaysOnCanvas element.rect ∧
          0.0 < element.rect.w * element.rect.h) ∧
        element.widget.kind?.isSome = true ∧
        ∀ item, HasEntry element.widget item → App.routeId item.targetScreen ∈ routes) ∧
    ∀ kind ∈ [Kind.sidebar, Kind.bottomNav],
      screen.elements.countP (·.widget.kind? = some kind) ≤ 1 := by
  -- that there is nothing in a list is that nothing holds of everything in it
  have helements : (∀ issue ∈ elementIssues routes screen.name [] screen.elements, False) ↔
      (∀ element ∈ screen.elements, element.id ∉ [] ∧
        (StaysOnCanvas element.rect ∧ 0.0 < element.rect.w * element.rect.h) ∧
        element.widget.kind?.isSome = true ∧
        ∀ item, HasEntry element.widget item → App.routeId item.targetScreen ∈ routes) ∧
        (screen.elements.map (·.id)).Nodup := by
    refine forall_mem_elementIssues_iff ?_
    intro earlier element
    rw [staysOnCanvas_iff, ← elementFindings_eq_nil_iff]
    exact List.eq_nil_iff_forall_not_mem.symm
  rw [← List.eq_nil_iff_forall_not_mem] at helements
  rw [withinScreen, List.append_eq_nil_iff, List.map_eq_nil_iff, overlayFindings_eq_nil_iff,
    helements, and_comm (a := (screen.elements.map (·.id)).Nodup)]
  simp

end Screens

/-! ### Verdicts -/

section Reports

variable {project : Project}

theorem issues_of_screens (h : project.screens ≠ []) : issues project =
    screenIssues {} 0 project.screens ++
      project.screens.flatMap (withinScreen (project.screens.map (App.routeId ·.name))) := by
  rw [issues, if_neg]
  rwa [List.isEmpty_iff]

theorem issues_of_no_screens (h : project.screens = []) :
    issues project = [.of .noScreens .project] := by
  rw [issues, if_pos]
  rw [h]
  rfl

/-- A design has no errors exactly if it is sound. -/
theorem isOk_check_iff : (check false project).isOk = true ↔ IsSound project := by
  rw [isOk_iff]
  change (∀ issue ∈ issues project, _) ↔ _
  by_cases hscreens : project.screens = []
  · rw [issues_of_no_screens hscreens]
    constructor
    · intro h
      cases h _ (List.mem_singleton_self _)
    · exact fun h => absurd hscreens h.hasScreen
  · rw [issues_of_screens hscreens, List.forall_mem_append, screenIssues_warn_iff,
      screenIssues_eq_nil_iff, List.forall_mem_flatMap]
    simp only [withinScreen_warn_iff]
    constructor
    · rintro ⟨⟨hids, hnames, hclasses⟩, hscreen⟩
      exact ⟨hscreens, hids, hnames, hclasses, fun screen h => (hscreen screen h).1,
        fun screen h => (hscreen screen h).2⟩
    · intro h
      exact ⟨⟨h.screenIds, h.notBlank, h.classes⟩,
        fun screen hscreen => ⟨h.elementIds screen hscreen, h.onCanvas screen hscreen⟩⟩

/-- A design has no issues exactly if it is flawless. -/
theorem issues_eq_nil_iff : issues project = [] ↔ IsFlawless project := by
  by_cases hscreens : project.screens = []
  · rw [issues_of_no_screens hscreens]
    constructor
    · exact fun h => absurd h (List.cons_ne_nil _ _)
    · exact fun h => absurd hscreens h.hasScreen
  · rw [issues_of_screens hscreens, List.append_eq_nil_iff, screenIssues_eq_nil_iff,
      List.flatMap_eq_nil_iff]
    -- The conditions of a review are those of a flawless design, grouped by screens and elements.
    simp only [withinScreen_eq_nil_iff, List.mem_map]
    constructor
    · rintro ⟨⟨hids, hnames, hclasses⟩, hscreen⟩
      exact {
        hasScreen := hscreens
        screenIds := hids
        notBlank := hnames
        classes := hclasses
        elementIds := fun screen h => (hscreen screen h).1.1
        onCanvas := fun screen h element he => ((hscreen screen h).1.2 element he).1.1
        visible := fun screen h element he => ((hscreen screen h).1.2 element he).1.2
        known := fun screen h element he => ((hscreen screen h).1.2 element he).2.1
        targets := fun screen h element he => ((hscreen screen h).1.2 element he).2.2
        bars := fun screen h => (hscreen screen h).2 }
    · intro h
      refine ⟨⟨h.screenIds, h.notBlank, h.classes⟩, ?_⟩
      intro screen hscreen
      refine ⟨⟨h.elementIds screen hscreen, ?_⟩, h.bars screen hscreen⟩
      intro element helement
      exact ⟨⟨h.onCanvas screen hscreen element helement, h.visible screen hscreen element helement⟩,
        h.known screen hscreen element helement, h.targets screen hscreen element helement⟩

/-- A design passes exactly if it is sound, and passes a strict review exactly if it is flawless.  A
strict review finds the same and takes all of it for errors. -/
theorem check_verdicts (project : Project) :
    ((check false project).isOk = true ↔ IsSound project) ∧
    ((check true project).isOk = true ↔ IsFlawless project) ∧
    (check true project).issues.map (fun issue => (issue.finding, issue.place)) =
      (check false project).issues.map (fun issue => (issue.finding, issue.place)) ∧
    ∀ issue ∈ (check true project).issues, issue.severity = .error := by
  refine ⟨isOk_check_iff, isOk_promote.trans issues_eq_nil_iff, ?_, ?_⟩
  · exact List.map_map
  · exact List.forall_mem_map.mpr fun _ _ => rfl

/-- A design with a bar that leads to a screen that is yet to be drawn. -/
def firstDraft : Project where
  screens := [{
    id := "home", name := "Home"
    elements := [{
      id := "nav", rect := ⟨0.0, 0.9, 1.0, 0.1⟩
      widget := .bottomNav { items := [{ text := "Help", targetScreen := "Help" }] } }] }]

theorem check_verdicts_firstDraft : IsSound firstDraft ∧ ¬ IsFlawless firstDraft := by
  obtain ⟨hsound, hflawless, -⟩ := check_verdicts firstDraft
  refine ⟨hsound.mp (by decide +kernel), ?_⟩
  intro h
  have hstrict : (check true firstDraft).isOk = false := by decide +kernel
  rw [hflawless.mpr h] at hstrict
  cases hstrict

end Reports

end Wireframe.Review
