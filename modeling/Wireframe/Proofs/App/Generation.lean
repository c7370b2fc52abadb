/-
When there is code for a design.

The code of an app needs names to tell its screens apart, and nothing else: what is wrong with ids
or with elements is found by a review and worked around here.

* `HasDistinctScreens` — what is asked of a design;
* `only_blocking_eq` — what a design is refused for;
* `generate_of_distinct`, `generate_of_no_screens`, `generate_of_not_distinct` — the three outcomes;
* `generate_outcome` — all of them together.
-/
import Wireframe.App.Sources
import Wireframe.Proofs.Review.Verdict

namespace Wireframe.App

open Design Review

/-! ### Designs -/

/-- A design with screens whose classes differ. -/
structure HasDistinctScreens (project : Project) : Prop where
  hasScreen : project.screens ≠ []
  notBlank : ∀ screen ∈ project.screens, Text.isBlankText screen.name = false
  classes : (project.screens.map (className ·.name)).Nodup

namespace HasDistinctScreens

variable {project : Project}

/-- What the class of a screen is determined by differs where the classes do. -/
theorem nodup_map (h : HasDistinctScreens project) (key : String → String)
    (hkey : ∀ a b, key a = key b → className a = className b) :
    (project.screens.map (key ·.name)).Nodup := by
  have hclasses := h.classes
  rw [List.Nodup, List.pairwise_map] at hclasses ⊢
  exact hclasses.imp fun hne heq => hne (hkey _ _ heq)

theorem nodup_names (h : HasDistinctScreens project) : (project.screens.map (·.name)).Nodup :=
  h.nodup_map id fun _ _ heq => congrArg className heq

theorem nodup_routeIds (h : HasDistinctScreens project) :
    (project.screens.map (routeId ·.name)).Nodup :=
  h.nodup_map routeId fun _ _ => className_eq_of_routeId_eq

end HasDistinctScreens

/-- Whether the screens of a design differ depends on their names. -/
theorem hasDistinctScreens_congr {project other : Project}
    (h : other.screens.map (·.name) = project.screens.map (·.name)) :
    HasDistinctScreens other ↔ HasDistinctScreens project := by
  have hiff (p : Project) : HasDistinctScreens p ↔ p.screens.map (·.name) ≠ [] ∧
      (∀ name ∈ p.screens.map (·.name), Text.isBlankText name = false) ∧
      ((p.screens.map (·.name)).map className).Nodup := by
    rw [Ne, List.map_eq_nil_iff, List.forall_mem_map, List.map_map]
    constructor
    · exact fun h => ⟨h.hasScreen, h.notBlank, h.classes⟩
    · exact fun h => ⟨h.1, h.2.1, h.2.2⟩
  rw [hiff, hiff, h]

/-! ### Faults -/

theorem not_mem_blocking_of_mem_withinScreen {routes : List String} {screen : Screen} {issue : Issue}
    (h : issue ∈ withinScreen routes screen) : issue.code ∉ blocking := by
  have hdisjoint : ∀ code ∈ withinCodes, code ∉ blocking := by decide
  exact hdisjoint _ (code_of_mem_withinScreen h)

theorem mem_blocking_of_mem_nameCodes {code : Code} (h : code ∈ Claimed.nameCodes) :
    code ∈ blocking := List.mem_cons_of_mem _ h

section Outcomes

variable {project : Project}

theorem severity_of_mem_nameCodes {issue : Issue} (hissue : issue ∈ issues project)
    (hcode : issue.code ∈ Claimed.nameCodes) : issue.severity = .error := by
  obtain ⟨finding, place, rfl⟩ := exists_of_mem_issues hissue
  change finding.code ∈ _ at hcode
  show finding.severity = .error
  simp only [Claimed.nameCodes, List.mem_cons, List.not_mem_nil, or_false] at hcode
  unfold Finding.severity
  rcases hcode with hcode | hcode | hcode <;> rw [hcode]

/-- A design with screens is blamed for anything but for having none. -/
theorem code_ne_noScreens (h : project.screens ≠ []) {issue : Issue}
    (hissue : issue ∈ issues project) : issue.code ≠ .noScreens := by
  intro hcode
  rw [issues_of_screens h, List.mem_append, List.mem_flatMap] at hissue
  rcases hissue with hissue | ⟨screen, -, hissue⟩
  · have hname := code_of_mem_screenIssues issue hissue
    rw [hcode] at hname
    exact absurd hname (by decide)
  · have hwithin := not_mem_blocking_of_mem_withinScreen hissue
    rw [hcode] at hwithin
    exact hwithin List.mem_cons_self

theorem has_noScreens_iff :
    (check false project).has .noScreens = true ↔ project.screens = [] := by
  rw [Report.has, List.any_eq_true]
  constructor
  · rintro ⟨issue, hissue, hcode⟩
    by_contra hscreens
    exact code_ne_noScreens hscreens hissue (of_decide_eq_true hcode)
  · intro hscreens
    have hmem : Issue.of .noScreens .project ∈ issues project := by
      rw [issues_of_no_screens hscreens]
      exact List.mem_singleton_self _
    exact ⟨_, hmem, rfl⟩

/-- The issues with the names of screens, as a report. -/
def nameReport (project : Project) : Report :=
  ⟨(check false project).issues.filter (·.code ∈ Claimed.nameCodes)⟩

/-- A design with screens is refused for the names of its screens and for nothing else. -/
theorem only_blocking_eq (h : project.screens ≠ []) :
    (check false project).only blocking = nameReport project := by
  refine congrArg Report.mk (List.filter_congr ?_)
  intro issue hissue
  have hcode := code_ne_noScreens h hissue
  rw [Bool.eq_iff_iff, List.contains_iff_mem, decide_eq_true_iff]
  constructor
  · intro hmem
    exact (List.mem_cons.mp hmem).resolve_left hcode
  · exact mem_blocking_of_mem_nameCodes

theorem severity_of_mem_nameReport :
    ∀ issue ∈ (nameReport project).issues, issue.severity = .error := by
  intro issue hissue
  obtain ⟨hmem, hcode⟩ := List.mem_filter.mp hissue
  exact severity_of_mem_nameCodes hmem (of_decide_eq_true hcode)

/-- Nothing is wrong with the names of a design exactly if they tell its screens apart. -/
theorem isOk_nameReport_iff (h : project.screens ≠ []) :
    (nameReport project).isOk = true ↔ HasDistinctScreens project := by
  have hnames := names_fine_iff project.screens Claimed.records_nil
  rw [haveOwnNames_nil_left, List.length_nil] at hnames
  have hnone : (nameReport project).isOk = true ↔
      ∀ issue ∈ issues project, issue.code ∉ Claimed.nameCodes := by
    rw [isOk_iff]
    constructor
    -- an issue with a name is an error, so a report of such issues is in order only if it is empty
    · intro hok issue hissue hcode
      have hmem : issue ∈ (nameReport project).issues :=
        List.mem_filter.mpr ⟨hissue, decide_eq_true hcode⟩
      have herror := severity_of_mem_nameReport issue hmem
      rw [hok issue hmem] at herror
      cases herror
    · intro hnone issue hissue
      obtain ⟨hmem, hcode⟩ := List.mem_filter.mp hissue
      exact absurd (of_decide_eq_true hcode) (hnone issue hmem)
  have hwithin : ∀ issue ∈ project.screens.flatMap
      (withinScreen (project.screens.map (routeId ·.name))), issue.code ∉ Claimed.nameCodes := by
    intro issue hissue hcode
    obtain ⟨screen, -, hissue⟩ := List.mem_flatMap.mp hissue
    exact not_mem_blocking_of_mem_withinScreen hissue (mem_blocking_of_mem_nameCodes hcode)
  rw [hnone, issues_of_screens h, List.forall_mem_append, and_iff_left hwithin, hnames]
  constructor
  · exact fun hdistinct => ⟨h, hdistinct.1, hdistinct.2⟩
  · exact fun hdistinct => ⟨hdistinct.notBlank, hdistinct.classes⟩

/-! ### Outcomes -/

theorem generate_of_no_screens (h : project.screens = []) :
    generate project = .error .noScreens := by
  unfold generate
  exact if_pos (has_noScreens_iff.mpr h)

theorem generate_of_screens (h : project.screens ≠ []) : generate project =
    if (nameReport project).isOk then .ok (sourcesOf project)
    else .error (.rejected (nameReport project)) := by
  unfold generate
  dsimp only
  rw [if_neg (has_noScreens_iff.not.mpr h), only_blocking_eq h]

theorem generate_of_distinct (h : HasDistinctScreens project) :
    generate project = .ok (sourcesOf project) := by
  rw [generate_of_screens h.hasScreen, if_pos ((isOk_nameReport_iff h.hasScreen).mpr h)]

theorem generate_of_not_distinct (hscreens : project.screens ≠ [])
    (h : ¬ HasDistinctScreens project) :
    generate project = .error (.rejected (nameReport project)) := by
  rw [generate_of_screens hscreens, if_neg ((isOk_nameReport_iff hscreens).not.mpr h)]

/-- There is code for a design exactly if its screens differ. -/
theorem generates_iff :
    (∃ sources, generate project = .ok sources) ↔ HasDistinctScreens project := by
  constructor
  · rintro ⟨sources, h⟩
    by_cases hscreens : project.screens = []
    · rw [generate_of_no_screens hscreens] at h
      cases h
    · by_contra hdistinct
      rw [generate_of_not_distinct hscreens hdistinct] at h
      cases h
  · exact fun h => ⟨_, generate_of_distinct h⟩

/-- The code of a design, if there is any. -/
theorem eq_sourcesOf_of_generate {sources : Sources} (h : generate project = .ok sources) :
    sources = sourcesOf project := by
  have hdistinct := generates_iff.mp ⟨sources, h⟩
  rw [generate_of_distinct hdistinct] at h
  exact (Except.ok.inj h).symm

/-- There is code for a design exactly if it has screens with names that are not blank and give
different classes, and thereby differ and give different routes.  A design without screens is refused
as such, and any other for the issues with the names of its screens, all of them errors.  What else
is in a design makes no difference. -/
theorem generate_outcome (project : Project) :
    ((∃ sources, generate project = .ok sources) ↔ HasDistinctScreens project) ∧
    (generate project = .error .noScreens ↔ project.screens = []) ∧
    (project.screens ≠ [] → ¬ HasDistinctScreens project →
      ∃ report : Report, generate project = .error (.rejected report) ∧
        report.issues = (check false project).issues.filter
          (·.code ∈ [Code.emptyScreenName, .duplicateScreenName, .routeCollision]) ∧
        report.errorCount = report.issues.length ∧ report.warningCount = 0) ∧
    (HasDistinctScreens project → (project.screens.map (·.name)).Nodup ∧
      (project.screens.map (routeId ·.name)).Nodup) ∧
    ∀ other : Project, other.screens.map (·.name) = project.screens.map (·.name) →
      ((∃ sources, generate other = .ok sources) ↔ ∃ sources, generate project = .ok sources) := by
  refine ⟨generates_iff, ?_, ?_, fun h => ⟨h.nodup_names, h.nodup_routeIds⟩, ?_⟩
  · constructor
    -- With screens the answer is code or a rejection, and neither says that there are none.
    · intro h
      by_contra hscreens
      rw [generate_of_screens hscreens] at h
      split at h <;> cases h
    · exact generate_of_no_screens
  · intro hscreens hdistinct
    exact ⟨nameReport project, generate_of_not_distinct hscreens hdistinct, rfl,
      errorCount_eq_length severity_of_mem_nameReport,
      warningCount_eq_zero severity_of_mem_nameReport⟩
  · intro other hnames
    rw [generates_iff, generates_iff, hasDistinctScreens_congr hnames]

/-- A design with two names for one route. -/
def twoHelpPages : Project where
  screens := [{ id := "a", name := "Help" }, { id := "a", name := "help!" }]

theorem generate_outcome_twoHelpPages :
    ∃ report : Report, generate twoHelpPages = .error (.rejected report) ∧
      report.errorCount = 1 ∧ (check false twoHelpPages).errorCount = 2 := by
  obtain ⟨-, -, hrejected, -⟩ := generate_outcome twoHelpPages
  have hsame : ¬ HasDistinctScreens twoHelpPages := fun h => absurd h.classes (by decide +kernel)
  obtain ⟨report, hreport, hissues, hcount, -⟩ := hrejected (List.cons_ne_nil _ _) hsame
  refine ⟨report, hreport, ?_, by decide +kernel⟩
  rw [hcount, hissues]
  decide +kernel

end Outcomes

end Wireframe.App
