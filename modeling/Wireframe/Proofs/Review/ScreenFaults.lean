/-
What is said of each screen.

A report says of every screen what is wrong with its id and what is wrong with its name, at most one
thing of each.  Both depend on the screens before it alone, and not on what was said of these: a name
that was refused still stands in the way of later ones, by the first screen that has its class.

* `foundIn` — what is found about each of some screens;
* `IsJudged` — what is to be said of a screen;
* `Claimed.Records.isJudged` — looking at one screen;
* `isJudged_foundIn` — looking at all of them;
* `check_screenFaults` — what a report says of ids and names.
-/
import Wireframe.Proofs.Review.Verdict

namespace Wireframe.Review

open Design

/-! ### Judgements -/

/-- What is found about the id and the name of each of some screens, the first of which has the given
index. -/
def foundIn (claimed : Claimed) (index : Nat) : List Screen → List (List Finding)
  | [] => []
  | screen :: rest =>
      (claimed.claim index screen).2 :: foundIn (claimed.claim index screen).1 (index + 1) rest

/-- The kinds of faults of ids and names. -/
def screenCodes : List Code := .duplicateScreenId :: Claimed.nameCodes

/-- What is to be said of a screen with the given screens before it. -/
structure IsJudged (earlier : List Screen) (screen : Screen) (aboutId aboutName : List Finding) :
    Prop where
  /-- An id that no screen before has. -/
  newId : screen.id ∉ earlier.map (·.id) → aboutId = []
  /-- An id that the screen at `first` has and none before that one. -/
  sameId : ∀ first, (earlier.map (·.id))[first]? = some screen.id →
    screen.id ∉ (earlier.map (·.id)).take first → aboutId = [.duplicateScreenId screen.id first]
  blank : Text.isBlankText screen.name = true → aboutName = [.emptyScreenName earlier.length]
  /-- A class that no screen before has, those without a name left aside. -/
  newClass : Text.isBlankText screen.name = false →
    (∀ other ∈ earlier, Text.isBlankText other.name = false →
      App.className other.name ≠ App.className screen.name) → aboutName = []
  /-- A class that a screen before has. -/
  sameClass : Text.isBlankText screen.name = false →
    (∃ other ∈ earlier, Text.isBlankText other.name = false ∧
      App.className other.name = App.className screen.name) →
    ∃ finding, aboutName = [finding] ∧
      (finding.code = .duplicateScreenName ∧ screen.name ∈ earlier.map (·.name) ∨
        finding.code = .routeCollision ∧ screen.name ∉ earlier.map (·.name))

/-! ### Single screens -/

namespace Claimed

variable {claimed : Claimed} {earlier : List Screen} {screen : Screen}

theorem RecordsIds.findings_of_first (h : claimed.RecordsIds earlier) {id : String} {first : Nat}
    (hfirst : (earlier.map (·.id))[first]? = some id)
    (hleast : id ∉ (earlier.map (·.id)).take first) (index : Nat) :
    (claimed.claimId index id).2 = [.duplicateScreenId id first] := by
  have hfound : claimed.ids.lookup id = some first := by
    obtain ⟨hlength, hid⟩ := List.getElem?_eq_some_iff.mp hfirst
    rw [h id, List.idxOf?, List.findIdx?_eq_some_iff_getElem]
    refine ⟨hlength, beq_iff_eq.mpr hid, fun earlierIndex hless hsame => hleast ?_⟩
    exact List.mem_take_iff_getElem.mpr
      ⟨earlierIndex, Nat.lt_min.mpr ⟨hless, hless.trans hlength⟩, beq_iff_eq.mp hsame⟩
  unfold Claimed.claimId
  rw [hfound]

/-- A name that is refused is refused once, as that of another screen if there is one with it. -/
theorem RecordsNames.findings_of_taken (h : claimed.RecordsNames earlier) {name : String}
    (hname : Text.isBlankText name = false)
    (htaken : Taken earlier App.className (App.className name)) (index : Nat) :
    ∃ finding, (claimed.claimName index name).2 = [finding] ∧
      (finding.code = .duplicateScreenName ∧ name ∈ earlier.map (·.name) ∨
        finding.code = .routeCollision ∧ name ∉ earlier.map (·.name)) := by
  have hstep := nameStep claimed index name
  generalize claimed.claimName index name = result at hstep
  cases hstep with
  | blank hblank =>
    rw [hname] at hblank
    cases hblank
  | sameName _ hfound =>
    rw [h.names name hname] at hfound
    exact ⟨_, rfl, .inl ⟨rfl, List.isSome_idxOf?.mp (Option.isSome_of_eq_some hfound)⟩⟩
  | sameRoute _ hnew hfound => exact ⟨_, rfl, .inr ⟨rfl, h.not_mem hname hnew⟩⟩
  | sameClass _ hnew hroute hfound => exact ⟨_, rfl, .inr ⟨rfl, h.not_mem hname hnew⟩⟩
  | fresh _ hnew hroute hclass => exact absurd htaken ((h.classes _).mp hclass)

theorem findings_of_blank {name : String} (hname : Text.isBlankText name = true) (index : Nat) :
    (claimed.claimName index name).2 = [.emptyScreenName index] := by
  rw [claimName, if_pos hname]

/-- What is said of a screen. -/
theorem Records.isJudged (h : claimed.Records earlier) (screen : Screen) :
    ∃ aboutId aboutName, (claimed.claim earlier.length screen).2 = aboutId ++ aboutName ∧
      IsJudged earlier screen aboutId aboutName := by
  have hnames := h.names.claimId earlier.length screen.id
  refine ⟨_, _, rfl, ?_, ?_, ?_, ?_, ?_⟩
  · exact (h.ids.findings_eq_nil_iff _ _).mpr
  · exact fun first hfirst hleast => h.ids.findings_of_first hfirst hleast _
  · exact fun hblank => findings_of_blank hblank _
  · intro hname hnone
    refine (hnames.findings_eq_nil_iff _ _).mpr ⟨hname, ?_⟩
    rintro ⟨other, hother, hnotBlank, hclass⟩
    exact hnone other hother hnotBlank hclass
  · exact fun hname htaken => hnames.findings_of_taken hname htaken _

end Claimed

/-! ### Reports -/

section Reports

variable {earlier screens : List Screen}

/-- The issues with ids and names are what is found about one screen after the other. -/
theorem screenIssues_eq (claimed : Claimed) (index : Nat) (screens : List Screen) :
    screenIssues claimed index screens =
      (screens.zip (foundIn claimed index screens)).flatMap fun (screen, found) =>
        found.map (.of · (.screen screen.name)) := by
  induction screens generalizing claimed index with
  | nil => rfl
  | cons screen rest ih =>
    rw [foundIn, List.zip_cons_cons, List.flatMap_cons, ← ih]
    rfl

/-- What is said of the screen at an index, the screens before the first one being the earlier ones. -/
theorem isJudged_foundIn {claimed : Claimed} (h : claimed.Records earlier) {index : Nat}
    {screen : Screen} (hscreen : screens[index]? = some screen) :
    ∃ aboutId aboutName,
      (foundIn claimed earlier.length screens)[index]? = some (aboutId ++ aboutName) ∧
        IsJudged (earlier ++ screens.take index) screen aboutId aboutName := by
  induction screens generalizing claimed earlier index with
  | nil => cases hscreen
  | cons first rest ih =>
    cases index with
    | zero =>
      obtain rfl := Option.some.inj hscreen
      obtain ⟨aboutId, aboutName, hfound, hjudged⟩ := h.isJudged first
      rw [List.take_zero, List.append_nil]
      exact ⟨aboutId, aboutName, congrArg some hfound, hjudged⟩
    | succ index =>
      have hrest := ih (h.claim first) hscreen
      rw [List.length_append, List.length_singleton, List.append_assoc] at hrest
      exact hrest

theorem code_mem_screenCodes {claimed : Claimed} {index : Nat} {issue : Issue}
    (h : issue ∈ screenIssues claimed index screens) : issue.code ∈ screenCodes :=
  List.mem_cons.mpr (code_of_mem_screenIssues issue h)

/-- What a report says of ids and names, strict or not. -/
theorem filter_screenCodes_check (strict : Bool) (project : Project) :
    (check strict project).issues.filter (·.code ∈ screenCodes) =
      screenIssues {} 0 project.screens := by
  have hissues : (issues project).filter (·.code ∈ screenCodes) =
      screenIssues {} 0 project.screens := by
    by_cases hscreens : project.screens = []
    · rw [issues_of_no_screens hscreens, hscreens]
      rfl
    · have hwithin : (project.screens.flatMap (withinScreen (project.screens.map
          (App.routeId ·.name)))).filter (·.code ∈ screenCodes) = [] := by
        refine List.filter_eq_nil_iff.mpr fun issue hissue hcode => ?_
        obtain ⟨screen, -, hissue⟩ := List.mem_flatMap.mp hissue
        have hdisjoint : ∀ code ∈ withinCodes, code ∉ screenCodes := by decide
        exact hdisjoint _ (code_of_mem_withinScreen hissue) (of_decide_eq_true hcode)
      rw [issues_of_screens hscreens, List.filter_append, hwithin, List.append_nil]
      exact List.filter_eq_self.mpr fun issue hissue => decide_eq_true (code_mem_screenCodes hissue)
  cases strict with
  | false => exact hissues
  | true =>
    -- what is found about ids and names is an error already
    have hpromote : ∀ issue ∈ screenIssues {} 0 project.screens, issue.promote = issue := by
      intro issue hissue
      rw [Issue.promote, ← severity_of_mem_screenIssues hissue]
    have hstrict : (check true project).issues.filter (·.code ∈ screenCodes) =
        ((issues project).filter (·.code ∈ screenCodes)).map Issue.promote := List.filter_map
    rw [hstrict, hissues, List.map_congr_left hpromote, List.map_id']

/-- What a report says of ids and names is what is said of one screen after the other, and this is
what is to be said: of an id that an earlier screen has, the first such screen; of a blank name, that
it is blank; of any other name exactly one thing if an earlier screen that has a name has its class,
which is that the name is there already if it is, and otherwise nothing. -/
theorem check_screenFaults (strict : Bool) (project : Project) :
    (check strict project).issues.filter (·.code ∈ screenCodes) =
      (project.screens.zip (foundIn {} 0 project.screens)).flatMap (fun (screen, found) =>
        found.map (.of · (.screen screen.name))) ∧
    ∀ index screen, project.screens[index]? = some screen →
      ∃ aboutId aboutName,
        (foundIn {} 0 project.screens)[index]? = some (aboutId ++ aboutName) ∧
          IsJudged (project.screens.take index) screen aboutId aboutName := by
  refine ⟨?_, fun index screen hscreen => ?_⟩
  · rw [filter_screenCodes_check, screenIssues_eq]
  · exact isJudged_foundIn Claimed.records_nil hscreen

/-- A design in which a refused name stands in the way of a later one. -/
def crowdedHome : Project where
  screens := [{ id := "a", name := "Home" }, { id := "b", name := "Home" },
    { id := "a", name := "home!" }, { id := "c", name := " " }]

theorem check_screenFaults_crowdedHome :
    crowdedHome.screens[2]? = some { id := "a", name := "home!" } ∧
      ∃ finding, (foundIn {} 0 crowdedHome.screens)[2]? =
          some [.duplicateScreenId "a" 0, finding] ∧ finding.code = .routeCollision := by
  obtain ⟨-, hjudged⟩ := check_screenFaults true crowdedHome
  obtain ⟨aboutId, aboutName, hfound, hscreen⟩ := hjudged 2 _ rfl
  have hid := hscreen.sameId 0 rfl (by decide +kernel)
  obtain ⟨finding, hname, hcode⟩ := hscreen.sameClass (by decide +kernel)
    ⟨{ id := "a", name := "Home" }, List.mem_cons_self, by decide +kernel, by decide +kernel⟩
  refine ⟨rfl, finding, ?_, ?_⟩
  · rw [hfound, hid, hname]
    rfl
  · exact (hcode.resolve_left fun hsame => absurd hsame.2 (by decide +kernel)).1

end Reports

end Wireframe.Review
