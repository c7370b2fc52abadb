/-
Ids and names of screens.

A screen whose name is refused adds to none of the tables that come after the one it was refused by.
Nothing is missed by that: whatever the screen would have added there is in the tables already,
since a name determines its route and a route its class.

* `NameStep` — the five things that can happen to a name;
* `Claimed.Records` — the tables hold what earlier screens have, and go on doing so;
* `Claimed.RecordsNames.findings_eq_nil_iff` — a name is accepted if it is not blank and its class is
  new;
* `names_fine_iff`, `ids_fine_iff` — the same for all screens together.
-/
import Wireframe.Proofs.App.Naming
import Wireframe.Review.Check

namespace Wireframe.Review

open Design

/-! ### Tables -/

/-- A screen with a name that is not blank has the given value derived from its name. -/
def Taken (earlier : List Screen) (key : String → String) (value : String) : Prop :=
  ∃ screen ∈ earlier, Text.isBlankText screen.name = false ∧ key screen.name = value

section Tables

variable {earlier : List Screen} {screen : Screen} {key : String → String}

theorem taken_append_singleton {value : String} : Taken (earlier ++ [screen]) key value ↔
    Taken earlier key value ∨ Text.isBlankText screen.name = false ∧ key screen.name = value := by
  simp only [Taken, List.mem_append, List.mem_singleton]
  constructor
  · rintro ⟨other, hmem | rfl, hother⟩
    · exact .inl ⟨other, hmem, hother⟩
    · exact .inr hother
  · rintro (⟨other, hmem, hother⟩ | hscreen)
    · exact ⟨other, .inl hmem, hother⟩
    · exact ⟨screen, .inr rfl, hscreen⟩

/-- A table holds a value derived from names exactly if an earlier screen has it. -/
def Covers {β : Type} (table : List (String × β)) (earlier : List Screen)
    (key : String → String) : Prop :=
  ∀ value, table.lookup value = none ↔ ¬ Taken earlier key value

variable {β : Type} {table : List (String × β)}

theorem Covers.taken (h : Covers table earlier key) {value : String} {found : β}
    (hfound : table.lookup value = some found) : Taken earlier key value := by
  by_contra hnot
  rw [(h value).mpr hnot] at hfound
  cases hfound

/-- A screen with a blank name takes nothing. -/
theorem Covers.blank (h : Covers table earlier key) (hblank : Text.isBlankText screen.name = true) :
    Covers table (earlier ++ [screen]) key := by
  intro value
  rw [h value, taken_append_singleton, hblank]
  simp

/-- A screen with a value that is taken takes nothing new. -/
theorem Covers.keep (h : Covers table earlier key) (htaken : Taken earlier key (key screen.name)) :
    Covers table (earlier ++ [screen]) key := by
  intro value
  rw [h value, taken_append_singleton, not_iff_not]
  constructor
  · exact .inl
  · rintro (hvalue | ⟨-, rfl⟩)
    · exact hvalue
    · exact htaken

theorem Covers.add (h : Covers table earlier key) (hname : Text.isBlankText screen.name = false)
    (entry : β) : Covers ((key screen.name, entry) :: table) (earlier ++ [screen]) key := by
  intro value
  rw [List.lookup_cons, taken_append_singleton]
  by_cases hvalue : value = key screen.name
  · simp [hvalue, hname]
  · rw [beq_eq_false_iff_ne.mpr hvalue]
    simp only [h value, hname, true_and, Ne.symm hvalue, or_false]

theorem idxOf?_append_singleton (keys : List String) (added k : String) :
    (keys ++ [added]).idxOf? k =
      (keys.idxOf? k).or (if k = added then some keys.length else none) := by
  unfold List.idxOf?
  rw [List.findIdx?_append]
  by_cases hk : k = added
  · simp [hk]
  · simp [hk, Ne.symm hk]

/-- A table with the first index of a key goes on to have it. -/
theorem lookup_cons_eq_idxOf? {seen : List (String × Nat)} {keys : List String} {added k : String}
    (hk : seen.lookup k = keys.idxOf? k) (hadded : added ∉ keys) :
    ((added, keys.length) :: seen).lookup k = (keys ++ [added]).idxOf? k := by
  rw [List.lookup_cons, idxOf?_append_singleton, hk]
  by_cases h : k = added
  · subst h
    simp [List.idxOf?_eq_none_iff.mpr hadded]
  · simp [beq_eq_false_iff_ne.mpr h, h]

/-- A key that is there already, or that is not asked for, changes no first index. -/
theorem idxOf?_append_of_mem {keys : List String} {added k : String} (h : added ∈ keys ∨ k ≠ added) :
    (keys ++ [added]).idxOf? k = keys.idxOf? k := by
  rw [idxOf?_append_singleton]
  by_cases hk : k = added
  · subst hk
    have hmem : (keys.idxOf? k).isSome := List.isSome_idxOf?.mpr (h.resolve_right (by simp))
    obtain ⟨i, hi⟩ := Option.isSome_iff_exists.mp hmem
    rw [hi, Option.some_or]
  · rw [if_neg hk, Option.or_none]

end Tables

namespace Claimed

variable {claimed : Claimed} {earlier : List Screen} {screen : Screen}

/-! ### Names -/

/-- What can happen to a name: what is claimed afterwards, and what is found. -/
inductive NameStep (claimed : Claimed) (index : Nat) (name : String) :
    Claimed × List Finding → Prop
  | blank (hblank : Text.isBlankText name = true) :
      NameStep claimed index name (claimed, [.emptyScreenName index])
  | sameName {first : Nat} (hname : Text.isBlankText name = false)
      (hfound : claimed.names.lookup name = some first) :
      NameStep claimed index name (claimed, [.duplicateScreenName name first])
  | sameRoute {other : String} (hname : Text.isBlankText name = false)
      (hnew : claimed.names.lookup name = none)
      (hfound : claimed.routes.lookup (App.routeId name) = some other) :
      NameStep claimed index name
        ({ claimed with names := (name, index) :: claimed.names },
          [.sameRoute other name (App.routeId name)])
  | sameClass {other : String} (hname : Text.isBlankText name = false)
      (hnew : claimed.names.lookup name = none)
      (hroute : claimed.routes.lookup (App.routeId name) = none)
      (hfound : claimed.classes.lookup (App.className name) = some other) :
      NameStep claimed index name
        ({ claimed with
            names := (name, index) :: claimed.names
            routes := (App.routeId name, name) :: claimed.routes },
          [.sameClass other name (App.className name)])
  | fresh (hname : Text.isBlankText name = false) (hnew : claimed.names.lookup name = none)
      (hroute : claimed.routes.lookup (App.routeId name) = none)
      (hclass : claimed.classes.lookup (App.className name) = none) :
      NameStep claimed index name
        ({ claimed with
            names := (name, index) :: claimed.names
            routes := (App.routeId name, name) :: claimed.routes
            classes := (App.className name, name) :: claimed.classes }, [])

theorem nameStep (claimed : Claimed) (index : Nat) (name : String) :
    NameStep claimed index name (claimed.claimName index name) := by
  unfold claimName
  cases hblank : Text.isBlankText name with
  | true => exact .blank hblank
  | false =>
    cases hnames : claimed.names.lookup name with
    | some first => exact .sameName hblank hnames
    | none =>
      cases hroutes : claimed.routes.lookup (App.routeId name) with
      | some other =>
        simp only [Bool.false_eq_true, if_false, claimRoute, hroutes]
        exact .sameRoute hblank hnames hroutes
      | none =>
        cases hclasses : claimed.classes.lookup (App.className name) with
        | some other =>
          simp only [Bool.false_eq_true, if_false, claimRoute, hroutes, claimClass, hclasses]
          exact .sameClass hblank hnames hroutes hclasses
        | none =>
          simp only [Bool.false_eq_true, if_false, claimRoute, hroutes, claimClass, hclasses]
          exact .fresh hblank hnames hroutes hclasses

/-- The tables of names, routes and classes hold what earlier screens have. -/
structure RecordsNames (claimed : Claimed) (earlier : List Screen) : Prop where
  names : ∀ name, Text.isBlankText name = false →
    claimed.names.lookup name = (earlier.map (·.name)).idxOf? name
  routes : Covers claimed.routes earlier App.routeId
  classes : Covers claimed.classes earlier App.className

theorem recordsNames_nil : RecordsNames {} [] where
  names _ _ := rfl
  routes _ := by simp [Taken]
  classes _ := by simp [Taken]

/-- A name that is in the table is that of an earlier screen, so all it stands for is taken. -/
theorem RecordsNames.taken_of_name (h : claimed.RecordsNames earlier) {name : String} {first : Nat}
    (hname : Text.isBlankText name = false) (hfound : claimed.names.lookup name = some first)
    (key : String → String) : Taken earlier key (key name) := by
  have hmem : name ∈ earlier.map (·.name) := by
    rw [h.names name hname] at hfound
    exact List.isSome_idxOf?.mp (Option.isSome_of_eq_some hfound)
  obtain ⟨other, hother, rfl⟩ := List.mem_map.mp hmem
  exact ⟨other, hother, hname, rfl⟩

/-- A route that is in the table is that of an earlier screen, so its class is taken. -/
theorem RecordsNames.taken_of_route (h : claimed.RecordsNames earlier) {name other : String}
    (hfound : claimed.routes.lookup (App.routeId name) = some other) :
    Taken earlier App.routeId (App.routeId name) ∧
      Taken earlier App.className (App.className name) := by
  obtain ⟨screen, hscreen, hname, hroute⟩ := h.routes.taken hfound
  exact ⟨⟨screen, hscreen, hname, hroute⟩,
    ⟨screen, hscreen, hname, App.className_eq_of_routeId_eq hroute⟩⟩

theorem RecordsNames.not_mem (h : claimed.RecordsNames earlier) {name : String}
    (hname : Text.isBlankText name = false) (hnew : claimed.names.lookup name = none) :
    name ∉ earlier.map (·.name) := by
  rw [h.names name hname] at hnew
  exact List.idxOf?_eq_none_iff.mp hnew

/-- The table of names with a new one. -/
theorem RecordsNames.add_name (h : claimed.RecordsNames earlier)
    (hname : Text.isBlankText screen.name = false)
    (hnew : claimed.names.lookup screen.name = none) (name : String)
    (hk : Text.isBlankText name = false) :
    ((screen.name, earlier.length) :: claimed.names).lookup name =
      ((earlier ++ [screen]).map (·.name)).idxOf? name := by
  have hcons := lookup_cons_eq_idxOf? (h.names name hk) (h.not_mem hname hnew)
  rw [List.map_append]
  rwa [List.length_map] at hcons

/-- The tables go on holding what earlier screens have, whether a name is refused or not. -/
theorem RecordsNames.claimName (h : claimed.RecordsNames earlier) (screen : Screen) :
    (claimed.claimName earlier.length screen.name).1.RecordsNames (earlier ++ [screen]) := by
  have hstep := nameStep claimed earlier.length screen.name
  generalize claimed.claimName earlier.length screen.name = result at hstep
  -- One case for each way in which a name is claimed; what is not claimed leaves the record alone.
  cases hstep with
  | blank hblank =>
    refine ⟨?_, h.routes.blank hblank, h.classes.blank hblank⟩
    intro name hname
    have hne : name ≠ screen.name := by
      rintro rfl
      rw [hblank] at hname
      cases hname
    -- A blank name is not looked up, so the record may leave it out.
    rw [h.names name hname, List.map_append]
    exact (idxOf?_append_of_mem (.inr hne)).symm
  | sameName hname hfound =>
    have htaken := h.taken_of_name hname hfound
    refine ⟨?_, h.routes.keep (htaken App.routeId), h.classes.keep (htaken App.className)⟩
    intro name hk
    have hmem : screen.name ∈ earlier.map (·.name) := by
      rw [h.names _ hname] at hfound
      exact List.isSome_idxOf?.mp (Option.isSome_of_eq_some hfound)
    rw [h.names name hk, List.map_append]
    exact (idxOf?_append_of_mem (.inl hmem)).symm
  -- A route that is taken stays with the screen that has it, and so does the class that goes with
  -- it.
  | sameRoute hname hnew hfound =>
    have htaken := h.taken_of_route hfound
    exact ⟨h.add_name hname hnew, h.routes.keep htaken.1, h.classes.keep htaken.2⟩
  | sameClass hname hnew hroute hfound =>
    exact ⟨h.add_name hname hnew, h.routes.add hname _, h.classes.keep (h.classes.taken hfound)⟩
  -- All three are new, and the screen is recorded under each.
  | fresh hname hnew hroute hclass =>
    exact ⟨h.add_name hname hnew, h.routes.add hname _, h.classes.add hname _⟩

/-- The kinds of faults that a name can have. -/
def nameCodes : List Code := [.emptyScreenName, .duplicateScreenName, .routeCollision]

theorem code_of_mem_claimName {index : Nat} {name : String} {finding : Finding}
    (h : finding ∈ (claimed.claimName index name).2) : finding.code ∈ nameCodes := by
  have hstep := nameStep claimed index name
  generalize claimed.claimName index name = result at hstep h
  cases hstep with
  | fresh => cases h
  | _ =>
    rw [List.mem_singleton.mp h]
    simp [nameCodes, Finding.code]

/-- A name is accepted if it is not blank and no earlier screen has its class. -/
theorem RecordsNames.findings_eq_nil_iff (h : claimed.RecordsNames earlier) (index : Nat)
    (name : String) : (claimed.claimName index name).2 = [] ↔
      Text.isBlankText name = false ∧ ¬ Taken earlier App.className (App.className name) := by
  have hstep := nameStep claimed index name
  generalize claimed.claimName index name = result at hstep
  cases hstep with
  | blank hblank => simp [hblank]
  | sameName hname hfound => simp [h.taken_of_name hname hfound App.className]
  | sameRoute hname hnew hfound => simp [(h.taken_of_route hfound).2]
  | sameClass hname hnew hroute hfound => simp [h.classes.taken hfound]
  | fresh hname hnew hroute hclass => simp [hname, (h.classes _).mp hclass]

/-! ### Ids -/

/-- The table of ids holds the first index of each id of an earlier screen. -/
def RecordsIds (claimed : Claimed) (earlier : List Screen) : Prop :=
  ∀ id, claimed.ids.lookup id = (earlier.map (·.id)).idxOf? id

theorem recordsIds_nil : RecordsIds {} [] := fun _ => rfl

theorem ids_claimName (claimed : Claimed) (index : Nat) (name : String) :
    (claimed.claimName index name).1.ids = claimed.ids := by
  have hstep := nameStep claimed index name
  generalize claimed.claimName index name = result at hstep
  cases hstep <;> rfl

theorem RecordsIds.claimId (h : claimed.RecordsIds earlier) (screen : Screen) :
    (claimed.claimId earlier.length screen.id).1.RecordsIds (earlier ++ [screen]) := by
  intro id
  unfold Claimed.claimId
  rw [List.map_append, List.map_singleton]
  cases hfound : claimed.ids.lookup screen.id with
  | some first =>
    have hmem : screen.id ∈ earlier.map (·.id) := by
      rw [h screen.id] at hfound
      exact List.isSome_idxOf?.mp (Option.isSome_of_eq_some hfound)
    rw [idxOf?_append_of_mem (.inl hmem)]
    exact h id
  | none =>
    have hnew : screen.id ∉ earlier.map (·.id) := by
      rw [h screen.id] at hfound
      exact List.idxOf?_eq_none_iff.mp hfound
    have hcons := lookup_cons_eq_idxOf? (h id) hnew
    rwa [List.length_map] at hcons

theorem RecordsIds.findings_eq_nil_iff (h : claimed.RecordsIds earlier) (index : Nat)
    (id : String) : (claimed.claimId index id).2 = [] ↔ id ∉ earlier.map (·.id) := by
  rw [← List.idxOf?_eq_none_iff, ← h id]
  unfold Claimed.claimId
  cases claimed.ids.lookup id <;> simp

theorem code_of_mem_claimId {index : Nat} {id : String} {finding : Finding}
    (h : finding ∈ (claimed.claimId index id).2) : finding.code = .duplicateScreenId := by
  unfold claimId at h
  split at h
  · rw [List.mem_singleton.mp h]
    rfl
  · cases h

/-! ### Screens -/

/-- The tables hold what earlier screens have. -/
structure Records (claimed : Claimed) (earlier : List Screen) : Prop where
  ids : claimed.RecordsIds earlier
  names : claimed.RecordsNames earlier

theorem records_nil : Records {} [] := ⟨recordsIds_nil, recordsNames_nil⟩

/-- Looking at the id of a screen leaves the other tables alone. -/
theorem RecordsNames.claimId (h : claimed.RecordsNames earlier) (index : Nat) (id : String) :
    (claimed.claimId index id).1.RecordsNames earlier := by
  unfold Claimed.claimId
  split
  · exact h
  · exact ⟨h.names, h.routes, h.classes⟩

/-- The tables go on holding what earlier screens have. -/
theorem Records.claim (h : claimed.Records earlier) (screen : Screen) :
    (claimed.claim earlier.length screen).1.Records (earlier ++ [screen]) where
  ids := by
    intro id
    rw [← h.ids.claimId screen id]
    exact congrArg (List.lookup id) (ids_claimName _ _ _)
  names := (h.names.claimId _ _).claimName screen

end Claimed

/-- The names of some screens are not blank, and no two screens have one class, neither among
themselves nor with an earlier one. -/
structure HaveOwnNames (earlier screens : List Screen) : Prop where
  notBlank : ∀ screen ∈ screens, Text.isBlankText screen.name = false
  notTaken : ∀ screen ∈ screens, ¬ Taken earlier App.className (App.className screen.name)
  nodup : (screens.map (App.className ·.name)).Nodup

variable {earlier screens : List Screen}

theorem haveOwnNames_cons {screen : Screen} : HaveOwnNames earlier (screen :: screens) ↔
    (Text.isBlankText screen.name = false ∧
      ¬ Taken earlier App.className (App.className screen.name)) ∧
    HaveOwnNames (earlier ++ [screen]) screens := by
  constructor
  · intro h
    have hname := h.notBlank screen List.mem_cons_self
    have hnodup := List.nodup_cons.mp h.nodup
    refine ⟨⟨hname, h.notTaken screen List.mem_cons_self⟩, ?_, ?_, hnodup.2⟩
    · exact fun other hother => h.notBlank other (List.mem_cons_of_mem screen hother)
    · intro other hother htaken
      rcases taken_append_singleton.mp htaken with htaken | ⟨-, hclass⟩
      · exact h.notTaken other (List.mem_cons_of_mem screen hother) htaken
      · exact hnodup.1 (List.mem_map.mpr ⟨other, hother, hclass.symm⟩)
  · rintro ⟨⟨hname, hnew⟩, h⟩
    refine ⟨List.forall_mem_cons.mpr ⟨hname, h.notBlank⟩, ?_, ?_⟩
    · refine List.forall_mem_cons.mpr ⟨hnew, ?_⟩
      intro other hother htaken
      exact h.notTaken other hother (taken_append_singleton.mpr (.inl htaken))
    · refine List.nodup_cons.mpr ⟨?_, h.nodup⟩
      intro hmem
      obtain ⟨other, hother, hclass⟩ := List.mem_map.mp hmem
      exact h.notTaken other hother (taken_append_singleton.mpr (.inr ⟨hname, hclass.symm⟩))

theorem haveOwnNames_nil_left : HaveOwnNames [] screens ↔
    (∀ screen ∈ screens, Text.isBlankText screen.name = false) ∧
      (screens.map (App.className ·.name)).Nodup := by
  constructor
  · exact fun h => ⟨h.notBlank, h.nodup⟩
  · rintro ⟨hnames, hnodup⟩
    exact ⟨hnames, fun _ _ => by simp [Taken], hnodup⟩

theorem forall_mem_screenIssues_cons {claimed : Claimed} {index : Nat} {screen : Screen}
    (P : Code → Prop) : (∀ issue ∈ screenIssues claimed index (screen :: screens), P issue.code) ↔
      (∀ finding ∈ (claimed.claim index screen).2, P finding.code) ∧
      ∀ issue ∈ screenIssues (claimed.claim index screen).1 (index + 1) screens, P issue.code := by
  rw [screenIssues]
  exact List.forall_mem_append.trans (and_congr_left' List.forall_mem_map)

/-- Nothing is wrong with the names of screens exactly if they are not blank and their classes are
distinct: no fault hides another one further on. -/
theorem names_fine_iff (screens : List Screen) {claimed : Claimed} (h : claimed.Records earlier) :
    (∀ issue ∈ screenIssues claimed earlier.length screens, issue.code ∉ Claimed.nameCodes) ↔
      HaveOwnNames earlier screens := by
  induction screens generalizing claimed earlier with
  | nil => exact ⟨fun _ => ⟨by simp, by simp, List.nodup_nil⟩, fun _ _ hmem => by cases hmem⟩
  | cons screen rest ih =>
    have hrest := ih (h.claim screen)
    rw [List.length_append, List.length_singleton] at hrest
    rw [forall_mem_screenIssues_cons (· ∉ Claimed.nameCodes), hrest, haveOwnNames_cons]
    refine and_congr_left' ?_
    have hnames := h.names.claimId earlier.length screen.id
    rw [← hnames.findings_eq_nil_iff earlier.length screen.name, List.eq_nil_iff_forall_not_mem]
    -- what is found about the id of a screen is of another kind
    constructor
    · intro hall finding hmem
      exact hall finding (List.mem_append_right _ hmem) (Claimed.code_of_mem_claimName hmem)
    · intro hnone finding hmem
      rcases List.mem_append.mp hmem with hmem | hmem
      · rw [Claimed.code_of_mem_claimId hmem]
        decide
      · exact absurd hmem (hnone finding)

/-- Nothing is wrong with the ids of screens exactly if they are distinct. -/
theorem ids_fine_iff (screens : List Screen) {claimed : Claimed} (h : claimed.Records earlier) :
    (∀ issue ∈ screenIssues claimed earlier.length screens, issue.code ≠ .duplicateScreenId) ↔
      (∀ screen ∈ screens, screen.id ∉ earlier.map (·.id)) ∧ (screens.map (·.id)).Nodup := by
  induction screens generalizing claimed earlier with
  | nil => simp [screenIssues]
  | cons screen rest ih =>
    have hrest := ih (h.claim screen)
    rw [List.length_append, List.length_singleton] at hrest
    -- Of the two claims that a screen makes, only the one for its id can be blamed in this way.
    have hid : (∀ finding ∈ (claimed.claim earlier.length screen).2,
        finding.code ≠ .duplicateScreenId) ↔ screen.id ∉ earlier.map (·.id) := by
      rw [← h.ids.findings_eq_nil_iff earlier.length screen.id, List.eq_nil_iff_forall_not_mem]
      constructor
      · intro hall finding hmem
        exact hall finding (List.mem_append_left _ hmem) (Claimed.code_of_mem_claimId hmem)
      · intro hnone finding hmem hcode
        rcases List.mem_append.mp hmem with hmem | hmem
        · exact hnone finding hmem
        · have hname := Claimed.code_of_mem_claimName hmem
          rw [hcode] at hname
          exact absurd hname (by decide)
    -- Ids differ from those of earlier screens and from each other, whether or not the first of the
    -- rest counts as earlier.
    rw [forall_mem_screenIssues_cons (· ≠ .duplicateScreenId), hrest, hid]
    simp only [List.forall_mem_cons, List.map_append, List.mem_append, not_or, List.map_cons,
      List.map_nil, List.mem_singleton, List.nodup_cons, List.mem_map, not_exists, not_and]
    constructor
    · rintro ⟨hscreen, hall, hnodup⟩
      exact ⟨⟨hscreen, fun other hother => (hall other hother).1⟩,
        fun other hother => (hall other hother).2, hnodup⟩
    · rintro ⟨⟨hscreen, hall⟩, hnew, hnodup⟩
      exact ⟨hscreen, fun other hother => ⟨hall other hother, hnew other hother⟩, hnodup⟩

/-- Every fault of a screen is one of its id or of its name. -/
theorem code_of_mem_screenIssues {claimed : Claimed} {index : Nat} :
    ∀ issue ∈ screenIssues claimed index screens,
      issue.code = .duplicateScreenId ∨ issue.code ∈ Claimed.nameCodes := by
  induction screens generalizing claimed index with
  | nil => exact fun _ hmem => by cases hmem
  | cons screen rest ih =>
    rw [forall_mem_screenIssues_cons fun code =>
      code = .duplicateScreenId ∨ code ∈ Claimed.nameCodes]
    refine ⟨?_, ih⟩
    intro finding hmem
    rcases List.mem_append.mp hmem with hmem | hmem
    · exact .inl (Claimed.code_of_mem_claimId hmem)
    · exact .inr (Claimed.code_of_mem_claimName hmem)

end Wireframe.Review
