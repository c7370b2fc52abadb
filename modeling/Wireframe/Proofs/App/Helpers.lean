/-
Helper classes of a screen.

However many widgets need a helper, it is defined once, by the classes that the library has for it.
What holds of an empty table of helpers, and goes on to hold when a helper is registered, holds of
the helpers of every screen.

* `helpers_ofElements` — what holds of the helpers of a screen;
* `IsHelperTable` — tables of helpers in their order, each with its own classes;
* `nodup_unit_classNames` — the classes of a screen have different names.
-/
import Mathlib.Data.List.Nodup
import Wireframe.App.Sources
import Wireframe.Proofs.App.Naming

namespace Wireframe.App

open Dart Design

/-! ### Tables -/

namespace HelperTable

variable {δ : Type} {helper : Helper} {definition : δ} {entries : List (Helper × δ)}

theorem mem_place {entry : Helper × δ} (h : entry ∈ place helper definition entries) :
    entry = (helper, definition) ∨ entry ∈ entries := by
  induction entries with
  | nil => exact .inl (List.mem_singleton.mp h)
  | cons first rest ih =>
      rw [place] at h
      split at h
      · exact List.mem_cons.mp h
      · split at h
        · exact .inr h
        · rcases List.mem_cons.mp h with rfl | h
          · exact .inr List.mem_cons_self
          · exact (ih h).imp_right (List.mem_cons_of_mem first)

/-- The entries are in the order of the helpers, each helper once. -/
def InOrder (entries : List (Helper × δ)) : Prop :=
  entries.Pairwise fun a b => a.1.rank < b.1.rank

theorem InOrder.place (h : InOrder entries) : InOrder (place helper definition entries) := by
  induction entries with
  | nil => exact List.pairwise_singleton _ _
  | cons first rest ih =>
    have hpair := List.pairwise_cons.mp h
    unfold HelperTable.place
    by_cases hless : helper.rank < first.1.rank
    · rw [if_pos hless]
      refine List.pairwise_cons.mpr ⟨List.forall_mem_cons.mpr ⟨hless, ?_⟩, h⟩
      intro entry hentry
      exact Nat.lt_trans hless (hpair.1 entry hentry)
    · rw [if_neg hless]
      by_cases hsame : helper.rank = first.1.rank
      · rwa [if_pos hsame]
      · rw [if_neg hsame]
        -- what goes further on is the new helper, which ranks above this one, or was there before
        refine List.pairwise_cons.mpr ⟨?_, ih hpair.2⟩
        intro entry hentry
        rcases mem_place hentry with rfl | hentry
        · show first.1.rank < helper.rank
          omega
        · exact hpair.1 entry hentry

theorem InOrder.nodup (h : InOrder entries) : (entries.map (·.1)).Nodup := by
  rw [List.Nodup, List.pairwise_map]
  refine h.imp ?_
  intro a b hless heq
  rw [heq] at hless
  exact absurd hless (Nat.lt_irrefl _)

end HelperTable

/-- What holds of the empty table of helpers, and of every table once a helper is registered, holds
of the helpers of a screen. -/
theorem helpers_ofElements {P : HelperTable (List ClassDecl) → Prop} (hnil : P {})
    (hregister : ∀ table (helper : Helper), P table → P (table.register helper helper.classes))
    (around : Surroundings) (elements : List Element) :
    P (ScreenState.ofElements around elements).helpers := by
  have hnote (state : ScreenState) (element : Element) (h : P state.helpers) :
      P (state.note around element).helpers := by
    have hhelper : P (state.noteHelper element.widget).helpers := by
      unfold ScreenState.noteHelper
      split
      · exact hregister _ _ h
      · exact h
    unfold ScreenState.note ScreenState.noteBar
    split <;> exact hhelper
  -- the state that the fold starts with varies, so that the induction is on the elements alone
  have hrun (state : ScreenState) (h : P state.helpers) :
      P (elements.foldl (ScreenState.note around) state).helpers := by
    induction elements generalizing state with
    | nil => exact h
    | cons element rest ih => exact ih _ (hnote state element h)
  exact hrun {} hnil

/-- Helpers in their order, each defined by its own classes. -/
structure IsHelperTable (table : HelperTable (List ClassDecl)) : Prop where
  inOrder : HelperTable.InOrder table.entries
  defined : ∀ entry ∈ table.entries, entry.2 = entry.1.classes

theorem isHelperTable_ofElements (around : Surroundings) (elements : List Element) :
    IsHelperTable (ScreenState.ofElements around elements).helpers := by
  refine helpers_ofElements ⟨List.Pairwise.nil, List.forall_mem_nil _⟩ ?_ around elements
  intro table helper h
  refine ⟨h.inOrder.place, ?_⟩
  intro entry hentry
  rcases HelperTable.mem_place hentry with rfl | hentry
  · rfl
  · exact h.defined entry hentry

/-! ### Names of classes -/

/-- The names of the classes of a helper. -/
def Helper.classNames (helper : Helper) : List String := helper.classes.map (·.name)

theorem nodup_helper_classNames (helper : Helper) : helper.classNames.Nodup := by
  cases helper <;> decide

theorem disjoint_helper_classNames {a b : Helper} (h : a ≠ b) :
    List.Disjoint a.classNames b.classNames := by
  rw [List.disjoint_left]
  revert h
  cases a <;> cases b <;> decide

/-- No class of a helper is named like one of a screen. -/
theorem head?_of_mem_helper_classNames : ∀ (helper : Helper), ∀ name ∈ helper.classNames,
    name.toList.head? = some '_' ∧ ¬ "ScreenState".toList <:+ name.toList := by
  intro helper
  cases helper <;> decide

theorem head?_className_ne (name : String) : (className name).toList.head? ≠ some '_' := by
  obtain ⟨c, rest, hname, hupper⟩ := isUpper_head_className name
  rw [hname, List.head?_cons, Ne, Option.some.injEq]
  rintro rfl
  exact absurd hupper (by decide)

theorem head?_stateClassName (className : String) :
    (stateClassName className).toList.head? = some '_' := by
  simp [stateClassName]

theorem isSuffix_stateClassName (name : String) :
    "ScreenState".toList <:+ (stateClassName (className name)).toList := by
  refine ⟨'_' :: ((routeWords name).map capitalize).flatten, ?_⟩
  simp [stateClassName, className]

/-- The names of the classes of a screen. -/
theorem map_name_unit_classes (profile : Profile) (routes : Routes) (screen : Screen) :
    (screenUnit profile routes screen).classes.map (·.name) =
      (screenUnit profile routes screen).helpers.flatMap (·.1.classNames) ++
        [className screen.name, stateClassName (className screen.name)] := by
  have htable := isHelperTable_ofElements ⟨routes, (Names.ofName screen.name).routeId⟩
    (paintOrder screen.elements)
  have hhelpers : (screenUnit profile routes screen).helpers.flatMap (·.2.map (·.name)) =
      (screenUnit profile routes screen).helpers.flatMap (·.1.classNames) := by
    refine List.flatMap_congr ?_
    intro entry hentry
    rw [htable.defined entry hentry]
    rfl
  rw [← hhelpers, ← List.map_flatMap]
  exact List.map_append

/-- No name of a class holds a blank. -/
theorem blank_not_mem_unit_className {profile : Profile} {routes : Routes} {screen : Screen}
    {c : ClassDecl} (hc : c ∈ (screenUnit profile routes screen).classes) :
    ' ' ∉ c.name.toList := by
  have hscreen : ' ' ∉ (className screen.name).toList := by
    intro hmem
    exact absurd (isAlphanum_of_mem_className hmem) (by decide)
  have hname : c.name ∈ (screenUnit profile routes screen).classes.map (·.name) :=
    List.mem_map.mpr ⟨c, hc, rfl⟩
  rw [map_name_unit_classes, List.mem_append] at hname
  rcases hname with hname | hname
  · obtain ⟨entry, -, hname⟩ := List.mem_flatMap.mp hname
    have hhelper : ∀ helper : Helper, ∀ name ∈ helper.classNames, ' ' ∉ name.toList := by
      intro helper
      cases helper <;> decide
    exact hhelper entry.1 c.name hname
  · rcases List.mem_pair.mp hname with hname | hname
    · rwa [hname]
    · rw [hname, stateClassName, String.toList_append, String.toList_append, List.mem_append,
        List.mem_append, not_or, not_or]
      exact ⟨⟨by decide, hscreen⟩, by decide⟩

/-- The classes of a screen have different names. -/
theorem nodup_unit_classNames (profile : Profile) (routes : Routes) (screen : Screen) :
    ((screenUnit profile routes screen).classes.map (·.name)).Nodup := by
  have htable := isHelperTable_ofElements ⟨routes, (Names.ofName screen.name).routeId⟩
    (paintOrder screen.elements)
  rw [map_name_unit_classes, List.nodup_append']
  refine ⟨?_, ?_, ?_⟩
  -- no helper is there twice, and two helpers share no class
  · rw [List.nodup_flatMap]
    refine ⟨fun entry _ => nodup_helper_classNames entry.1, ?_⟩
    refine htable.inOrder.imp ?_
    intro a b hless
    refine disjoint_helper_classNames ?_
    intro heq
    rw [heq] at hless
    exact absurd hless (Nat.lt_irrefl _)
  -- the first character tells the class of a screen from that of its state
  · rw [List.nodup_cons, List.mem_singleton]
    refine ⟨?_, List.nodup_singleton _⟩
    intro heq
    have hhead := head?_stateClassName (className screen.name)
    rw [← heq] at hhead
    exact head?_className_ne screen.name hhead
  -- and the end of the name tells the latter from the classes of helpers
  · rw [List.disjoint_left]
    intro name hname hscreen
    obtain ⟨entry, -, hname⟩ := List.mem_flatMap.mp hname
    obtain ⟨hhead, hsuffix⟩ := head?_of_mem_helper_classNames entry.1 name hname
    rcases List.mem_pair.mp hscreen with rfl | rfl
    · exact head?_className_ne screen.name hhead
    · exact hsuffix (isSuffix_stateClassName screen.name)

end Wireframe.App
