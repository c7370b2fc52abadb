/-
The order of painting.

Elements are painted layer by layer: first those that are no navigation bars and then the bars, both
by their depth.  Within a layer they keep the order of the document, and the order of the document
matters for nothing else.

* `layer` — what decides when an element is painted;
* `paintedBefore_iff` — one element before another;
* `filter_paintOrder` — the elements of a layer keep their order;
* `eq_of_filter_layer_eq` — layers and the order within them determine the order of all elements;
* `screenUnit_paints` — the code of a screen.
-/
import Mathlib.Data.List.Basic
import Wireframe.App.ScreenSource

namespace Wireframe.App

open Design

/-! ### Layers -/

/-- An element is a navigation bar. -/
def IsBar (element : Element) : Prop :=
  element.widget.kind? = some .sidebar ∨ element.widget.kind? = some .bottomNav

/-- What decides when an element is painted: whether it is a navigation bar, and its depth. -/
def layer (element : Element) : Bool × Int32 := (element.widget.isOverlay, element.zIndex)

/-- Two lists hold the same elements, those of one layer in the same order. -/
structure SameLayers (elements others : List Element) : Prop where
  perm : elements.Perm others
  order : ∀ key, elements.filter (layer · = key) = others.filter (layer · = key)

theorem isOverlay_iff {element : Element} : element.widget.isOverlay = true ↔ IsBar element := by
  unfold IsBar Widget.isOverlay
  cases element.widget <;> simp [Widget.kind?, Kind.isOverlay]

/-! ### Single elements -/

section Elements

variable {a b c : Element}

/-- Bars are painted after everything else, and what lies deeper is painted first. -/
theorem paintedBefore_iff : paintedBefore a b = true ↔
    (IsBar a → IsBar b) ∧ ((IsBar a ↔ IsBar b) → a.zIndex ≤ b.zIndex) := by
  simp only [← isOverlay_iff, paintedBefore]
  cases a.widget.isOverlay <;> cases b.widget.isOverlay <;> simp

theorem paintedBefore_of_layer_eq (h : layer a = layer b) : paintedBefore a b = true := by
  obtain ⟨hbar, hdepth⟩ := Prod.mk.inj h
  rw [paintedBefore_iff, ← isOverlay_iff, ← isOverlay_iff, hbar, hdepth]
  exact ⟨id, fun _ => Int32.le_refl _⟩

theorem layer_eq_of_paintedBefore (hab : paintedBefore a b = true) (hba : paintedBefore b a = true) :
    layer a = layer b := by
  rw [paintedBefore_iff, ← isOverlay_iff, ← isOverlay_iff] at hab hba
  have hbars : a.widget.isOverlay = true ↔ b.widget.isOverlay = true := ⟨hab.1, hba.1⟩
  exact Prod.ext (Bool.eq_iff_iff.mpr hbars) (Int32.le_antisymm (hab.2 hbars) (hba.2 hbars.symm))

theorem paintedBefore_trans (a b c : Element) (hab : paintedBefore a b = true) (hbc : paintedBefore b c = true) :
    paintedBefore a c = true := by
  rw [paintedBefore_iff] at *
  refine ⟨fun ha => hbc.1 (hab.1 ha), fun hac => ?_⟩
  have hab' : IsBar a ↔ IsBar b := ⟨hab.1, fun hb => hac.mpr (hbc.1 hb)⟩
  exact Int32.le_trans (hab.2 hab') (hbc.2 (hab'.symm.trans hac))

theorem paintedBefore_total (a b : Element) : (paintedBefore a b || paintedBefore b a) = true := by
  unfold paintedBefore
  cases a.widget.isOverlay <;> cases b.widget.isOverlay <;> simp [Int32.le_total]

end Elements

/-! ### All elements -/

section Order

variable {elements others : List Element}

theorem paintOrder_perm (elements : List Element) : (paintOrder elements).Perm elements :=
  List.mergeSort_perm elements paintedBefore

theorem pairwise_paintOrder (elements : List Element) :
    (paintOrder elements).Pairwise (paintedBefore · ·) :=
  List.pairwise_mergeSort paintedBefore_trans paintedBefore_total elements

/-- The elements of a layer keep their order. -/
theorem filter_paintOrder (elements : List Element) (key : Bool × Int32) :
    (paintOrder elements).filter (layer · = key) = elements.filter (layer · = key) := by
  have hlayer : (elements.filter (layer · = key)).Pairwise (paintedBefore · ·) := by
    refine List.pairwise_of_forall_mem_list fun a ha b hb => paintedBefore_of_layer_eq ?_
    rw [of_decide_eq_true (List.mem_filter.mp ha).2, of_decide_eq_true (List.mem_filter.mp hb).2]
  -- a layer is in order already, so sorting leaves it as it is
  have hkept : (elements.filter (layer · = key)).Sublist (paintOrder elements) :=
    List.sublist_mergeSort paintedBefore_trans paintedBefore_total hlayer
      List.filter_sublist
  have hfiltered := hkept.filter (layer · = key)
  rw [List.filter_filter] at hfiltered
  simp only [Bool.and_self] at hfiltered
  exact (hfiltered.eq_of_length ((paintOrder_perm elements).filter _).length_eq.symm).symm

theorem mem_iff_of_filter_layer_eq
    (h : ∀ key, elements.filter (layer · = key) = others.filter (layer · = key))
    (element : Element) : element ∈ elements ↔ element ∈ others := by
  have hiff (list : List Element) :
      element ∈ list ↔ element ∈ list.filter (layer · = layer element) := by
    rw [List.mem_filter, decide_eq_true rfl, and_iff_left rfl]
  rw [hiff, h, ← hiff]

/-- Elements in order are determined by the elements of each layer. -/
theorem eq_of_filter_layer_eq (helements : elements.Pairwise (paintedBefore · ·))
    (hothers : others.Pairwise (paintedBefore · ·))
    (h : ∀ key, elements.filter (layer · = key) = others.filter (layer · = key)) :
    elements = others := by
  have hmem := mem_iff_of_filter_layer_eq h
  induction elements generalizing others with
  | nil =>
    exact (List.eq_nil_iff_forall_not_mem.mpr fun other hother => absurd ((hmem other).mpr hother)
      List.not_mem_nil).symm
  | cons first rest ih =>
    cases others with
    | nil => exact absurd ((hmem first).mp List.mem_cons_self) List.not_mem_nil
    | cons other others =>
      obtain ⟨hfirst, hrest⟩ := List.pairwise_cons.mp helements
      obtain ⟨hother, hbehind⟩ := List.pairwise_cons.mp hothers
      -- each of the two comes before the other one, so both are the first of one layer
      have hlayer : layer first = layer other := by
        rcases List.mem_cons.mp ((hmem first).mp List.mem_cons_self) with rfl | hlater
        · rfl
        · rcases List.mem_cons.mp ((hmem other).mpr List.mem_cons_self) with rfl | hlater'
          · rfl
          · exact layer_eq_of_paintedBefore (hfirst other hlater') (hother first hlater)
      have hheads := h (layer other)
      simp only [List.filter_cons, hlayer, decide_true, if_true] at hheads
      obtain rfl := (List.cons.inj hheads).1
      have hkeys : ∀ key, rest.filter (layer · = key) = others.filter (layer · = key) := by
        intro key
        have hkey := h key
        rw [List.filter_cons, List.filter_cons] at hkey
        split at hkey
        · exact (List.cons.inj hkey).2
        · exact hkey
      exact congrArg (first :: ·) (ih hrest hbehind hkeys (mem_iff_of_filter_layer_eq hkeys))

/-- The order of painting is the same for lists with the same layers. -/
theorem SameLayers.paintOrder_eq (h : SameLayers elements others) :
    paintOrder elements = paintOrder others := by
  refine eq_of_filter_layer_eq (pairwise_paintOrder elements) (pairwise_paintOrder others) ?_
  intro key
  rw [filter_paintOrder, filter_paintOrder, h.order]

end Order

/-! ### Screens -/

/-- Every element of a screen has its code, with its id and its depth, in the order of painting: the
bars come last, what lies deeper comes first, and the elements of a layer keep their order.  Two
screens with one id and one name, the same elements, and the same order within each layer, have the
same code throughout. -/
theorem screenUnit_paints (profile : Profile) (routes : Routes) (screen : Screen) :
    (∃ order : List Element, order.Perm screen.elements ∧
      (screenUnit profile routes screen).fragments =
        order.map (fragmentOf ⟨routes, routeId screen.name⟩) ∧
      (screenUnit profile routes screen).fragments.map (fun f => (f.elementId, f.zIndex)) =
        order.map (fun element => (element.id, element.zIndex)) ∧
      order.Pairwise (fun a b => (IsBar a → IsBar b) ∧ ((IsBar a ↔ IsBar b) → a.zIndex ≤ b.zIndex)) ∧
      ∀ key, order.filter (layer · = key) = screen.elements.filter (layer · = key)) ∧
    ∀ other : Screen, other.name = screen.name → other.id = screen.id →
      SameLayers other.elements screen.elements →
      screenUnit profile routes other = screenUnit profile routes screen := by
  constructor
  · refine ⟨paintOrder screen.elements, paintOrder_perm _, rfl, List.map_map, ?_,
      filter_paintOrder _⟩
    exact (pairwise_paintOrder _).imp paintedBefore_iff.mp
  · intro other hname hid hlayers
    rw [screenUnit, screenUnit, hname, hid, hlayers.paintOrder_eq]

/-- A screen with a bar, a box that lies deeper than a text, and the text. -/
def helpPage (elements : List Element) : Screen := { id := "help", name := "Help", elements }

/-- A bar at the bottom. -/
def bottomBar : Element :=
  { id := "bar", rect := ⟨0.0, 0.9, 1.0, 0.1⟩, widget := .bottomNav {} }

/-- Two texts at one place. -/
def twoTexts : List Element :=
  [{ id := "text", rect := ⟨0.0, 0.0, 1.0, 0.1⟩, widget := .label {} },
    { id := "text", rect := ⟨0.0, 0.0, 1.0, 0.1⟩, widget := .label { text := "Help" } }]

theorem screenUnit_paints_helpPage :
    SameLayers (bottomBar :: twoTexts) (twoTexts ++ [bottomBar]) ∧
      screenUnit .mobile {} (helpPage (bottomBar :: twoTexts)) =
        screenUnit .mobile {} (helpPage (twoTexts ++ [bottomBar])) := by
  have hlayers : SameLayers (bottomBar :: twoTexts) (twoTexts ++ [bottomBar]) := by
    refine ⟨(List.perm_append_singleton bottomBar twoTexts).symm, fun key => ?_⟩
    by_cases hbar : layer bottomBar = key
    · have hnone : twoTexts.filter (layer · = key) = [] := by
        rw [← hbar]
        decide
      rw [List.filter_cons, List.filter_append, hnone, List.nil_append, List.filter_cons]
      rfl
    · simp [List.filter_append, hbar]
  obtain ⟨-, hsame⟩ := screenUnit_paints .mobile {} (helpPage (twoTexts ++ [bottomBar]))
  exact ⟨hlayers, hsame (helpPage (bottomBar :: twoTexts)) rfl rfl hlayers⟩

end Wireframe.App
