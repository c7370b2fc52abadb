/-
Elements of screens.

What is found about an element depends on the element and on the ids before it, so a screen is fine
if each element is and no id is there twice.

* `HasEntry` — the entries of navigation bars;
* `rectFindings_eq_nil_iff` — rectangles without faults;
* `elementFindings_eq_nil_iff`, `elementFindings_warn_iff` — elements without faults and without
  errors;
* `forall_mem_elementIssues_iff` — the same for all elements of a screen.
-/
import Wireframe.Proofs.Binary64.Arithmetic
import Wireframe.Review.Check

namespace Wireframe.Review

open Design

/-! ### Rectangles -/

theorem isFinite_of_isOnCanvas {r : Rect .canvas} {tolerance : Float}
    (h : r.isOnCanvas tolerance = true) : r.isFinite = true := by
  simp only [Rect.isOnCanvas, Bool.and_eq_true] at h
  exact h.1.1.1.1.1.1

/-- A finite rectangle covers something unless its area is at most zero. -/
theorem not_area_le_iff {r : Rect .canvas} (h : r.isFinite = true) :
    ¬ r.area ≤ 0.0 ↔ 0.0 < r.w * r.h := by
  simp only [Rect.isFinite, Bool.and_eq_true] at h
  have harea : r.area.isNaN = false := Binary64.isNaN_mul h.1.2 h.2
  constructor
  · intro hnot
    by_contra hlt
    exact hnot (Binary64.le_of_not_lt rfl harea hlt)
  · intro hlt hle
    exact Binary64.not_lt_of_le hle hlt

theorem rectFindings_eq_nil_iff {r : Rect .canvas} :
    rectFindings r = [] ↔ r.isOnCanvas rectTolerance = true ∧ 0.0 < r.w * r.h := by
  unfold rectFindings
  cases hcanvas : r.isOnCanvas rectTolerance with
  | false => cases r.isFinite <;> simp
  | true =>
    have hfinite := isFinite_of_isOnCanvas hcanvas
    rw [← not_area_le_iff hfinite]
    simp [hfinite]

/-- A rectangle that covers nothing is no error. -/
theorem rectFindings_warn_iff {r : Rect .canvas} :
    (∀ finding ∈ rectFindings r, finding.severity = .warning) ↔
      r.isOnCanvas rectTolerance = true := by
  unfold rectFindings
  cases hcanvas : r.isOnCanvas rectTolerance with
  | false => cases r.isFinite <;> simp [Finding.severity, Finding.code]
  | true =>
    have hfinite := isFinite_of_isOnCanvas hcanvas
    by_cases harea : r.area ≤ 0.0 <;> simp [hfinite, harea, Finding.severity, Finding.code]

/-! ### Widgets -/

/-- The entry belongs to a navigation bar. -/
inductive HasEntry : Widget → NavItem → Prop
  | sidebar {p : SidebarProps} {item : NavItem} (h : item ∈ p.items) : HasEntry (.sidebar p) item
  | bottomNav {p : BottomNavProps} {item : NavItem} (h : item ∈ p.items) :
      HasEntry (.bottomNav p) item

theorem hasEntry_iff {widget : Widget} {item : NavItem} :
    HasEntry widget item ↔ item ∈ navItems widget := by
  constructor
  · rintro (h | h) <;> exact h
  · intro h
    cases widget with
    | sidebar p => exact .sidebar h
    | bottomNav p => exact .bottomNav h
    | _ => cases h

theorem kindFindings_eq_nil_iff {widget : Widget} :
    kindFindings widget = [] ↔ widget.kind?.isSome = true := by
  cases widget <;> simp [kindFindings, Widget.kind?]

theorem targetFindings_eq_nil_iff {routes : List String} {widget : Widget} :
    targetFindings routes widget = [] ↔
      ∀ item, HasEntry widget item → App.routeId item.targetScreen ∈ routes := by
  simp [targetFindings, hasEntry_iff]

theorem severity_of_mem_kindFindings {widget : Widget} {finding : Finding}
    (h : finding ∈ kindFindings widget) : finding.severity = .warning := by
  cases widget with
  | unknown tag props =>
    rw [List.mem_singleton.mp h]
    rfl
  | _ => cases h

/-! ### Kinds of faults -/

/-- The kinds of faults that an element can have. -/
def elementCodes : List Code :=
  [.duplicateElementId, .rectNotFinite, .rectOutOfBounds, .emptyRect, .unknownElementKind,
    .unknownTargetScreen]

theorem code_of_mem_rectFindings {r : Rect .canvas} {finding : Finding}
    (h : finding ∈ rectFindings r) : finding.code ∈ elementCodes := by
  unfold rectFindings at h
  split_ifs at h
  · simp [List.mem_singleton.mp h, Finding.code, elementCodes]
  · simp [List.mem_singleton.mp h, Finding.code, elementCodes]
  · simp [List.mem_singleton.mp h, Finding.code, elementCodes]
  · cases h

theorem code_of_mem_elementFindings {routes earlier : List String} {element : Element}
    {finding : Finding} (h : finding ∈ elementFindings routes earlier element) :
    finding.code ∈ elementCodes := by
  simp only [elementFindings, List.mem_append] at h
  rcases h with ((h | h) | h) | h
  · split at h
    · simp [List.mem_singleton.mp h, Finding.code, elementCodes]
    · cases h
  · exact code_of_mem_rectFindings h
  · unfold kindFindings at h
    split at h
    · simp [List.mem_singleton.mp h, Finding.code, elementCodes]
    · cases h
  · obtain ⟨item, -, rfl⟩ := List.mem_map.mp h
    simp [Finding.code, elementCodes]

theorem code_of_mem_overlayFindings {elements : List Element} {finding : Finding}
    (h : finding ∈ overlayFindings elements) : finding.code = .multipleOverlays := by
  obtain ⟨kind, -, h⟩ := List.mem_flatMap.mp h
  dsimp only at h
  split at h
  · rw [List.mem_singleton.mp h]
    rfl
  · cases h

/-! ### Elements -/

section Elements

variable {routes earlier : List String} {element : Element} {elements : List Element}

theorem idxOf?_findings_iff {id : String} {P : Finding → Prop}
    (hP : ∀ first, ¬ P (.duplicateElementId id first)) :
    (∀ finding ∈ (match earlier.idxOf? id with
      | some first => [Finding.duplicateElementId id first]
      | none => []), P finding) ↔ id ∉ earlier := by
  rw [← List.idxOf?_eq_none_iff]
  cases earlier.idxOf? id with
  | none => simp
  | some first => simp [hP first]

/-- An element without faults has an id of its own, covers a part of the canvas, is of a known kind,
and its entries lead somewhere. -/
theorem elementFindings_eq_nil_iff : elementFindings routes earlier element = [] ↔
    element.id ∉ earlier ∧
    (element.rect.isOnCanvas rectTolerance = true ∧ 0.0 < element.rect.w * element.rect.h) ∧
    element.widget.kind?.isSome = true ∧
    ∀ item, HasEntry element.widget item → App.routeId item.targetScreen ∈ routes := by
  have hid : (match earlier.idxOf? element.id with
      | some first => [Finding.duplicateElementId element.id first]
      | none => []) = [] ↔ element.id ∉ earlier :=
    List.eq_nil_iff_forall_not_mem.trans (idxOf?_findings_iff fun _ h => h)
  simp only [elementFindings, List.append_eq_nil_iff, rectFindings_eq_nil_iff,
    kindFindings_eq_nil_iff, targetFindings_eq_nil_iff, and_assoc]
  exact and_congr_left' hid

/-- An element without errors has an id of its own and stays on the canvas. -/
theorem elementFindings_warn_iff :
    (∀ finding ∈ elementFindings routes earlier element, finding.severity = .warning) ↔
      element.id ∉ earlier ∧ element.rect.isOnCanvas rectTolerance = true := by
  have hid : (∀ finding ∈ (match earlier.idxOf? element.id with
      | some first => [Finding.duplicateElementId element.id first]
      | none => []), finding.severity = .warning) ↔ element.id ∉ earlier :=
    idxOf?_findings_iff fun _ h => by cases h
  rw [← hid, ← rectFindings_warn_iff]
  simp only [elementFindings, List.forall_mem_append]
  constructor
  · exact fun h => h.1.1
  · intro h
    refine ⟨⟨h, fun _ => severity_of_mem_kindFindings⟩, ?_⟩
    exact List.forall_mem_map.mpr fun _ _ => rfl

/-- All elements of a screen are fine if each is and no two of them have one id. -/
theorem forall_mem_elementIssues_iff {screen : String} {P : Issue → Prop} {Q : Element → Prop}
    (h : ∀ earlier element, (∀ finding ∈ elementFindings routes earlier element,
      P (.of finding (.element screen element.id))) ↔ element.id ∉ earlier ∧ Q element) :
    (∀ issue ∈ elementIssues routes screen earlier elements, P issue) ↔
      (∀ element ∈ elements, element.id ∉ earlier ∧ Q element) ∧
        (elements.map (·.id)).Nodup := by
  induction elements generalizing earlier with
  | nil => simp [elementIssues]
  | cons element rest ih =>
    -- the ids before the rest are those before the element, and its own
    rw [elementIssues, List.forall_mem_append, List.forall_mem_map, h, ih]
    simp only [List.forall_mem_cons, List.mem_append, List.mem_singleton, not_or, List.map_cons,
      List.nodup_cons, List.mem_map, not_exists, not_and]
    constructor
    · rintro ⟨hfirst, hrest, hnodup⟩
      exact ⟨⟨hfirst, fun other hother => ⟨(hrest other hother).1.1, (hrest other hother).2⟩⟩,
        fun other hother => (hrest other hother).1.2, hnodup⟩
    · rintro ⟨⟨hfirst, hrest⟩, hnew, hnodup⟩
      exact ⟨hfirst, fun other hother => ⟨⟨(hrest other hother).1, hnew other hother⟩,
        (hrest other hother).2⟩, hnodup⟩

/-! ### Navigation bars -/

theorem overlayFindings_eq_nil_iff : overlayFindings elements = [] ↔
    ∀ kind ∈ [Kind.sidebar, Kind.bottomNav],
      elements.countP (·.widget.kind? = some kind) ≤ 1 := by
  simp only [overlayFindings, List.flatMap_eq_nil_iff, List.countP_eq_length_filter]
  refine forall₂_congr ?_
  intro kind _
  split <;> simp <;> omega

theorem severity_of_mem_overlayFindings {finding : Finding}
    (h : finding ∈ overlayFindings elements) : finding.severity = .warning := by
  rw [Finding.severity, code_of_mem_overlayFindings h]

end Elements

end Wireframe.Review
