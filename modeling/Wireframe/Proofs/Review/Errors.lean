/-
Designs without errors.

* `isOk_check_singleton` — a design of one screen has no errors if the name of the screen is not
  blank, its elements have ids of their own, stay on the canvas and are of known kinds;
* `generate_of_isOk` — there is code for every design without errors.
-/
import Wireframe.Proofs.App.Generation

namespace Wireframe.Review

open Design Binary64

/-! ### One screen -/

theorem inUnit_mono {t u v : Float} (hlow : -u ≤ -t) (hhigh : 1.0 + t ≤ 1.0 + u)
    (h : Rect.inUnit t v = true) : Rect.inUnit u v = true := by
  simp only [Rect.inUnit, Bool.and_eq_true, decide_eq_true_eq] at h ⊢
  exact ⟨Binary64.le_trans hlow h.1, Binary64.le_trans h.2 hhigh⟩

/-- A rectangle that stays on the canvas up to a tolerance does so up to any greater one. -/
theorem isOnCanvas_mono {t u : Float} (hlow : -u ≤ -t) (hhigh : 1.0 + t ≤ 1.0 + u)
    {r : Rect .canvas} (h : r.isOnCanvas t = true) : r.isOnCanvas u = true := by
  simp only [Rect.isOnCanvas, Bool.and_eq_true] at h ⊢
  obtain ⟨⟨⟨⟨⟨⟨hfinite, hx⟩, hy⟩, hw⟩, hh⟩, hright⟩, hbottom⟩ := h
  have hright' := Binary64.le_trans (of_decide_eq_true hright) hhigh
  have hbottom' := Binary64.le_trans (of_decide_eq_true hbottom) hhigh
  exact ⟨⟨⟨⟨⟨⟨hfinite, inUnit_mono hlow hhigh hx⟩, inUnit_mono hlow hhigh hy⟩,
    inUnit_mono hlow hhigh hw⟩, inUnit_mono hlow hhigh hh⟩, decide_eq_true hright'⟩,
    decide_eq_true hbottom'⟩

/-- What the review objects to in no element. -/
structure IsFaultless (element : Element) : Prop where
  rect : element.rect.isOnCanvas 0.0 = true
  kind : element.widget.kind?.isSome = true

/-- A design of one screen has no errors if the screen has a name and its elements are faultless. -/
theorem isOk_check_singleton {project : Project} {screen : Screen}
    (hscreens : project.screens = [screen]) (hname : Text.isBlankText screen.name = false)
    (helements : ∀ element ∈ screen.elements, IsFaultless element)
    (hnodup : (screen.elements.map (·.id)).Nodup) : (check false project).isOk = true := by
  refine isOk_check_iff.mpr ?_
  constructor <;> simp only [hscreens, List.map_singleton, List.nodup_singleton,
    List.forall_mem_singleton, hname, hnodup]
  · exact List.cons_ne_nil _ _
  · intro element helement
    have hrect := (helements element helement).rect
    exact staysOnCanvas_iff.mpr (isOnCanvas_mono (by decide +kernel) (by decide +kernel) hrect)

/-! ### Code -/

/-- There is code for every design without errors. -/
theorem generate_of_isOk {project : Project} (h : (check false project).isOk = true) :
    App.generate project = .ok (App.sourcesOf project) := by
  have hsound := isOk_check_iff.mp h
  exact App.generate_of_distinct ⟨hsound.hasScreen, hsound.notBlank, hsound.classes⟩

end Wireframe.Review
