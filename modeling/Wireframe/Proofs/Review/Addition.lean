/-
Screens that are added to a design.

* `Fits` — a name by which the screen of a sketch can be told apart from those that are there;
* `isSound_addScreen_iff` — the design with one more screen is sound if the name of the screen fits;
* `isSound_rescaled_iff` — nothing is different for the review when a design is read again.
-/
import Wireframe.Design.Editing
import Wireframe.Proofs.Design.Document
import Wireframe.Proofs.Review.Verdict

namespace Wireframe.Review

open Design

/-- The screen of a sketch with this name is told apart from the screens of a design: the name is not
blank, and no screen has its class or the id that is derived from it.  So no screen has its route, nor
the name itself. -/
structure Fits (project : Project) (name : String) : Prop where
  named : Text.isBlankText name = false
  ownClass : ∀ screen ∈ project.screens, App.className screen.name ≠ App.className name
  ownId : ∀ screen ∈ project.screens, screen.id ≠ "screen-" ++ App.routeId name

theorem Fits.ownRoute {project : Project} {name : String} (h : Fits project name) :
    ∀ screen ∈ project.screens, App.routeId screen.name ≠ App.routeId name :=
  fun screen hscreen hroute => h.ownClass screen hscreen (App.className_eq_of_routeId_eq hroute)

section Addition

variable {project : Project} {screen : Screen}

theorem nodup_concat_iff {keys : List String} {key : String} :
    (keys ++ [key]).Nodup ↔ keys.Nodup ∧ ∀ other ∈ keys, other ≠ key := by
  rw [List.nodup_append]
  simp

/-- A new design, or one without errors, has no errors with one more screen if and only if the name of
the screen fits. -/
theorem isSound_addScreen_iff (hproject : project.screens = [] ∨ IsSound project)
    (hid : screen.id = "screen-" ++ App.routeId screen.name)
    (hids : (screen.elements.map (·.id)).Nodup)
    (hcanvas : ∀ element ∈ screen.elements, StaysOnCanvas element.rect) :
    IsSound (project.addScreen screen) ↔ Fits project screen.name := by
  have hscreens : (project.addScreen screen).screens = project.screens ++ [screen] := rfl
  constructor
  · intro h
    have hids := h.screenIds
    have hclasses := h.classes
    rw [hscreens, List.map_append, List.map_singleton, nodup_concat_iff, List.forall_mem_map]
      at hids hclasses
    exact ⟨h.notBlank screen (List.mem_append_right _ (List.mem_singleton_self _)), hclasses.2,
      fun other hother => hid ▸ hids.2 other hother⟩
  · intro h
    -- without screens there is nothing to ask of them
    have hbefore : (project.screens.map (·.id)).Nodup ∧
        (∀ other ∈ project.screens, Text.isBlankText other.name = false) ∧
        (project.screens.map (App.className ·.name)).Nodup ∧
        ∀ other ∈ project.screens, (other.elements.map (·.id)).Nodup ∧
          ∀ element ∈ other.elements, StaysOnCanvas element.rect := by
      rcases hproject with hnone | hsound
      · simp [hnone]
      · exact ⟨hsound.screenIds, hsound.notBlank, hsound.classes,
          fun other hother => ⟨hsound.elementIds other hother, hsound.onCanvas other hother⟩⟩
    obtain ⟨hscreenIds, hnotBlank, hclasses, helements⟩ := hbefore
    have hall : ∀ other ∈ (project.addScreen screen).screens,
        (other.elements.map (·.id)).Nodup ∧ ∀ element ∈ other.elements, StaysOnCanvas element.rect :=
      List.forall_mem_append.mpr ⟨helements, List.forall_mem_singleton.mpr ⟨hids, hcanvas⟩⟩
    constructor
    · exact List.append_ne_nil_of_right_ne_nil _ (List.cons_ne_nil _ _)
    · rw [hscreens, List.map_append, List.map_singleton, nodup_concat_iff, List.forall_mem_map]
      exact ⟨hscreenIds, fun other hother => hid ▸ h.ownId other hother⟩
    · exact List.forall_mem_append.mpr ⟨hnotBlank, List.forall_mem_singleton.mpr h.named⟩
    · rw [hscreens, List.map_append, List.map_singleton, nodup_concat_iff, List.forall_mem_map]
      exact ⟨hclasses, h.ownClass⟩
    · exact fun other hother => (hall other hother).1
    · exact fun other hother => (hall other hother).2

end Addition

/-! ### Designs that are read again -/

/-- Reading a design again changes nothing that the review of errors looks at. -/
theorem isSound_rescaled_iff {project : Project} : IsSound project.rescaled ↔ IsSound project := by
  -- Scaling columns touches neither ids and names nor rectangles, and the review reads nothing
  -- else.
  have hids (screen : Screen) :
      screen.rescaled.elements.map (·.id) = screen.elements.map (·.id) := List.map_map
  have hscreens {α : Type} (f : Screen → α) (hf : ∀ screen : Screen, f screen.rescaled = f screen) :
      project.rescaled.screens.map f = project.screens.map f := by
    rw [Project.rescaled, List.map_map]
    exact List.map_congr_left fun screen _ => hf screen
  have hmem {P : Screen → Prop} : (∀ screen ∈ project.rescaled.screens, P screen) ↔
      ∀ screen ∈ project.screens, P screen.rescaled := List.forall_mem_map
  have hcanvas (screen : Screen) :
      (∀ element ∈ screen.rescaled.elements, StaysOnCanvas element.rect) ↔
        ∀ element ∈ screen.elements, StaysOnCanvas element.rect := List.forall_mem_map
  have hnil : project.rescaled.screens ≠ [] ↔ project.screens ≠ [] := List.map_eq_nil_iff.not
  constructor
  · rintro ⟨hsome, hscreenIds, hnotBlank, hclasses, helementIds, honCanvas⟩
    rw [hscreens _ fun _ => rfl] at hscreenIds hclasses
    rw [hmem] at hnotBlank helementIds honCanvas
    exact ⟨hnil.mp hsome, hscreenIds, hnotBlank, hclasses,
      fun screen hscreen => hids screen ▸ helementIds screen hscreen,
      fun screen hscreen => (hcanvas screen).mp (honCanvas screen hscreen)⟩
  · rintro ⟨hsome, hscreenIds, hnotBlank, hclasses, helementIds, honCanvas⟩
    refine ⟨hnil.mpr hsome, ?_, hmem.mpr hnotBlank, ?_, hmem.mpr fun screen hscreen => ?_,
      hmem.mpr fun screen hscreen => (hcanvas screen).mpr (honCanvas screen hscreen)⟩
    · rwa [hscreens _ fun _ => rfl]
    · rwa [hscreens _ fun _ => rfl]
    · rw [hids]
      exact helementIds screen hscreen

end Wireframe.Review
