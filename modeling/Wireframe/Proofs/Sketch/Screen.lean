/-
Screens read off sketches have no errors.

What a detector answers is checked before it is used, and nothing that passes can become an element
that the review of a design objects to, or a screen that no code can be generated for.

* `isAccepted_of_readPayload` — what is known of the boxes of an answer;
* `Sound`, `sound_of_mem_elementsOf` — what is known of an element that such a box becomes;
* `interpretScreen_sound` — all of it together, from the answer to the code.
-/
import Wireframe.Proofs.Review.Errors
import Wireframe.Proofs.Sketch.Acceptance
import Wireframe.Proofs.Sketch.Canvas
import Wireframe.Proofs.Sketch.Reading

namespace Wireframe.Sketch

open Design Binary64 Review

/-! ### Answers -/

/-- What is known of a box of an answer. -/
structure IsAccepted (box : DetectedBox) : Prop where
  bb : IsBox box.bb
  fontSize : ∀ size, box.fontSize = some size → IsExtent size

theorem isExtent_of_not_lt {x : Float} (hfinite : x.isFinite = true) (h : ¬ x < 0.0) : IsExtent x :=
  ⟨hfinite, le_of_not_lt (isNaN_of_isFinite hfinite) rfl h⟩

/-- A box that conforms and is kept; a size that is no size is dropped, so one that is left is above
zero. -/
theorem isAccepted_of_keeps {given : GivenBox} {box : DetectedBox} (h : Conforms given)
    (hkeeps : Keeps given box) : IsAccepted box where
  bb := by
    have hextent : ∀ x ∈ given.bb.floats, IsExtent x := fun x hx =>
      isExtent_of_not_lt (h.finite x hx) (h.notNegative x hx)
    simp only [Rect.floats, List.forall_mem_cons] at hextent
    obtain ⟨hx, hy, hw, hh, -⟩ := hextent
    rw [hkeeps.bb]
    exact ⟨hx, hy, hw, hh⟩
  fontSize size hsize := by
    obtain ⟨-, hfinite, hpositive⟩ := (hkeeps.fontSize size).mp hsize
    exact ⟨hfinite, le_of_lt hpositive⟩

theorem isAccepted_of_forall₂ {given : List GivenBox} {boxes : List DetectedBox}
    (hall : ∀ box ∈ given, Conforms box) (hkeeps : List.Forall₂ Keeps given boxes) :
    ∀ box ∈ boxes, IsAccepted box := by
  induction hkeeps with
  | nil => exact List.forall_mem_nil _
  | cons hfirst hrest ih =>
    obtain ⟨hconforms, hall⟩ := List.forall_mem_cons.mp hall
    exact List.forall_mem_cons.mpr ⟨isAccepted_of_keeps hconforms hfirst, ih hall⟩

/-- What is known of the boxes of an answer. -/
theorem isAccepted_of_readPayload {text : String} {boxes : List DetectedBox}
    (h : readPayload text = .ok boxes) : ∀ box ∈ boxes, IsAccepted box := by
  simp only [readPayload] at h
  split at h
  · cases h
  · rename_i given hgiven
    rcases acceptFrom_cases 0 given with ⟨hall, kept, hkept, hkeeps⟩ |
      ⟨n, bad, error, -, -, -, herror, -⟩
    · obtain rfl := Except.ok.inj (hkept.symm.trans h)
      exact isAccepted_of_forall₂ hall hkeeps
    · cases herror.symm.trans h

/-! ### Elements -/

/-- The size of the text of a widget, if it has one of its own. -/
def fontSize? : Widget → Option Float
  | .label p => some p.fontSize
  | .paragraph p => some p.fontSize
  | .inputText p => some p.fontSize
  | .inputDate p => some p.fontSize
  | .button p => some p.fontSize
  | .link p => some p.fontSize
  | .table p => some p.fontSize
  | .checkbox p => some p.fontSize
  | .selector p => some p.fontSize
  | _ => none

/-- What is known of an element that an accepted box becomes. -/
structure Sound (element : Element) : Prop where
  rect : element.rect.isOnCanvas 0.0 = true
  fontSize : ∀ size, fontSize? element.widget = some size → IsFraction size
  kind : element.widget.kind?.isSome = true

theorem fontSize?_widgetOf {options : Options} {given size : Float} {taken : Option (List Placed)}
    {box : DetectedBox} (h : fontSize? (widgetOf options given taken box) = some size) :
    size = given := by
  unfold widgetOf at h
  cases hkind : box.kind with
  | selector =>
    rw [hkind] at h
    simp only [fontSize?, SelectorProps.filled] at h
    split at h <;> exact (Option.some.inj h).symm
  | sidebar | bottomNav | rectangle | ellipse | image | video | audio =>
    rw [hkind] at h
    cases h
  | _ =>
    rw [hkind] at h
    exact (Option.some.inj h).symm

theorem textSize_mem (options : Options) {box : DetectedBox} (hbox : IsAccepted box) {height : Nat}
    (hheight : 0 < height) : IsFraction (textSize options (Float.ofNat height) box) := by
  unfold textSize
  split
  · exact statedSize_mem (hbox.fontSize _ ‹_›) hheight
  · exact size_mem _ _ _

theorem sound_of_mem_elementsOf {width height : Nat} (hwidth : 0 < width) (hheight : 0 < height)
    {options : Options} {absorption : Absorption} {earlier : List Kind} {placed : List Placed}
    (hplaced : ∀ p ∈ placed, IsAccepted p.box) {element : Element}
    (h : element ∈ elementsOf (Float.ofNat width) (Float.ofNat height) options absorption earlier
      placed) : Sound element := by
  obtain ⟨n, hn⟩ := List.getElem?_of_mem h
  rw [getElem?_elementsOf] at hn
  obtain ⟨p, hp, rfl⟩ := Option.map_eq_some_iff.mp hn
  have hbox := hplaced p (List.mem_of_getElem? hp)
  refine ⟨isOnCanvas_toCanvas hbox.bb hwidth hheight, ?_, ?_⟩
  · intro size hsize
    rw [fontSize?_widgetOf hsize]
    exact textSize_mem options hbox hheight
  · show (widgetOf _ _ _ _).kind?.isSome = true
    rw [kind?_widgetOf]
    rfl

/-! ### Screens -/

/-- A screen has the elements for the boxes that no bar has taken. -/
theorem eq_of_interpretScreen {id name : String} {width height : Nat} {boxes : List DetectedBox}
    {options : Options} {screen : Screen}
    (h : interpretScreen id name width height boxes options = .ok screen) :
    0 < width ∧ 0 < height ∧ screen = ⟨id, name, elementsOf (Float.ofNat width) (Float.ofNat height)
      options (Absorption.of boxes) [] (keptOf boxes)⟩ := by
  obtain ⟨elements, hboxes, hscreen⟩ := bind_eq_ok.mp h
  unfold interpretBoxes at hboxes
  split at hboxes
  · cases hboxes
  rename_i hextent
  split at hboxes
  · cases hboxes
  cases hboxes
  exact ⟨by omega, by omega, (Except.ok.inj hscreen).symm⟩

theorem isAccepted_of_mem_keptOf {text : String} {boxes : List DetectedBox}
    (hread : readPayload text = .ok boxes) : ∀ p ∈ keptOf boxes, IsAccepted p.box := by
  intro p hp
  exact isAccepted_of_readPayload hread p.box (List.mem_of_getElem? (mem_keptOf.mp hp).1)

/-- The elements of a screen that is read off a sketch have ids of their own and are sound. -/
theorem elements_of_interpretScreen {text id name : String} {boxes : List DetectedBox}
    (hread : readPayload text = .ok boxes) {width height : Nat} {options : Options} {screen : Screen}
    (h : interpretScreen id name width height boxes options = .ok screen) :
    (screen.elements.map (·.id)).Nodup ∧ ∀ element ∈ screen.elements, Sound element := by
  obtain ⟨hwidth, hheight, rfl⟩ := eq_of_interpretScreen h
  exact ⟨nodup_elementsOf _ _,
    fun element helement => sound_of_mem_elementsOf hwidth hheight (isAccepted_of_mem_keptOf hread)
      helement⟩

/-- A screen that is read off a sketch stays on the canvas, has no errors and can be generated; no
number is ever cut to an interval whose ends are in the wrong order. -/
theorem interpretScreen_sound {text : String} {boxes : List DetectedBox}
    (hread : readPayload text = .ok boxes) (hboxes : boxes ≠ []) {width height : Nat}
    (hwidth : 1 ≤ width) (hheight : 1 ≤ height) (options : Options) (id : String) {name : String}
    (hname : Text.isBlankText name = false) :
    ∃ screen, interpretScreen id name width height boxes options = .ok screen ∧
      (∀ element ∈ screen.elements, element.rect.isOnCanvas 0.0 = true ∧
        ∀ size, fontSize? element.widget = some size → 0.0 ≤ size ∧ size ≤ 1.0) ∧
      (∀ project : Project, project.screens = [screen] →
        (check false project).isOk = true ∧ ∃ sources, App.generate project = .ok sources) ∧
      ∀ box ∈ boxes,
        let r := box.bb.toCanvas (Float.ofNat width) (Float.ofNat height)
        0.0 ≤ 1.0 - r.x ∧ 0.0 ≤ 1.0 - r.y := by
  have haccepted := isAccepted_of_readPayload hread
  have hkept : ∀ p ∈ keptOf boxes, IsAccepted p.box := by
    intro p hp
    exact haccepted p.box (List.mem_of_getElem? (mem_keptOf.mp hp).1)
  let elements := elementsOf (Float.ofNat width) (Float.ofNat height) options
    (Absorption.of boxes) [] (keptOf boxes)
  have hsound : ∀ element ∈ elements, Sound element :=
    fun element helement => sound_of_mem_elementsOf hwidth hheight hkept helement
  refine ⟨{ id, name, elements }, ?_, ?_, ?_, ?_⟩
  · unfold interpretScreen
    rw [interpretBoxes_eq hboxes hwidth hheight]
    rfl
  · intro element helement
    exact ⟨(hsound element helement).rect, (hsound element helement).fontSize⟩
  -- a design of one screen is reviewed by what is known of its elements alone
  · intro project hscreens
    have hok : (check false project).isOk = true := by
      refine isOk_check_singleton hscreens hname ?_ (nodup_elementsOf _ _)
      intro element helement
      exact ⟨(hsound element helement).rect, (hsound element helement).kind⟩
    exact ⟨hok, _, generate_of_isOk hok⟩
  · intro box _
    exact ⟨(room_mem _).1, (room_mem _).1⟩

/-- An answer with a box that reaches beyond the image. -/
def sampleAnswer : String :=
  "\x7b\"boxes\": [\x7b\"kind\": \"Label\", \"text\": \"Hello\", " ++
    "\"bb\": \x7b\"x\": 30, \"y\": -0.0, \"w\": 90, \"h\": 12.5\x7d\x7d]\x7d"

theorem interpretScreen_sound_sampleAnswer :
    ∃ boxes, readPayload sampleAnswer = .ok boxes ∧ boxes ≠ [] ∧ 1 ≤ 100 ∧ 1 ≤ 80 ∧
      Text.isBlankText "Home" = false ∧
      ∃ screen, interpretScreen "home" "Home" 100 80 boxes {} = .ok screen ∧
        (∀ element ∈ screen.elements, element.rect.isOnCanvas 0.0 = true ∧
          ∀ size, fontSize? element.widget = some size → 0.0 ≤ size ∧ size ≤ 1.0) ∧
        (∀ project : Project, project.screens = [screen] →
          (check false project).isOk = true ∧ ∃ sources, App.generate project = .ok sources) ∧
        ∀ box ∈ boxes,
          let r := box.bb.toCanvas (Float.ofNat 100) (Float.ofNat 80)
          0.0 ≤ 1.0 - r.x ∧ 0.0 ≤ 1.0 - r.y := by
  have hread : (readPayload sampleAnswer).toOption.any (!·.isEmpty) = true := by decide +kernel
  cases hboxes : readPayload sampleAnswer with
  | error e =>
    rw [hboxes] at hread
    cases hread
  | ok boxes =>
    rw [hboxes] at hread
    have hne : boxes ≠ [] := by
      rintro rfl
      cases hread
    exact ⟨boxes, rfl, hne, by decide, by decide, by decide +kernel,
      interpretScreen_sound hboxes hne (by decide) (by decide) {} "home" (by decide +kernel)⟩

end Wireframe.Sketch
