/-
What a sketch becomes stays on the canvas.

* `clamp_mem` — a number that is cut to an interval lies in it;
* `isOnCanvas_toCanvas` — the fractions that a box covers stay on the canvas, without any tolerance,
  whatever the divisions and the subtractions round;
* `size_mem`, `statedSize_mem` — sizes of text are fractions.
-/
import Wireframe.Proofs.Binary64.Arithmetic
import Wireframe.Sketch.Interpretation

namespace Wireframe.Sketch

open Design Binary64

/-- A fraction of the canvas. -/
def IsFraction (x : Float) : Prop := 0.0 ≤ x ∧ x ≤ 1.0

theorem zero_le_one : (0.0 : Float) ≤ 1.0 := by decide +kernel

/-! ### Cutting -/

/-- A number that is cut to an interval lies in it. -/
theorem clamp_mem {low high v : Float} (hle : low ≤ high) (hv : v.isNaN = false) :
    low ≤ clamp low high v ∧ clamp low high v ≤ high := by
  have hlow := isNaN_left_of_le hle
  have hhigh := isNaN_right_of_le hle
  unfold clamp
  -- what is no number would fail both tests and be left as it is
  by_cases hbelow : v < low
  · simp only [hbelow, if_true, not_lt_of_le hle, if_false]
    exact ⟨Binary64.le_refl hlow, hle⟩
  · simp only [hbelow, if_false]
    by_cases habove : high < v
    · simp only [habove, if_true]
      exact ⟨hle, Binary64.le_refl hhigh⟩
    · simp only [habove, if_false]
      exact ⟨le_of_not_lt hv hlow hbelow, le_of_not_lt hhigh hv habove⟩

theorem clampUnit_mem (v : Float) : IsFraction (clampUnit v) := by
  unfold clampUnit
  -- what is no number is cut to zero
  cases hv : v.isNaN with
  | true => exact ⟨Binary64.le_refl rfl, zero_le_one⟩
  | false => exact clamp_mem zero_le_one hv

/-! ### Numbers of a box -/

/-- A number that a box may have. -/
def IsExtent (x : Float) : Prop := x.isFinite = true ∧ 0.0 ≤ x

/-- A number that a box may have is not below zero when it is divided by the size of an image. -/
theorem zero_le_div {x : Float} (hx : IsExtent x) {n : Nat} (hn : 0 < n) :
    0.0 ≤ x / Float.ofNat n := by
  rw [nonneg_iff, unpack_div]
  exact nonneg_unpack_pack (nonneg_div (nonneg_iff.mp hx.2) hx.1 (positive_ofNat hn))

/-! ### Rectangles -/

theorem inUnit_zero {x : Float} (h : IsFraction x) : Rect.inUnit 0.0 x = true := by
  have hlow : -0.0 ≤ x := Binary64.le_trans (by decide +kernel) h.1
  have hhigh : x ≤ 1.0 + 0.0 := Binary64.le_trans h.2 (by decide +kernel)
  simp only [Rect.inUnit, hlow, hhigh, decide_true, Bool.and_self]

/-- The numbers of a box are such as a box may have. -/
structure IsBox (r : Rect .pixel) : Prop where
  x : IsExtent r.x
  y : IsExtent r.y
  w : IsExtent r.w
  h : IsExtent r.h

/-- What a place leaves of the canvas. -/
theorem room_mem (v : Float) : IsFraction (1.0 - clampUnit v) :=
  one_sub_unit (clampUnit_mem v).1 (clampUnit_mem v).2

/-- An extent that is cut to what its place leaves of the canvas. -/
theorem extent_mem (place : Float) {x : Float} (hx : IsExtent x) {n : Nat} (hn : 0 < n) :
    IsFraction (clamp 0.0 (1.0 - clampUnit place) (x / Float.ofNat n)) ∧
      clampUnit place + clamp 0.0 (1.0 - clampUnit place) (x / Float.ofNat n) ≤ 1.0 := by
  have hplace := clampUnit_mem place
  have hroom := room_mem place
  obtain ⟨hlow, hhigh⟩ := clamp_mem hroom.1 (isNaN_right_of_le (zero_le_div hx hn))
  exact ⟨⟨hlow, Binary64.le_trans hhigh hroom.2⟩, add_le_one hplace.1 hplace.2 hlow hhigh⟩

/-- The fractions that a box covers stay on the canvas, without any tolerance. -/
theorem isOnCanvas_toCanvas {r : Rect .pixel} (hr : IsBox r) {width height : Nat}
    (hwidth : 0 < width) (hheight : 0 < height) :
    (r.toCanvas (Float.ofNat width) (Float.ofNat height)).isOnCanvas 0.0 = true := by
  have hx := clampUnit_mem (r.x / Float.ofNat width)
  have hy := clampUnit_mem (r.y / Float.ofNat height)
  obtain ⟨hw, hright⟩ := extent_mem (r.x / Float.ofNat width) hr.w hwidth
  obtain ⟨hh, hbottom⟩ := extent_mem (r.y / Float.ofNat height) hr.h hheight
  have hone : (1.0 : Float) ≤ 1.0 + 0.0 := by decide +kernel
  simp only [Rect.isOnCanvas, Rect.isFinite, Rect.right, Rect.bottom, Rect.toCanvas,
    Bool.and_eq_true]
  exact ⟨⟨⟨⟨⟨⟨⟨⟨⟨isFinite_of_unit hx.1 hx.2, isFinite_of_unit hy.1 hy.2⟩,
    isFinite_of_unit hw.1 hw.2⟩, isFinite_of_unit hh.1 hh.2⟩, inUnit_zero hx⟩, inUnit_zero hy⟩,
    inUnit_zero hw⟩, inUnit_zero hh⟩, decide_eq_true (Binary64.le_trans hright hone)⟩,
    decide_eq_true (Binary64.le_trans hbottom hone)⟩

/-! ### Sizes of text -/

theorem size_mem (policy : FontPolicy) (height imageHeight : Float) :
    IsFraction (policy.size height imageHeight) := by
  cases policy with
  | stepped =>
    have hsteps : ∀ step ∈ steps, IsFraction step.2 := by
      intro step hstep
      simp only [steps, List.mem_cons, List.not_mem_nil, or_false] at hstep
      rcases hstep with rfl | rfl | rfl | rfl <;> exact ⟨by decide +kernel, by decide +kernel⟩
    have hlargest : IsFraction largestStep := ⟨by decide +kernel, by decide +kernel⟩
    unfold FontPolicy.size
    cases hfind : steps.find? (height ≤ ·.1) with
    | none => exact hlargest
    | some step => exact hsteps step (List.mem_of_find?_eq_some hfind)
  | proportional ratio =>
    unfold FontPolicy.size
    dsimp only
    split
    · exact clamp_mem zero_le_one (isNaN_of_isFinite ‹_›)
    · exact ⟨Binary64.le_refl rfl, zero_le_one⟩

theorem statedSize_mem {stated : Float} (hstated : IsExtent stated) {n : Nat} (hn : 0 < n) :
    IsFraction (statedSize stated (Float.ofNat n)) := by
  unfold statedSize
  split
  · exact ⟨hstated.2, ‹_›⟩
  · exact clamp_mem zero_le_one (isNaN_right_of_le (zero_le_div hstated hn))

end Wireframe.Sketch
