/-
Letters and digits of ASCII.

* `isLower_iff`, `isUpper_iff`, `isDigit_iff` — the classes as ranges of numbers;
* `isAlphanum_iff` — letters and digits;
* `toNat_toLower`, `toNat_toUpper` — the number of a letter in the other case;
* `toLower_toUpper`, `toUpper_toLower` — the other case of the other case.
-/
import Mathlib.Data.List.Basic

namespace Wireframe.Text

theorem isLower_iff {c : Char} : c.isLower ↔ 97 ≤ c.toNat ∧ c.toNat ≤ 122 := by
  change (decide (97 ≤ c.val) && decide (c.val ≤ 122)) = true ↔ _
  simp [UInt32.le_iff_toNat_le, ← Char.toNat_val]

theorem isUpper_iff {c : Char} : c.isUpper ↔ 65 ≤ c.toNat ∧ c.toNat ≤ 90 := by
  change decide (65 ≤ c.val ∧ c.val ≤ 90) = true ↔ _
  simp [UInt32.le_iff_toNat_le, ← Char.toNat_val]

theorem isDigit_iff {c : Char} : c.isDigit ↔ 48 ≤ c.toNat ∧ c.toNat ≤ 57 := by
  change (decide (48 ≤ c.val) && decide (c.val ≤ 57)) = true ↔ _
  simp [UInt32.le_iff_toNat_le, ← Char.toNat_val]

theorem isAlphanum_iff {c : Char} :
    c.isAlphanum ↔ (c.isUpper ∨ c.isLower) ∨ c.isDigit := by
  change (c.isUpper || c.isLower || c.isDigit) = true ↔ _
  rw [Bool.or_eq_true, Bool.or_eq_true]

theorem toNat_toLower {c : Char} (h : c.isUpper) : c.toLower.toNat = c.toNat + 32 := by
  rw [isUpper_iff] at h
  unfold Char.toLower
  rw [dif_pos]
  · simp
    omega
  · simp only [ge_iff_le, UInt32.le_iff_toNat_le]
    exact h

theorem toLower_of_not_isUpper {c : Char} (h : ¬ c.isUpper) : c.toLower = c := by
  unfold Char.toLower
  rw [dif_neg]
  intro hrange
  exact h (decide_eq_true hrange)

theorem toNat_toUpper {c : Char} (h : c.isLower) : c.toUpper.toNat = c.toNat - 32 := by
  rw [isLower_iff] at h
  unfold Char.toUpper
  rw [dif_pos]
  · simp
    omega
  · simp only [UInt32.le_iff_toNat_le]
    exact h

theorem toUpper_of_not_isLower {c : Char} (h : ¬ c.isLower) : c.toUpper = c := by
  unfold Char.toUpper
  rw [dif_neg]
  intro hrange
  exact h (Bool.and_eq_true_iff.mpr ⟨decide_eq_true hrange.1, decide_eq_true hrange.2⟩)

theorem isUpper_toUpper {c : Char} (h : c.isLower) : c.toUpper.isUpper := by
  have hupper := toNat_toUpper h
  rw [isLower_iff] at h
  exact isUpper_iff.mpr (by omega)

theorem isLower_toLower {c : Char} (h : c.isUpper) : c.toLower.isLower := by
  have hlower := toNat_toLower h
  rw [isUpper_iff] at h
  exact isLower_iff.mpr (by omega)

theorem toLower_toUpper {c : Char} (h : c.isLower) : c.toUpper.toLower = c := by
  have hupper := toNat_toUpper h
  have hlower := toNat_toLower (isUpper_toUpper h)
  rw [isLower_iff] at h
  exact Char.toNat_inj.mp (by omega)

theorem toUpper_toLower {c : Char} (h : c.isUpper) : c.toLower.toUpper = c := by
  have hlower := toNat_toLower h
  have hupper := toNat_toUpper (isLower_toLower h)
  rw [isUpper_iff] at h
  exact Char.toNat_inj.mp (by omega)

end Wireframe.Text
