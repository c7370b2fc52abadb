/-
Documents as bytes.

A text is stored as the bytes of its characters in UTF-8.  The first byte of a character tells how many
others belong to it, and the bits of all of them together are those of the character.

* `leading?_one`, `leading?_two`, `leading?_three`, `leading?_four` — characters by their number of
  bytes;
* `leading?_utf8EncodeChar` — the bytes of a character are read as that character;
* `ofBytes_textBytes` — a text that is stored is read as itself.
-/
import Wireframe.Json.Source
import Wireframe.Proofs.Files.TextBytes

namespace Wireframe.Json.Source

section Bytes

variable {a b c d : UInt8} {rest : List UInt8}

theorem continues_iff : continues b = true ↔ 128 ≤ b.toNat ∧ b.toNat ≤ 191 := by
  simp [continues, UInt8.le_iff_toNat_le]

theorem leading?_one (ha : a.toNat < 128) :
    leading? (a :: rest) = some (Char.ofNat a.toNat, 0) := by
  unfold leading?
  exact if_pos (UInt8.lt_iff_toNat_lt.mpr ha)

theorem leading?_two (ha : 194 ≤ a.toNat ∧ a.toNat ≤ 223) (hb : continues b = true) :
    leading? (a :: b :: rest) = some (assemble (a.toNat % 32) [b], 1) := by
  have hone : ¬ a.toNat < 128 := by omega
  unfold leading?
  simp [UInt8.lt_iff_toNat_lt, UInt8.le_iff_toNat_le, hone, ha, hb]

/-- The second byte tells whether two bytes would have been enough, and whether there is such a
character. -/
theorem leading?_three (ha : 224 ≤ a.toNat ∧ a.toNat ≤ 239) (hb : continues b = true)
    (hc : continues c = true) (hlow : a.toNat = 224 → 160 ≤ b.toNat)
    (hhigh : a.toNat = 237 → b.toNat ≤ 159) :
    leading? (a :: b :: c :: rest) = some (assemble (a.toNat % 16) [b, c], 2) := by
  have hone : ¬ a.toNat < 128 := by omega
  have htwo : ¬ a.toNat ≤ 223 := by omega
  unfold leading?
  simp only [UInt8.lt_iff_toNat_lt, UInt8.le_iff_toNat_le, UInt8.reduceToNat, ← UInt8.toNat_inj,
    bne_iff_ne, ne_eq, Bool.or_eq_true, Bool.and_eq_true, decide_eq_true_eq,
    ← Decidable.imp_iff_not_or, hone, htwo, ha, hb, hc, and_false, true_and,
    and_true, if_false, if_pos]
  rw [if_pos ⟨hlow, hhigh⟩]

/-- The second byte tells whether three bytes would have been enough, and whether there is such a
character. -/
theorem leading?_four (ha : 240 ≤ a.toNat ∧ a.toNat ≤ 244) (hb : continues b = true)
    (hc : continues c = true) (hd : continues d = true) (hlow : a.toNat = 240 → 144 ≤ b.toNat)
    (hhigh : a.toNat = 244 → b.toNat ≤ 143) :
    leading? (a :: b :: c :: d :: rest) = some (assemble (a.toNat % 8) [b, c, d], 3) := by
  have hone : ¬ a.toNat < 128 := by omega
  have htwo : ¬ a.toNat ≤ 223 := by omega
  have hthree : ¬ a.toNat ≤ 239 := by omega
  unfold leading?
  simp only [UInt8.lt_iff_toNat_lt, UInt8.le_iff_toNat_le, UInt8.reduceToNat, ← UInt8.toNat_inj,
    bne_iff_ne, ne_eq, Bool.or_eq_true, Bool.and_eq_true, decide_eq_true_eq,
    ← Decidable.imp_iff_not_or, hone, htwo, hthree, ha, hb, hc, hd, and_false,
    true_and, and_true, if_false, if_pos]
  rw [if_pos ⟨hlow, hhigh⟩]

end Bytes

/-! ### Characters -/

theorem continues_tail (n : Nat) : continues (UInt8.ofNat (n % 64 + 128)) = true := by
  rw [continues_iff, Files.toNat_tail]
  omega

theorem assemble_eq {c : Char} {lead : Nat} {rest : List UInt8}
    (h : rest.foldl (fun n b => n * 64 + b.toNat % 64) lead = c.toNat) : assemble lead rest = c := by
  rw [assemble, h, Char.ofNat_toNat]

/-- The bytes of a character are read as that character. -/
theorem leading?_utf8EncodeChar (c : Char) (rest : List UInt8) :
    ∃ more, leading? (String.utf8EncodeChar c ++ rest) = some (c, more) ∧
      (String.utf8EncodeChar c).length = more + 1 := by
  have hvalid : c.toNat < 0xD800 ∨ 0xDFFF < c.toNat ∧ c.toNat < 0x110000 := c.valid
  have hnumber : c.val.toNat = c.toNat := rfl
  -- One case for each number of bytes: the first byte tells how many follow, and each of these has
  -- six bits of the letter.
  unfold String.utf8EncodeChar
  dsimp only
  rw [hnumber]
  split
  · have hfirst : (UInt8.ofNat c.toNat).toNat = c.toNat := by
      rw [UInt8.toNat_ofNat']
      omega
    refine ⟨0, ?_, rfl⟩
    rw [List.singleton_append, leading?_one (by omega), hfirst, Char.ofNat_toNat]
  split
  · have hfirst : (UInt8.ofNat (c.toNat / 64 % 32 + 192)).toNat = c.toNat / 64 + 192 := by
      rw [UInt8.toNat_ofNat']
      omega
    refine ⟨1, ?_, rfl⟩
    rw [List.cons_append, List.singleton_append, leading?_two (by omega) (continues_tail _),
      assemble_eq]
    simp only [List.foldl_cons, List.foldl_nil, hfirst, Files.toNat_tail]
    omega
  split
  · have hfirst : (UInt8.ofNat (c.toNat / 4096 % 16 + 224)).toNat = c.toNat / 4096 + 224 := by
      rw [UInt8.toNat_ofNat']
      omega
    refine ⟨2, ?_, rfl⟩
    simp only [List.cons_append, List.nil_append]
    rw [leading?_three (by omega) (continues_tail _) (continues_tail _), assemble_eq]
    · simp only [List.foldl_cons, List.foldl_nil, hfirst, Files.toNat_tail]
      omega
    · rw [hfirst, Files.toNat_tail]
      omega
    · rw [hfirst, Files.toNat_tail]
      omega
  · have hfirst : (UInt8.ofNat (c.toNat / 262144 % 8 + 240)).toNat = c.toNat / 262144 + 240 := by
      rw [UInt8.toNat_ofNat']
      omega
    refine ⟨3, ?_, rfl⟩
    simp only [List.cons_append, List.nil_append]
    rw [leading?_four (by omega) (continues_tail _) (continues_tail _) (continues_tail _),
      assemble_eq]
    · simp only [List.foldl_cons, List.foldl_nil, hfirst, Files.toNat_tail]
      omega
    · rw [hfirst, Files.toNat_tail]
      omega
    · rw [hfirst, Files.toNat_tail]
      omega

/-! ### Texts -/

theorem ofBytesAfter_append (taken rest : List UInt8) :
    ofBytesAfter taken.length (taken ++ rest) = ofBytesAfter 0 rest := by
  induction taken with
  | nil => rfl
  | cons b taken ih => exact ih

theorem ofBytes_flatMap (text : List Char) :
    ofBytes (text.flatMap String.utf8EncodeChar) = text.map .char := by
  induction text with
  | nil => rfl
  | cons c text ih =>
    obtain ⟨more, hleading, hlength⟩ := leading?_utf8EncodeChar c (text.flatMap String.utf8EncodeChar)
    obtain ⟨b, tail, hbytes⟩ := List.exists_cons_of_length_eq_add_one hlength
    rw [hbytes, List.length_cons, Nat.add_right_cancel_iff] at hlength
    rw [hbytes, List.cons_append] at hleading
    rw [List.flatMap_cons, List.map_cons, ← ih, hbytes, List.cons_append, ofBytes, ofBytesAfter]
    simp only [hleading]
    rw [← hlength, ofBytesAfter_append]
    rfl

/-- A text that is stored is read as itself. -/
theorem ofBytes_textBytes (text : String) : ofBytes (Files.textBytes text) = ofString text := by
  rw [Files.textBytes_eq, ofBytes_flatMap, ofString]

end Wireframe.Json.Source
