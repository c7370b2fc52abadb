/-
The bytes of texts.

A text is stored character by character, and characters are in the order of their bytes.  So texts are
in the order of their bytes.

* `textBytes_eq` — the bytes of a text are those of its characters;
* `utf8EncodeChar_lt` — characters are in the order of their bytes;
* `textBytes_lt` — texts are in the order of their bytes.
-/
import Mathlib.Data.String.Basic
import Wireframe.Files.Script

namespace Wireframe.Files

/-! ### Bytes of a text -/

/-- The bytes of a text are those of its characters. -/
theorem textBytes_eq (text : String) :
    textBytes text = text.toList.flatMap String.utf8EncodeChar := by
  have hbytes : text.toUTF8 = text.toList.utf8Encode := by
    conv => lhs; rw [← String.ofList_toList (s := text)]
    rfl
  rw [textBytes, hbytes]
  exact List.toList_data_toByteArray

/-! ### Order -/

/-- A byte after the first one stands for six bits of a character. -/
theorem toNat_tail (n : Nat) : (UInt8.ofNat (n % 64 + 128)).toNat = n % 64 + 128 := by
  rw [UInt8.toNat_ofNat']
  omega

/-- The first byte of four stands for three bits of a character. -/
theorem toNat_lead (n : Nat) : (UInt8.ofNat (n % 8 + 240)).toNat = n % 8 + 240 := by
  rw [UInt8.toNat_ofNat']
  omega

/-- The first byte that differs tells which of two characters comes first, whatever follows them. -/
theorem utf8EncodeChar_lt {c d : Char} (h : c < d) (rest more : Bytes) :
    String.utf8EncodeChar c ++ rest < String.utf8EncodeChar d ++ more := by
  have hlt : c.toNat < d.toNat := h
  have hlimit : d.toNat < 0x110000 := by
    have hvalid : d.toNat < 0xD800 ∨ 0xDFFF < d.toNat ∧ d.toNat < 0x110000 := d.valid
    omega
  have hc : c.val.toNat = c.toNat := rfl
  have hd : d.val.toNat = d.toNat := rfl
  unfold String.utf8EncodeChar
  dsimp only
  rw [hc, hd]
  generalize c.toNat = m at hlt
  generalize d.toNat = n at hlt hlimit
  -- the bits of a byte are those of the byte before it and six more
  have hsix (k : Nat) : k / 64 / 64 = k / 4096 ∧ k / 4096 / 64 = k / 262144 :=
    ⟨Nat.div_div_eq_div_mul .., Nat.div_div_eq_div_mul ..⟩
  obtain ⟨hm, hm'⟩ := hsix m
  obtain ⟨hn, hn'⟩ := hsix n
  have hlead (k : Nat) (hk : k < 0x110000) : k / 262144 % 8 = k / 262144 := by omega
  have hmlead := hlead m (hlt.trans hlimit)
  have hnlead := hlead n hlimit
  split_ifs <;>
    simp only [List.cons_append, List.nil_append, List.cons_lt_cons_iff, UInt8.lt_iff_toNat_lt,
      ← UInt8.toNat_inj, toNat_tail, toNat_lead, UInt8.toNat_ofNat'] <;>
    omega

theorem flatMap_utf8EncodeChar_lt {a b : List Char} (h : a < b) :
    a.flatMap String.utf8EncodeChar < b.flatMap String.utf8EncodeChar := by
  induction b generalizing a with
  | nil => cases h
  | cons d b ih =>
    cases a with
    | nil =>
      obtain ⟨byte, bytes, hbytes⟩ : ∃ byte bytes, String.utf8EncodeChar d = byte :: bytes := by
        refine List.exists_cons_of_ne_nil ?_
        exact List.ne_nil_of_length_pos (by rw [String.length_utf8EncodeChar]; exact d.utf8Size_pos)
      rw [List.flatMap_nil, List.flatMap_cons, hbytes]
      exact List.nil_lt_cons _ _
    | cons c a =>
      rw [List.flatMap_cons, List.flatMap_cons]
      rcases List.cons_lt_cons_iff.mp h with hlt | ⟨rfl, hrest⟩
      · exact utf8EncodeChar_lt hlt _ _
      · exact List.append_left_lt (ih hrest)

/-- Texts are in the order of their bytes. -/
theorem textBytes_lt {a b : String} (h : a < b) : textBytes a < textBytes b := by
  rw [textBytes_eq, textBytes_eq]
  exact flatMap_utf8EncodeChar_lt (String.lt_iff_toList_lt.mp h)

end Wireframe.Files
