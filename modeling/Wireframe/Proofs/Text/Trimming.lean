/-
What is trimmed off a text.

* `trimWhile_append` — what surrounds a text and is trimmed off does not matter;
* `exists_trimWhile`, `eq_false_of_mem_ends` — what is trimmed off, and what is not;
* `trimWhile_eq_self`, `trimWhile_of_all`, `trimWhile_of_ends` — texts with nothing to trim.
-/
import Mathlib.Data.List.DropRight
import Wireframe.Text.Blank

namespace Wireframe.Text

variable {p : Char → Bool} {cs : List Char}

theorem dropEndWhile_append {behind : List Char} (h : ∀ c ∈ behind, p c = true) (cs : List Char) :
    dropEndWhile p (cs ++ behind) = dropEndWhile p cs := by
  have hreverse : ∀ c ∈ behind.reverse, p c = true := fun c hc => h c (List.mem_reverse.mp hc)
  rw [dropEndWhile, List.reverse_append, List.dropWhile_append_of_pos hreverse]
  rfl

/-- What is trimmed off around a text does not matter. -/
theorem trimWhile_append {before behind : List Char} (hbefore : ∀ c ∈ before, p c = true)
    (hbehind : ∀ c ∈ behind, p c = true) (cs : List Char) :
    trimWhile p (before ++ cs ++ behind) = trimWhile p cs := by
  rw [trimWhile, trimWhile, List.append_assoc, List.dropWhile_append_of_pos hbefore,
    List.dropWhile_append]
  split
  -- a text of nothing else leaves what stands behind it, which is trimmed off as well
  · rename_i hempty
    rw [List.isEmpty_iff.mp hempty, List.dropWhile_eq_nil_iff.mpr hbehind]
  · exact dropEndWhile_append hbehind _

theorem dropEndWhile_concat {c : Char} (hc : p c = false) (cs : List Char) :
    dropEndWhile p (cs ++ [c]) = cs ++ [c] :=
  List.rdropWhile_concat_neg p cs c (Bool.eq_false_iff.mp hc)

theorem dropWhile_of_all (h : ∀ c ∈ cs, p c = false) : cs.dropWhile p = cs := by
  cases cs with
  | nil => rfl
  | cons c cs => rw [List.dropWhile_cons_of_neg (by simp [h c List.mem_cons_self])]

/-- What is trimmed off are characters at the ends. -/
theorem exists_trimWhile (p : Char → Bool) (cs : List Char) : ∃ before after,
    cs = before ++ trimWhile p cs ++ after ∧ ∀ c ∈ before ++ after, p c = true := by
  refine ⟨cs.takeWhile p, (cs.dropWhile p).rtakeWhile p, ?_, fun c hc => ?_⟩
  · have hend : trimWhile p cs ++ (cs.dropWhile p).rtakeWhile p = cs.dropWhile p :=
      List.rdropWhile_append_rtakeWhile
    rw [List.append_assoc, hend, List.takeWhile_append_dropWhile]
  · rcases List.mem_append.mp hc with hc | hc
    · exact List.mem_takeWhile_imp hc
    · exact List.mem_rtakeWhile_imp hc

/-- What is left has other characters at its ends. -/
theorem eq_false_of_mem_ends {c : Char}
    (hc : c ∈ (trimWhile p cs).head? ∨ c ∈ (trimWhile p cs).getLast?) : p c = false := by
  rcases hc with hc | hc
  · -- what begins the rest is what is left first
    obtain ⟨after, hafter⟩ : trimWhile p cs <+: cs.dropWhile p := List.rdropWhile_prefix p _
    have hhead : (cs.dropWhile p).head? = some c := by
      rw [← hafter, List.head?_append, Option.mem_def.mp hc]
      rfl
    have hfirst := List.head?_dropWhile_not p cs
    rwa [hhead] at hfirst
  · obtain ⟨hne, rfl⟩ := List.mem_getLast?_eq_getLast hc
    exact Bool.eq_false_iff.mpr (List.rdropWhile_last_not p _ hne)

/-- A text with other characters at its ends has nothing to trim. -/
theorem trimWhile_eq_self (h : ∀ c, c ∈ cs.head? ∨ c ∈ cs.getLast? → p c = false) :
    trimWhile p cs = cs := by
  have hfirst : cs.dropWhile p = cs := by
    refine List.dropWhile_eq_self_iff.mpr fun hlength => ?_
    rw [h cs[0] (.inl (List.head?_eq_getElem? ▸ List.getElem?_eq_getElem hlength))]
    exact Bool.false_ne_true
  have hlast : cs.rdropWhile p = cs := by
    refine List.rdropWhile_eq_self_iff.mpr fun hne => ?_
    rw [h (cs.getLast hne) (.inr (List.getLast?_eq_getLast_of_ne_nil hne))]
    exact Bool.false_ne_true
  rw [trimWhile, hfirst]
  exact hlast

theorem trimWhile_of_all (h : ∀ c ∈ cs, p c = false) : trimWhile p cs = cs :=
  trimWhile_eq_self fun c hc => h c (hc.elim List.mem_of_mem_head? List.mem_of_mem_getLast?)

theorem trimWhile_of_ends {first last : Char} (hfirst : p first = false) (hlast : p last = false)
    (cs : List Char) : trimWhile p (first :: cs ++ [last]) = first :: cs ++ [last] := by
  refine trimWhile_eq_self fun c hc => ?_
  rcases hc with hc | hc
  · obtain rfl : first = c := by simpa using hc
    exact hfirst
  · rw [Option.mem_def, List.getLast?_concat] at hc
    obtain rfl := Option.some.inj hc
    exact hlast

end Wireframe.Text
