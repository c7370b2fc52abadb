/-
The grammar of derived names.

A route id is made of words joined by underscores.  A word is not empty and holds lower-case letters
and digits of ASCII only, and the first word starts with a letter.  The words of a route id are found
again by splitting it, so all that is derived from a name is derived from its route id.

* `isIdWord_of_mem_routeWords`, `exists_head_routeWords` — the words of a route id;
* `fields_routeId` — splitting a route id;
* `className_eq_of_routeId_eq` — screens with one route have one class;
* `isAlphanum_of_mem_className`, `isUpper_head_className` — what a class name is made of.
-/
import Wireframe.App.Naming
import Wireframe.Proofs.Text.Letters
import Wireframe.Proofs.Text.Words

namespace Wireframe.App

/-! ### Characters -/

/-- A character of a word of a route id: a lower-case letter or a digit. -/
def isIdChar (c : Char) : Bool := c.isLower || c.isDigit

theorem isIdChar_toLower {c : Char} (h : c.isAlphanum) : isIdChar c.toLower := by
  by_cases hc : c.isUpper
  · have hlower := Text.isLower_toLower hc
    simp [isIdChar, hlower]
  · rw [Text.toLower_of_not_isUpper hc]
    rw [Text.isAlphanum_iff] at h
    simpa [isIdChar, hc] using h

theorem isAlphanum_toUpper {c : Char} (h : isIdChar c) : c.toUpper.isAlphanum := by
  by_cases hc : c.isLower
  · exact Text.isAlphanum_iff.mpr (.inl (.inl (Text.isUpper_toUpper hc)))
  · have hdigit : c.isDigit := by simpa [isIdChar, hc] using h
    rw [Text.toUpper_of_not_isLower hc]
    exact Text.isAlphanum_iff.mpr (.inr hdigit)

theorem isAlphanum_of_isIdChar {c : Char} (h : isIdChar c) : c.isAlphanum := by
  rcases Bool.or_eq_true_iff.mp h with h | h
  · exact Text.isAlphanum_iff.mpr (.inl (.inr h))
  · exact Text.isAlphanum_iff.mpr (.inr h)

theorem not_isUpper_of_isIdChar {c : Char} (h : isIdChar c) : ¬ c.isUpper := by
  intro hupper
  rw [isIdChar, Bool.or_eq_true, Text.isLower_iff, Text.isDigit_iff] at h
  rw [Text.isUpper_iff] at hupper
  omega

theorem toLower_of_isIdChar {c : Char} (h : isIdChar c) : c.toLower = c :=
  Text.toLower_of_not_isUpper (not_isUpper_of_isIdChar h)

/-! ### Words -/

/-- A word of a route id. -/
structure IsIdWord (word : List Char) : Prop where
  ne_nil : word ≠ []
  isIdChar : ∀ c ∈ word, isIdChar c

theorem isIdWord_of_mem_nameWords {name : String} {word : List Char} (h : word ∈ nameWords name) :
    IsIdWord word := by
  obtain ⟨run, hrun, rfl⟩ := List.mem_map.mp h
  constructor
  · rw [Ne, List.map_eq_nil_iff]
    rintro rfl
    exact Text.not_mem_runs_nil _ _ hrun
  · intro c hc
    obtain ⟨d, hd, rfl⟩ := List.mem_map.mp hc
    exact isIdChar_toLower (Text.of_mem_runs hrun hd)

theorem isIdWord_screenWord : IsIdWord screenWord where
  ne_nil := by decide
  isIdChar := List.all_eq_true.mp (by decide)

theorem isIdWord_of_mem_routeWords {name : String} {word : List Char}
    (h : word ∈ routeWords name) : IsIdWord word := by
  have hwords : ∀ word ∈ nameWords name, IsIdWord word := fun _ => isIdWord_of_mem_nameWords
  unfold routeWords at h
  split at h
  · rw [List.mem_singleton.mp h]
    exact isIdWord_screenWord
  · rename_i first rest heq
    rw [heq] at hwords
    split at h
    · exact hwords word h
    -- a word that cannot start an identifier has a word of the library put in front
    · rcases List.mem_cons.mp h with rfl | h
      · exact isIdWord_screenWord
      · exact hwords word h

/-- A route id starts with a letter. -/
theorem exists_head_routeWords (name : String) :
    ∃ c word rest, routeWords name = (c :: word) :: rest ∧ c.isLower := by
  have hwords : ∀ word ∈ nameWords name, IsIdWord word := fun _ => isIdWord_of_mem_nameWords
  unfold routeWords
  split
  · exact ⟨'s', "creen".toList, [], rfl, by decide⟩
  · rename_i first rest heq
    split
    · rename_i hletter
      rw [heq] at hwords
      have hfirst := hwords first List.mem_cons_self
      cases first with
      | nil => exact absurd rfl hfirst.ne_nil
      | cons c word =>
        refine ⟨c, word, rest, rfl, ?_⟩
        have hc := hfirst.isIdChar c List.mem_cons_self
        have hdigit : c.isDigit = false := by simpa [startsWithLetter] using hletter
        simpa [isIdChar, hdigit] using hc
    · exact ⟨'s', "creen".toList, first :: rest, rfl, by decide⟩

theorem routeWords_ne_nil (name : String) : routeWords name ≠ [] := by
  obtain ⟨c, word, rest, h, -⟩ := exists_head_routeWords name
  rw [h]
  exact List.cons_ne_nil _ _

/-- A route id consists of characters of words and underscores. -/
theorem isIdChar_or_eq_of_mem_routeId {name : String} {c : Char} (h : c ∈ (routeId name).toList) :
    isIdChar c ∨ c = '_' := by
  rw [routeId, String.toList_ofList] at h
  rcases Text.mem_joinWith h with rfl | ⟨word, hword, hc⟩
  · exact .inr rfl
  · exact .inl ((isIdWord_of_mem_routeWords hword).isIdChar c hc)

/-- The words of a route id are found again. -/
theorem fields_routeId (name : String) :
    Text.fields '_' (routeId name).toList = routeWords name := by
  rw [routeId, String.toList_ofList]
  refine Text.fields_joinWith ?_ (routeWords_ne_nil name)
  intro word hword hmem
  exact absurd ((isIdWord_of_mem_routeWords hword).isIdChar '_' hmem) (by decide)

theorem routeWords_eq_of_routeId_eq {a b : String} (h : routeId a = routeId b) :
    routeWords a = routeWords b := by
  rw [← fields_routeId a, ← fields_routeId b, h]

/-! ### Classes -/

/-- Screens with one route have one class. -/
theorem className_eq_of_routeId_eq {a b : String} (h : routeId a = routeId b) :
    className a = className b := by
  rw [className, className, routeWords_eq_of_routeId_eq h]

theorem isAlphanum_of_mem_capitalize {word : List Char} (h : ∀ c ∈ word, isIdChar c) {c : Char}
    (hc : c ∈ capitalize word) : c.isAlphanum := by
  cases word with
  | nil => cases hc
  | cons d rest =>
    rcases List.mem_cons.mp hc with rfl | hc
    · exact isAlphanum_toUpper (h d List.mem_cons_self)
    · exact isAlphanum_of_isIdChar (h c (List.mem_cons_of_mem d hc))

/-- The name of a class holds letters and digits only. -/
theorem isAlphanum_of_mem_className {name : String} {c : Char}
    (h : c ∈ (className name).toList) : c.isAlphanum := by
  rw [className, String.toList_append, String.toList_ofList, List.mem_append] at h
  rcases h with h | h
  · obtain ⟨word, hword, hc⟩ := List.mem_flatten.mp h
    obtain ⟨plain, hplain, rfl⟩ := List.mem_map.mp hword
    exact isAlphanum_of_mem_capitalize (isIdWord_of_mem_routeWords hplain).isIdChar hc
  · have hscreen : "Screen".toList.all Char.isAlphanum := by decide
    exact List.all_eq_true.mp hscreen c h

/-- The name of a class starts with a capital letter. -/
theorem isUpper_head_className (name : String) :
    ∃ c rest, (className name).toList = c :: rest ∧ c.isUpper := by
  obtain ⟨c, word, rest, h, hc⟩ := exists_head_routeWords name
  refine ⟨c.toUpper, word ++ (rest.map capitalize).flatten ++ "Screen".toList, ?_,
    Text.isUpper_toUpper hc⟩
  rw [className, h, String.toList_append, String.toList_ofList]
  rfl

end Wireframe.App
