/-
Screens with one class.

In a class the words of a route id stand without anything between them, each with a capital letter in
front.  So the words can be told apart unless they start with a digit, and nothing else is lost: with
an underscore in front of every capital letter, a class reads like a route id that has no underscores
in front of digits.

* `closeUp` — a text without the underscores in front of digits;
* `spelling_classBody` — a class and a route id that is closed up;
* `unspelled_spelling` — a class is found again in its spelling;
* `className_eq_iff_closeUp` — two screens have one class if their route ids agree when closed up;
* `className_collisions` — what it takes for screens with different routes to have one class.
-/
import Wireframe.Proofs.App.Naming

namespace Wireframe.App

/-! ### Route ids -/

/-- A text without the underscores that are directly followed by a digit. -/
def closeUp : List Char → List Char
  | [] => []
  | c :: rest => if c = '_' ∧ rest.head?.any Char.isDigit then closeUp rest else c :: closeUp rest

/-- A word with an underscore in front, unless it starts with a digit. -/
def marked (word : List Char) : List Char := if startsWithLetter word then '_' :: word else word

theorem closeUp_append {word : List Char} (h : '_' ∉ word) (rest : List Char) :
    closeUp (word ++ rest) = word ++ closeUp rest := by
  induction word with
  | nil => rfl
  | cons c word ih =>
    obtain ⟨hc, hword⟩ := not_or.mp (List.mem_cons.not.mp h)
    rw [List.cons_append, closeUp, if_neg fun hdrop => hc hdrop.1.symm, ih hword, List.cons_append]

theorem IsIdWord.underscore_not_mem {word : List Char} (h : IsIdWord word) : '_' ∉ word :=
  fun hmem => absurd (h.isIdChar '_' hmem) (by decide)

/-- Of the underscores in front of words, those in front of digits are left out. -/
theorem closeUp_flatMap {words : List (List Char)} (h : ∀ word ∈ words, IsIdWord word) :
    closeUp (words.flatMap ('_' :: ·)) = words.flatMap marked := by
  induction words with
  | nil => rfl
  | cons word rest ih =>
    obtain ⟨hword, hrest⟩ := List.forall_mem_cons.mp h
    have hbehind := closeUp_append hword.underscore_not_mem (rest.flatMap ('_' :: ·))
    rw [ih hrest] at hbehind
    rw [List.flatMap_cons, List.flatMap_cons, List.cons_append, closeUp, hbehind]
    cases word with
    | nil => exact absurd rfl hword.ne_nil
    | cons c word =>
      cases hdigit : c.isDigit <;> simp [marked, startsWithLetter, hdigit]

/-- A route id that is closed up, with an underscore in front. -/
theorem cons_closeUp_routeId (name : String) :
    '_' :: closeUp (routeId name).toList = (routeWords name).flatMap marked := by
  have hwords : ∀ word ∈ routeWords name, IsIdWord word := fun _ => isIdWord_of_mem_routeWords
  rw [← closeUp_flatMap hwords, ← Text.cons_joinWith '_' (routeWords_ne_nil name), routeId,
    String.toList_ofList]
  -- the underscore in front is followed by a letter
  obtain ⟨c, word, rest, hfirst, hc⟩ := exists_head_routeWords name
  have hhead : (Text.joinWith ['_'] (routeWords name)).head? = some c := by
    rw [hfirst]
    cases rest <;> rfl
  have hdigit : ¬ c.isDigit := by
    rw [Text.isDigit_iff]
    rw [Text.isLower_iff] at hc
    omega
  rw [closeUp, if_neg]
  rw [hhead]
  exact fun hdrop => hdigit hdrop.2

/-- Nothing is left out if all words start with letters. -/
theorem closeUp_routeId {name : String}
    (h : ∀ word ∈ routeWords name, startsWithLetter word = true) :
    closeUp (routeId name).toList = (routeId name).toList := by
  have hmarked : (routeWords name).flatMap marked = (routeWords name).flatMap ('_' :: ·) :=
    List.flatMap_congr fun word hword => if_pos (h word hword)
  have hcons := cons_closeUp_routeId name
  rw [hmarked, ← Text.cons_joinWith '_' (routeWords_ne_nil name)] at hcons
  rw [List.tail_eq_of_cons_eq hcons, routeId, String.toList_ofList]

/-! ### Classes -/

/-- The name of a class without its ending. -/
def classBody (name : String) : List Char := (routeWords name).flatMap capitalize

/-- A text with an underscore in front of every capital letter, which is put in lower case. -/
def spelling (cs : List Char) : List Char :=
  cs.flatMap fun c => if c.isUpper then ['_', c.toLower] else [c]

/-- A text without underscores, what follows them in upper case. -/
def unspelled : List Char → List Char
  | '_' :: c :: rest => c.toUpper :: unspelled rest
  | c :: rest => c :: unspelled rest
  | [] => []

theorem spelling_of_isIdChar {cs : List Char} (h : ∀ c ∈ cs, isIdChar c) : spelling cs = cs := by
  have hplain : spelling cs = cs.flatMap ([·]) :=
    List.flatMap_congr fun c hc => if_neg (not_isUpper_of_isIdChar (h c hc))
  rw [hplain, List.flatMap_singleton']

/-- The capital letter of a word is spelled with an underscore; a digit is not. -/
theorem spelling_capitalize {word : List Char} (h : IsIdWord word) :
    spelling (capitalize word) = marked word := by
  cases word with
  | nil => exact absurd rfl h.ne_nil
  | cons c word =>
    obtain ⟨hc, hword⟩ := List.forall_mem_cons.mp h.isIdChar
    have hrest := spelling_of_isIdChar hword
    rw [spelling] at hrest
    rw [capitalize, spelling, List.flatMap_cons, hrest]
    cases hdigit : c.isDigit with
    | false =>
      have hlower : c.isLower := by simpa [isIdChar, hdigit] using hc
      simp [marked, startsWithLetter, hdigit, Text.isUpper_toUpper hlower,
        Text.toLower_toUpper hlower]
    | true =>
      have hupper : ¬ c.isLower := by
        rw [Text.isLower_iff]
        rw [Text.isDigit_iff] at hdigit
        omega
      simp [marked, startsWithLetter, hdigit, Text.toUpper_of_not_isLower hupper,
        not_isUpper_of_isIdChar hc]

/-- The spelling of a class is the route id, closed up. -/
theorem spelling_classBody (name : String) :
    spelling (classBody name) = '_' :: closeUp (routeId name).toList := by
  rw [cons_closeUp_routeId, classBody, spelling, List.flatMap_assoc]
  exact List.flatMap_congr fun word hword => spelling_capitalize (isIdWord_of_mem_routeWords hword)

/-- Letters and digits are found again in their spelling. -/
theorem unspelled_spelling {cs : List Char} (h : ∀ c ∈ cs, c.isAlphanum) :
    unspelled (spelling cs) = cs := by
  induction cs with
  | nil => rfl
  | cons c cs ih =>
    obtain ⟨hc, hcs⟩ := List.forall_mem_cons.mp h
    have hrest := ih hcs
    rw [spelling] at hrest
    rw [spelling, List.flatMap_cons]
    by_cases hupper : c.isUpper
    · rw [if_pos hupper, List.cons_append, List.cons_append, List.nil_append, unspelled, hrest,
        Text.toUpper_toLower hupper]
    · have hne : c ≠ '_' := by
        rintro rfl
        exact absurd hc (by decide)
      rw [if_neg hupper, List.singleton_append, unspelled, hrest]
      exact fun _ _ heq => absurd heq hne

theorem className_eq_iff_classBody {a b : String} :
    className a = className b ↔ classBody a = classBody b := by
  have hname (name : String) : (className name).toList = classBody name ++ "Screen".toList := by
    rw [className, String.toList_append, String.toList_ofList, classBody, List.flatMap_def]
  rw [← String.toList_inj, hname, hname, List.append_left_inj]

theorem isAlphanum_of_mem_classBody {name : String} {c : Char} (h : c ∈ classBody name) :
    c.isAlphanum := by
  obtain ⟨word, hword, hc⟩ := List.mem_flatMap.mp h
  exact isAlphanum_of_mem_capitalize (isIdWord_of_mem_routeWords hword).isIdChar hc

/-- Two screens have one class exactly if their route ids are the same when closed up. -/
theorem className_eq_iff_closeUp {a b : String} :
    className a = className b ↔ closeUp (routeId a).toList = closeUp (routeId b).toList := by
  rw [className_eq_iff_classBody]
  constructor
  · intro h
    have hspelling := congrArg spelling h
    rw [spelling_classBody, spelling_classBody] at hspelling
    exact List.tail_eq_of_cons_eq hspelling
  · intro h
    have hspelling : spelling (classBody a) = spelling (classBody b) := by
      rw [spelling_classBody, spelling_classBody, h]
    have hclasses := congrArg unspelled hspelling
    rwa [unspelled_spelling fun _ => isAlphanum_of_mem_classBody,
      unspelled_spelling fun _ => isAlphanum_of_mem_classBody] at hclasses

/-- Two screens have one class exactly if their route ids are the same up to underscores in front of
digits.  So screens with one route have one class, and screens with different routes have one class
only if a word of one of the routes starts with a digit. -/
theorem className_collisions (a b : String) :
    (className a = className b ↔ closeUp (routeId a).toList = closeUp (routeId b).toList) ∧
    (routeId a = routeId b → className a = className b) ∧
    (className a = className b → routeId a ≠ routeId b →
      ∃ word ∈ Text.fields '_' (routeId a).toList ++ Text.fields '_' (routeId b).toList,
        ∃ c rest, word = c :: rest ∧ c.isDigit) := by
  refine ⟨className_eq_iff_closeUp, className_eq_of_routeId_eq, fun hclass hroute => ?_⟩
  rw [fields_routeId, fields_routeId]
  by_contra hnone
  have hletter : ∀ word ∈ routeWords a ++ routeWords b, startsWithLetter word = true := by
    intro word hword
    by_contra hdigit
    have hne : word ≠ [] := by
      rcases List.mem_append.mp hword with hword | hword <;>
        exact (isIdWord_of_mem_routeWords hword).ne_nil
    obtain ⟨c, rest, rfl⟩ := List.exists_cons_of_ne_nil hne
    exact hnone ⟨_, hword, c, rest, rfl, by simpa [startsWithLetter] using hdigit⟩
  have hsame := className_eq_iff_closeUp.mp hclass
  rw [closeUp_routeId fun word hword => hletter word (List.mem_append_left _ hword),
    closeUp_routeId fun word hword => hletter word (List.mem_append_right _ hword)] at hsame
  exact hroute (String.toList_inj.mp hsame)

/-- A space in front of a digit makes a route but no class. -/
theorem className_collisions_numbered :
    className "Step 2" = className "Step2" ∧ routeId "Step 2" ≠ routeId "Step2" ∧
      ∃ word ∈ Text.fields '_' (routeId "Step 2").toList ++ Text.fields '_' (routeId "Step2").toList,
        ∃ c rest, word = c :: rest ∧ c.isDigit := by
  obtain ⟨hiff, -, hdigit⟩ := className_collisions "Step 2" "Step2"
  have hclass := hiff.mpr (by decide +kernel)
  have hroute : routeId "Step 2" ≠ routeId "Step2" := by decide +kernel
  exact ⟨hclass, hroute, hdigit hclass hroute⟩

end Wireframe.App
