/-
Route ids and classes as languages.

The route ids are the words of one regular language, and each of them is its own route id: a name that
is a route id has nothing folded, dropped or put in front.  The class of a screen is a capital letter,
letters and digits, and the word `Screen`.

* `routeIds`, `classNames` — the two languages;
* `mem_routeIds_iff` — a route id is made of words;
* `routeWords_joinWith` — the words of a route id are found in it;
* `routeId_grammar` — names and languages.
-/
import Mathlib.Computability.Language
import Wireframe.Proofs.App.Naming

open scoped Computability

namespace Wireframe.App

/-! ### Languages -/

/-- One character of a class. -/
def oneOf (p : Char → Bool) : Language Char := {cs | ∃ c, p c = true ∧ cs = [c]}

/-- The language `[a-z0-9]+`. -/
def idWords : Language Char := oneOf isIdChar * (oneOf isIdChar)∗

/-- The language `[a-z][a-z0-9]*(_[a-z0-9]+)*`. -/
def routeIds : Language Char :=
  oneOf Char.isLower * (oneOf isIdChar)∗ * ({['_']} * idWords)∗

/-- The language `[A-Z][A-Za-z0-9]*Screen`. -/
def classNames : Language Char :=
  oneOf Char.isUpper * (oneOf Char.isAlphanum)∗ * {"Screen".toList}

theorem mem_kstar_oneOf {p : Char → Bool} {cs : List Char} :
    cs ∈ (oneOf p)∗ ↔ ∀ c ∈ cs, p c = true := by
  rw [Language.mem_kstar]
  constructor
  · rintro ⟨parts, rfl, hparts⟩ c hc
    obtain ⟨part, hpart, hc⟩ := List.mem_flatten.mp hc
    obtain ⟨d, hd, rfl⟩ := hparts part hpart
    rwa [List.mem_singleton.mp hc]
  · intro h
    refine ⟨cs.map ([·]), ?_, List.forall_mem_map.mpr fun c hc => ⟨c, h c hc, rfl⟩⟩
    rw [← List.flatMap_def, List.flatMap_singleton']

theorem mem_idWords_iff {cs : List Char} : cs ∈ idWords ↔ IsIdWord cs := by
  rw [idWords, Language.mem_mul]
  constructor
  · rintro ⟨first, ⟨c, hc, rfl⟩, word, hword, rfl⟩
    exact ⟨List.cons_ne_nil c word, List.forall_mem_cons.mpr ⟨hc, mem_kstar_oneOf.mp hword⟩⟩
  · intro h
    cases cs with
    | nil => exact absurd rfl h.ne_nil
    | cons c word =>
      obtain ⟨hc, hword⟩ := List.forall_mem_cons.mp h.isIdChar
      exact ⟨[c], ⟨c, hc, rfl⟩, word, mem_kstar_oneOf.mpr hword, rfl⟩

/-- Words that each have an underscore in front. -/
theorem mem_kstar_idWords_iff {cs : List Char} : cs ∈ ({['_']} * idWords)∗ ↔
    ∃ words : List (List Char), (∀ word ∈ words, IsIdWord word) ∧ cs = words.flatMap ('_' :: ·) := by
  -- A part of the iteration is an underscore and a word.
  have hpart (part : List Char) : part ∈ ({['_']} * idWords : Language Char) ↔
      ∃ word, IsIdWord word ∧ part = '_' :: word := by
    rw [Language.mem_mul]
    constructor
    · rintro ⟨_, rfl, word, hword, rfl⟩
      exact ⟨word, mem_idWords_iff.mp hword, rfl⟩
    · rintro ⟨word, hword, rfl⟩
      exact ⟨['_'], rfl, word, mem_idWords_iff.mpr hword, rfl⟩
  rw [Language.mem_kstar]
  constructor
  · rintro ⟨parts, rfl, hparts⟩
    -- Taking the tails of the parts gives the words, and putting underscores before these the
    -- parts.
    refine ⟨parts.map List.tail, ?_, ?_⟩
    · refine List.forall_mem_map.mpr fun part hmem => ?_
      obtain ⟨word, hword, rfl⟩ := (hpart part).mp (hparts part hmem)
      exact hword
    · rw [List.flatMap_map, List.flatMap_def, ← List.map_id parts, List.map_map]
      refine congrArg List.flatten (List.map_congr_left fun part hmem => ?_)
      obtain ⟨word, -, rfl⟩ := (hpart part).mp (hparts part hmem)
      rfl
  · rintro ⟨words, hwords, rfl⟩
    refine ⟨words.map ('_' :: ·), List.flatMap_def, List.forall_mem_map.mpr fun word hword => ?_⟩
    exact (hpart _).mpr ⟨word, hwords word hword, rfl⟩

/-! ### Words of route ids -/

/-- Words of which the first one starts with a letter. -/
structure AreRouteWords (words : List (List Char)) : Prop where
  isIdWord : ∀ word ∈ words, IsIdWord word
  head : ∃ c word rest, words = (c :: word) :: rest ∧ c.isLower

theorem areRouteWords_routeWords (name : String) : AreRouteWords (routeWords name) where
  isIdWord _ := isIdWord_of_mem_routeWords
  head := exists_head_routeWords name

/-- A route id is made of words with underscores between them. -/
theorem mem_routeIds_iff {cs : List Char} :
    cs ∈ routeIds ↔ ∃ words, AreRouteWords words ∧ cs = Text.joinWith ['_'] words := by
  -- behind the first word, every word has an underscore in front
  have hjoin (first : List Char) (rest : List (List Char)) :
      Text.joinWith ['_'] (first :: rest) = first ++ rest.flatMap ('_' :: ·) := by
    have hcons := Text.cons_joinWith '_' (List.cons_ne_nil first rest)
    rw [List.flatMap_cons, List.cons_append] at hcons
    exact List.tail_eq_of_cons_eq hcons
  rw [routeIds, Language.mem_mul]
  constructor
  · rintro ⟨first, hfirst, behind, hbehind, rfl⟩
    obtain ⟨_, ⟨c, hc, rfl⟩, word, hword, rfl⟩ := Language.mem_mul.mp hfirst
    obtain ⟨rest, hrest, rfl⟩ := mem_kstar_idWords_iff.mp hbehind
    have hchar : isIdChar c := by simp [isIdChar, hc]
    have hall : ∀ d ∈ c :: word, isIdChar d :=
      List.forall_mem_cons.mpr ⟨hchar, mem_kstar_oneOf.mp hword⟩
    refine ⟨(c :: word) :: rest, ⟨?_, c, word, rest, rfl, hc⟩, (hjoin _ _).symm⟩
    exact List.forall_mem_cons.mpr ⟨⟨List.cons_ne_nil c word, hall⟩, hrest⟩
  · rintro ⟨words, hwords, rfl⟩
    obtain ⟨c, word, rest, rfl, hc⟩ := hwords.head
    obtain ⟨hfirst, hrest⟩ := List.forall_mem_cons.mp hwords.isIdWord
    have hword := (List.forall_mem_cons.mp hfirst.isIdChar).2
    refine ⟨c :: word, ?_, rest.flatMap ('_' :: ·), ?_, (hjoin _ _).symm⟩
    · exact Language.mem_mul.mpr ⟨[c], ⟨c, hc, rfl⟩, word, mem_kstar_oneOf.mpr hword, rfl⟩
    · exact mem_kstar_idWords_iff.mpr ⟨rest, hrest, rfl⟩

/-! ### Route ids as names -/

/-- Only letters outside of ASCII are built on others. -/
theorem baseLetter_of_isIdChar {c : Char} (h : isIdChar c) : baseLetter c = c := by
  unfold baseLetter
  split <;> first | rfl | exact absurd h (by decide)

/-- The words of a route id are found in it. -/
theorem nameWords_joinWith {words : List (List Char)} (hwords : ∀ word ∈ words, IsIdWord word) :
    nameWords (String.ofList (Text.joinWith ['_'] words)) = words := by
  have hbase : (Text.joinWith ['_'] words).map baseLetter = Text.joinWith ['_'] words := by
    refine (List.map_congr_left fun c hc => ?_).trans (List.map_id _)
    rcases Text.mem_joinWith hc with rfl | ⟨word, hword, hc⟩
    · rfl
    · exact baseLetter_of_isIdChar ((hwords word hword).isIdChar c hc)
  have hruns : Text.runs Char.isAlphanum (Text.joinWith ['_'] words) = words :=
    Text.runs_joinWith (by decide) (fun word hword => (hwords word hword).ne_nil)
      fun word hword c hc => isAlphanum_of_isIdChar ((hwords word hword).isIdChar c hc)
  rw [nameWords, String.toList_ofList, hbase, hruns]
  refine (List.map_congr_left fun word hword => ?_).trans (List.map_id words)
  refine (List.map_congr_left fun c hc => ?_).trans (List.map_id word)
  exact toLower_of_isIdChar ((hwords word hword).isIdChar c hc)

theorem routeWords_joinWith {words : List (List Char)} (h : AreRouteWords words) :
    routeWords (String.ofList (Text.joinWith ['_'] words)) = words := by
  obtain ⟨c, word, rest, rfl, hc⟩ := h.head
  have hletter : startsWithLetter (c :: word) = true := by
    rw [Text.isLower_iff] at hc
    rw [startsWithLetter, Bool.not_eq_true', ← Bool.not_eq_true, Text.isDigit_iff]
    omega
  rw [routeWords, nameWords_joinWith h.isIdWord]
  exact if_pos hletter

theorem routeId_mem_routeIds (name : String) : (routeId name).toList ∈ routeIds := by
  rw [routeId, String.toList_ofList]
  exact mem_routeIds_iff.mpr ⟨_, areRouteWords_routeWords name, rfl⟩

/-- A route id is its own route id. -/
theorem routeId_eq_self_iff {id : String} : routeId id = id ↔ id.toList ∈ routeIds := by
  constructor
  · intro h
    rw [← h]
    exact routeId_mem_routeIds id
  · intro h
    obtain ⟨words, hwords, hid⟩ := mem_routeIds_iff.mp h
    obtain rfl : id = String.ofList (Text.joinWith ['_'] words) := by
      rw [← hid, String.ofList_toList]
    rw [routeId, routeWords_joinWith hwords]

theorem className_mem_classNames (name : String) : (className name).toList ∈ classNames := by
  obtain ⟨c, word, rest, hwords, hc⟩ := exists_head_routeWords name
  have hidWords := (areRouteWords_routeWords name).isIdWord
  rw [hwords] at hidWords
  have hbody : ∀ d ∈ word ++ (rest.map capitalize).flatten, d.isAlphanum := by
    intro d hd
    rcases List.mem_append.mp hd with hd | hd
    · have hfirst := hidWords _ List.mem_cons_self
      exact isAlphanum_of_isIdChar (hfirst.isIdChar d (List.mem_cons_of_mem c hd))
    · obtain ⟨_, hword, hd⟩ := List.mem_flatten.mp hd
      obtain ⟨plain, hplain, rfl⟩ := List.mem_map.mp hword
      have hother := hidWords plain (List.mem_cons_of_mem _ hplain)
      exact isAlphanum_of_mem_capitalize hother.isIdChar hd
  have hname : (className name).toList =
      [c.toUpper] ++ (word ++ (rest.map capitalize).flatten) ++ "Screen".toList := by
    rw [className, hwords, String.toList_append, String.toList_ofList]
    rfl
  rw [hname, classNames]
  refine Language.append_mem_mul (Language.append_mem_mul ?_ (mem_kstar_oneOf.mpr hbody)) rfl
  exact ⟨c.toUpper, Text.isUpper_toUpper hc, rfl⟩

/-- The route ids of names are exactly the words of their language, which are those names that are
their own route ids; so deriving a route id twice is deriving it once.  The classes of screens are
words of a language of their own. -/
theorem routeId_grammar :
    (∀ id : String, (∃ name, routeId name = id) ↔ id.toList ∈ routeIds) ∧
    (∀ id : String, routeId id = id ↔ id.toList ∈ routeIds) ∧
    (∀ name : String, routeId (routeId name) = routeId name) ∧
    ∀ name : String, (className name).toList ∈ classNames := by
  refine ⟨fun id => ⟨?_, ?_⟩, fun id => routeId_eq_self_iff, fun name => ?_, className_mem_classNames⟩
  · rintro ⟨name, rfl⟩
    exact routeId_mem_routeIds name
  · exact fun h => ⟨id, routeId_eq_self_iff.mpr h⟩
  · exact routeId_eq_self_iff.mpr (routeId_mem_routeIds name)

end Wireframe.App
