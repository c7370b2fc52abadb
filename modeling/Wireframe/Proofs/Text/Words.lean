/-
Taking texts apart and joining them.

`fields` is the splitting of the standard library and `joinWith` its joining, so what is known of
these holds of words, paths and lines.

* `of_mem_runs` — a run holds characters of its class only;
* `runs_joinWith` — words of characters of a class are found again between others;
* `fields_append_cons` — a text is split at each separator independently of the rest;
* `fields_joinWith` — fields without separators are found again;
* `getLast?_of_getLast?_fields`, `getLast?_fields_of_getLast?` — texts that end in a separator.
-/
import Mathlib.Data.List.Basic
import Wireframe.Text.Words

namespace Wireframe.Text

/-! ### Runs -/

theorem of_mem_runs {p : Char → Bool} {cs word : List Char} {c : Char} (hw : word ∈ runs p cs)
    (hc : c ∈ word) : p c = true := by
  induction cs generalizing word with
  | nil => cases hw
  | cons d rest ih =>
      unfold runs at hw
      -- a character that belongs to a run lengthens the first one of the rest or is one of its own
      by_cases hd : p d
      · rw [if_pos hd] at hw
        split at hw
        · rename_i e tail run others hruns
          have hrun : run ∈ runs p (e :: tail) := hruns ▸ List.mem_cons_self
          split at hw
          · rcases List.mem_cons.mp hw with rfl | hw
            · rcases List.mem_cons.mp hc with rfl | hc
              · exact hd
              · exact ih hrun hc
            · exact ih (hruns ▸ List.mem_cons_of_mem run hw) hc
          · rcases List.mem_cons.mp hw with rfl | hw
            · obtain rfl := List.mem_singleton.mp hc
              exact hd
            · exact ih (hruns ▸ hw) hc
        · rcases List.mem_cons.mp hw with rfl | hw
          · obtain rfl := List.mem_singleton.mp hc
            exact hd
          · exact ih hw hc
      · rw [if_neg hd] at hw
        exact ih hw hc

section Runs

variable {p : Char → Bool} {c d separator : Char} {rest word : List Char}

theorem runs_cons_of_not (hc : p c = false) : runs p (c :: rest) = runs p rest := by
  rw [runs.eq_def]
  simp [hc]

/-- The first run of a text is lengthened by a character in front of it. -/
theorem runs_cons_of_runs {run : List Char} {others : List (List Char)} (hc : p c = true)
    (hd : p d = true) (h : runs p (d :: rest) = run :: others) :
    runs p (c :: d :: rest) = (c :: run) :: others := by
  rw [runs.eq_def]
  simp [hc, hd, h]

/-- A run ends in front of a character that is not of its class. -/
theorem runs_cons_cons_of_not (hc : p c = true) (hd : p d = false) :
    runs p (c :: d :: rest) = [c] :: runs p rest := by
  rw [runs.eq_def]
  simp only [hc, if_true, runs_cons_of_not hd]
  cases runs p rest <;> simp [hd]

theorem runs_append_cons (hseparator : p separator = false) (hne : word ≠ [])
    (hword : ∀ c ∈ word, p c = true) (rest : List Char) :
    runs p (word ++ separator :: rest) = word :: runs p rest := by
  induction word with
  | nil => exact absurd rfl hne
  | cons c word ih =>
    obtain ⟨hc, hrest⟩ := List.forall_mem_cons.mp hword
    cases word with
    | nil => exact runs_cons_cons_of_not hc hseparator
    | cons d word =>
      exact runs_cons_of_runs hc (hrest d List.mem_cons_self) (ih (List.cons_ne_nil d word) hrest)

theorem runs_of_all (hne : word ≠ []) (hword : ∀ c ∈ word, p c = true) : runs p word = [word] := by
  induction word with
  | nil => exact absurd rfl hne
  | cons c word ih =>
    obtain ⟨hc, hrest⟩ := List.forall_mem_cons.mp hword
    cases word with
    | nil => simp [runs, hc]
    | cons d word =>
      exact runs_cons_of_runs hc (hrest d List.mem_cons_self) (ih (List.cons_ne_nil d word) hrest)

/-- Words of characters of a class, joined by a character outside of it, are the runs of the class. -/
theorem runs_joinWith (hseparator : p separator = false) {words : List (List Char)}
    (hne : ∀ word ∈ words, word ≠ [])
    (hwords : ∀ word ∈ words, ∀ c ∈ word, p c = true) :
    runs p (joinWith [separator] words) = words := by
  induction words with
  | nil => rfl
  | cons word rest ih =>
    obtain ⟨hword, hrest⟩ := List.forall_mem_cons.mp hwords
    obtain ⟨hnil, hnils⟩ := List.forall_mem_cons.mp hne
    cases rest with
    | nil => exact runs_of_all hnil hword
    | cons next others =>
      rw [joinWith, List.append_assoc, List.singleton_append,
        runs_append_cons hseparator hnil hword, ih hnils hrest]

end Runs

/-! ### Fields -/

variable {separator : Char}

theorem fields_eq_splitOn (cs : List Char) : fields separator cs = cs.splitOn separator := by
  induction cs with
  | nil => rfl
  | cons c rest ih =>
    rw [fields, ih]
    by_cases hc : c = separator
    · subst hc
      have h := List.splitOnP_append_cons (p := (· == c)) [] rest (beq_self_eq_true c)
      rw [if_pos rfl]
      exact h.symm
    · have hne : (c == separator) = false := beq_eq_false_iff_ne.mpr hc
      rw [if_neg hc]
      simp only [List.splitOn, List.splitOnP_cons_eq_if_modifyHead, hne, Bool.false_eq_true, if_false]
      cases hrest : List.splitOnP (· == separator) rest with
      | nil => exact absurd hrest (List.splitOnP_ne_nil _ rest)
      | cons field others => rfl

theorem fields_ne_nil (cs : List Char) : fields separator cs ≠ [] := by
  rw [fields_eq_splitOn]
  exact List.splitOnP_ne_nil _ cs

/-- There is no separator in what stands between separators. -/
theorem not_mem_of_mem_fields {cs field : List Char} (h : field ∈ fields separator cs) :
    separator ∉ field := by
  induction cs generalizing field with
  | nil =>
    obtain rfl := List.mem_singleton.mp h
    exact List.not_mem_nil
  | cons c rest ih =>
    unfold fields at h
    split at h
    · rcases List.mem_cons.mp h with rfl | h
      · exact List.not_mem_nil
      · exact ih h
    · rename_i hc
      split at h
      · rename_i first others hfields
        rcases List.mem_cons.mp h with rfl | h
        · have hfirst := ih (hfields ▸ List.mem_cons_self)
          exact List.not_mem_cons_of_ne_of_not_mem (Ne.symm hc) hfirst
        · exact ih (hfields ▸ List.mem_cons_of_mem first h)
      · obtain rfl := List.mem_singleton.mp h
        simpa using Ne.symm hc

theorem joinWith_eq_intercalate {α : Type} (sep : List α) (words : List (List α)) :
    joinWith sep words = sep.intercalate words := by
  induction words with
  | nil => rfl
  | cons word rest ih =>
    cases rest with
    | nil => simp [joinWith, List.intercalate]
    | cons next others =>
      rw [joinWith, ih]
      simp [List.intercalate]

/-- With a separator in front, every word has one. -/
theorem cons_joinWith {α : Type} (separator : α) {words : List (List α)} (hne : words ≠ []) :
    separator :: joinWith [separator] words = words.flatMap (separator :: ·) := by
  induction words with
  | nil => exact absurd rfl hne
  | cons word rest ih =>
    cases rest with
    | nil => simp [joinWith]
    | cons next others =>
      rw [List.flatMap_cons, ← ih (List.cons_ne_nil next others), joinWith]
      simp

theorem mem_joinWith {α : Type} {separator a : α} {words : List (List α)}
    (h : a ∈ joinWith [separator] words) : a = separator ∨ ∃ word ∈ words, a ∈ word := by
  by_cases hne : words = []
  · subst hne
    cases h
  · have hmem := List.mem_cons_of_mem separator h
    rw [cons_joinWith separator hne] at hmem
    obtain ⟨word, hword, ha⟩ := List.mem_flatMap.mp hmem
    exact (List.mem_cons.mp ha).imp_right fun ha => ⟨word, hword, ha⟩

/-- Fields in which there is no separator are found again. -/
theorem fields_joinWith {words : List (List Char)} (h : ∀ word ∈ words, separator ∉ word)
    (hne : words ≠ []) : fields separator (joinWith [separator] words) = words := by
  rw [fields_eq_splitOn, joinWith_eq_intercalate]
  exact List.splitOn_intercalate separator h hne

/-- Fields with separators between them are the text that they come from. -/
theorem joinWith_fields (cs : List Char) : joinWith [separator] (fields separator cs) = cs := by
  rw [fields_eq_splitOn, joinWith_eq_intercalate]
  exact List.intercalate_splitOn separator

theorem fields_injective {as bs : List Char} (h : fields separator as = fields separator bs) :
    as = bs := by
  rw [← joinWith_fields as, h, joinWith_fields]

/-- What stands before a separator is split independently of what stands behind it. -/
theorem fields_append_cons (cs rest : List Char) :
    fields separator (cs ++ separator :: rest) = fields separator cs ++ fields separator rest := by
  simp only [fields_eq_splitOn]
  exact List.splitOnP_append_cons cs rest (beq_self_eq_true separator)

theorem fields_of_not_mem {cs : List Char} (h : separator ∉ cs) : fields separator cs = [cs] := by
  have hwords : ∀ word ∈ [cs], separator ∉ word := List.forall_mem_singleton.mpr h
  exact fields_joinWith hwords (List.cons_ne_nil _ _)

/-- What is no separator stands in the field that it precedes. -/
theorem exists_fields_cons {c : Char} (hc : c ≠ separator) (cs : List Char) :
    ∃ first others, fields separator cs = first :: others ∧
      fields separator (c :: cs) = (c :: first) :: others := by
  have hne : fields separator cs ≠ [] := fields_ne_nil cs
  obtain ⟨first, others, hcs⟩ := List.exists_cons_of_ne_nil hne
  refine ⟨first, others, hcs, ?_⟩
  rw [fields, if_neg hc, hcs]

theorem mem_of_mem_fields {cs field : List Char} (hfield : field ∈ fields separator cs)
    {c : Char} (hc : c ∈ field) : c ∈ cs := by
  have hne : c ≠ separator := fun e => not_mem_of_mem_fields hfield (e ▸ hc)
  have hmem : c ∈ (fields separator cs).flatMap (separator :: ·) :=
    List.mem_flatMap.mpr ⟨field, hfield, List.mem_cons_of_mem separator hc⟩
  rw [← cons_joinWith separator (fields_ne_nil cs), joinWith_fields] at hmem
  exact (List.mem_cons.mp hmem).resolve_left hne

/-- A text whose last field is empty is empty or ends in a separator. -/
theorem getLast?_of_getLast?_fields {cs : List Char}
    (h : (fields separator cs).getLast? = some []) :
    cs = [] ∨ cs.getLast? = some separator := by
  induction cs with
  | nil => exact .inl rfl
  | cons c rest ih =>
    refine .inr ?_
    have hne : fields separator rest ≠ [] := fields_ne_nil rest
    obtain ⟨field, others, hrest⟩ := List.exists_cons_of_ne_nil hne
    rw [hrest] at ih
    rw [fields, hrest] at h
    -- A separator opens a field of its own, so that the last field is that of the rest.
    split at h
    · rename_i hc
      rw [List.getLast?_cons_cons] at h
      rcases ih h with rfl | hlast
      · rw [hc, List.getLast?_singleton]
      · rw [List.getLast?_cons, hlast, Option.getD_some]
    -- A letter extends the first field, which is the last one only if it is the only one.
    · cases others with
      | nil => simp at h
      | cons next others =>
        rw [List.getLast?_cons_cons] at h ih
        rcases ih h with rfl | hlast
        · cases hrest
        · rw [List.getLast?_cons, hlast, Option.getD_some]

/-- The last field of a text that ends in a separator is empty. -/
theorem getLast?_fields_of_getLast? {cs : List Char} (h : cs.getLast? = some separator) :
    (fields separator cs).getLast? = some [] := by
  obtain ⟨front, rfl⟩ := List.getLast?_eq_some_iff.mp h
  rw [fields_append_cons, fields, List.getLast?_concat]

theorem joinWith_append_cons (a word : List Char) (words : List (List Char)) :
    joinWith [separator] ((a ++ word) :: words) = a ++ joinWith [separator] (word :: words) := by
  cases words with
  | nil => rfl
  | cons next others => simp only [joinWith, List.append_assoc]

end Wireframe.Text
