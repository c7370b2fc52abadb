/-
Names of workspaces.

A workspace is named by the slug of its project and a number.

* `stemOf` — the name of a workspace;
* `exists_idText` — numbers are written in groups of hexadecimal digits;
* `isHex_or_of_mem_isId` — the characters of numbers in any spelling;
* `isName_of_isId` — the name of a workspace is that of an entry of a directory;
* `isWorkspaceName_iff` — the names of workspaces of a slug;
* `isWorkspaceName_stemOf`, `slug_eq_of_isWorkspaceName` — the project of a workspace is known by its name;
* `stemOf_injective`, `stemOf_ne_archive` — different workspaces have different names.
-/
import Wireframe.Export.Project
import Wireframe.Files.World
import Wireframe.Proofs.App.Naming
import Wireframe.Proofs.Files.Name

namespace Wireframe.Export

open Files World

/-- The name of the workspace of a project with a number. -/
def stemOf (project : Design.Project) (id : String) : String := slug project ++ "-" ++ id

/-! ### Numbers -/

theorem isHex_digitChar {d : Nat} (h : d < 16) : isHex d.digitChar := by
  revert d
  decide

theorem isHex_of_mem_toDigits {n : Nat} {c : Char} (h : c ∈ Nat.toDigits 16 n) : isHex c := by
  induction n using Nat.strongRecOn with
  | ind n ih =>
      by_cases hn : n < 16
      · rw [Nat.toDigits_of_lt_base hn, List.mem_singleton] at h
        rw [h]
        exact isHex_digitChar hn
      · rw [Nat.toDigits_of_base_le (by decide) (Nat.le_of_not_lt hn), List.mem_append,
          List.mem_singleton] at h
        rcases h with h | rfl
        · exact ih (n / 16) (by omega) h
        · exact isHex_digitChar (Nat.mod_lt n (by decide))

/-- A number begins with groups that are the same for all, and ends in twelve digits of its own. -/
theorem exists_idText (n : Nat) : ∃ digits : List Char, digits.length = 12 ∧
    (∀ c ∈ digits, isHex c) ∧ (idText n).toList = "00000000".toList ++ '-' :: ("0000".toList ++
      '-' :: ("4000".toList ++ '-' :: ("8000".toList ++ '-' :: digits))) := by
  have hlength : ((Nat.toDigits 16 n).reverse.take 12).length ≤ 12 := List.length_take_le 12 _
  generalize hdigits : (Nat.toDigits 16 n).reverse.take 12 = digits at hlength
  refine ⟨List.replicate (12 - digits.length) '0' ++ digits.reverse, ?_, ?_, ?_⟩
  · rw [List.length_append, List.length_replicate, List.length_reverse]
    omega
  · intro c hc
    rcases List.mem_append.mp hc with hc | hc
    · rw [List.eq_of_mem_replicate hc]
      decide
    · have hmem : c ∈ (Nat.toDigits 16 n).reverse.take 12 := hdigits ▸ List.mem_reverse.mp hc
      exact isHex_of_mem_toDigits (List.mem_reverse.mp (List.take_subset _ _ hmem))
  · unfold idText
    rw [hdigits]
    have hgroups : "00000000-0000-4000-8000-".toList = "00000000".toList ++ '-' :: ("0000".toList ++
        '-' :: ("4000".toList ++ '-' :: ("8000".toList ++ ['-']))) := by decide
    dsimp only
    generalize List.replicate (12 - digits.length) '0' ++ digits.reverse = last
    have hlast : (String.ofList last).toList = last := String.toList_ofList
    rw [String.toList_append, hgroups, hlast]
    simp only [List.append_assoc, List.cons_append, List.nil_append]

/-- Numbers are recognised. -/
theorem isHyphenated_idText (n : Nat) : isHyphenated (idText n).toList := by
  obtain ⟨digits, hlength, hhex, htext⟩ := exists_idText n
  have hdigits : '-' ∉ digits := by
    intro hmem
    exact absurd (hhex _ hmem) (by decide)
  have hgroups : Text.fields '-' (idText n).toList =
      ["00000000".toList, "0000".toList, "4000".toList, "8000".toList, digits] := by
    simp only [htext, Text.fields_append_cons, Text.fields_of_not_mem hdigits]
    rw [Text.fields_of_not_mem (by decide), Text.fields_of_not_mem (by decide),
      Text.fields_of_not_mem (by decide), Text.fields_of_not_mem (by decide)]
    rfl
  have hall : digits.all isHex = true := List.all_eq_true.mpr hhex
  simp only [isHyphenated, hgroups, List.map_cons, List.map_nil, hlength, List.all_cons, List.all_nil,
    hall]
  decide

theorem isId_idText (n : Nat) : isId (idText n).toList := by
  simp [isId, isHyphenated_idText n]

theorem isHex_or_eq_of_mem_isHyphenated {cs : List Char} {c : Char} (h : isHyphenated cs)
    (hc : c ∈ cs) : isHex c ∨ c = '-' := by
  obtain ⟨-, hgroups⟩ := Bool.and_eq_true_iff.mp h
  have hcs : Text.joinWith ['-'] (Text.fields '-' cs) = cs := Text.joinWith_fields cs
  rw [← hcs] at hc
  rcases Text.mem_joinWith hc with hhyphen | ⟨group, hgroup, hc⟩
  · exact .inr hhyphen
  · exact .inl (List.all_eq_true.mp (List.all_eq_true.mp hgroups group hgroup) c hc)

/-- A number in any spelling is made of digits, of the letters of `urn:uuid:`, and of what stands
between groups and around them. -/
theorem isHex_or_of_mem_isId {cs : List Char} {c : Char} (h : isId cs) (hc : c ∈ cs) :
    isHex c ∨ c.toLower ∈ "-urn:uuid:\x7b\x7d".toList := by
  -- The groups have digits and hyphens only.
  have hgroups {part : List Char} (hpart : isHyphenated part) (hc : c ∈ part) :
      isHex c ∨ c.toLower ∈ "-urn:uuid:\x7b\x7d".toList := by
    refine (isHex_or_eq_of_mem_isHyphenated hpart hc).imp_right ?_
    rintro rfl
    decide
  simp only [isId, Bool.or_eq_true, Bool.and_eq_true, beq_iff_eq] at h
  rcases h with ((h | ⟨-, h⟩) | ⟨hfront, h⟩) | h
  -- In the order of the spellings: groups, digits, after the prefix, within braces.
  · exact hgroups h hc
  · exact .inl (List.all_eq_true.mp h c hc)
  · rw [← List.take_append_drop 9 cs, List.mem_append] at hc
    rcases hc with hc | hc
    · have hlower := List.mem_map_of_mem (f := Char.toLower) hc
      rw [hfront] at hlower
      have hsubset : "urn:uuid:".toList ⊆ "-urn:uuid:\x7b\x7d".toList := by decide
      exact .inr (hsubset hlower)
    · exact hgroups h hc
  · split at h
    · rename_i rest
      obtain ⟨hlast, hrest⟩ := Bool.and_eq_true_iff.mp h
      obtain ⟨front, rfl⟩ := List.getLast?_eq_some_iff.mp (eq_of_beq hlast)
      rw [List.dropLast_concat] at hrest
      rcases List.mem_cons.mp hc with rfl | hc
      · exact .inr (by decide)
      rcases List.mem_append.mp hc with hc | hc
      · exact hgroups hrest hc
      · rw [List.mem_singleton.mp hc]
        exact .inr (by decide)
    · cases h

theorem point_notMem_of_isId {cs : List Char} (h : isId cs) : '.' ∉ cs := by
  intro hc
  rcases isHex_or_of_mem_isId h hc with h | h <;> revert h <;> decide

theorem slash_notMem_of_isId {cs : List Char} (h : isId cs) : '/' ∉ cs := by
  intro hc
  rcases isHex_or_of_mem_isId h hc with h | h <;> revert h <;> decide

/-! ### Entries -/

theorem hyphen_notMem_routeId (name : String) : '-' ∉ (App.routeId name).toList := by
  intro hmem
  rcases App.isIdChar_or_eq_of_mem_routeId hmem with h | h <;> revert h <;> decide

theorem toList_hyphen (slug id : String) :
    (slug ++ "-" ++ id).toList = slug.toList ++ '-' :: id.toList := by
  simp

/-- A slug and a number with a hyphen between them are the name of an entry of a directory. -/
theorem isName_of_isId (name : String) {id : String} (h : isId id.toList) :
    isName (App.routeId name ++ "-" ++ id) := by
  have hhyphen : '-' ∈ (App.routeId name ++ "-" ++ id).toList := by
    rw [toList_hyphen]
    exact List.mem_append_right _ List.mem_cons_self
  have hne (other : String) (hother : '-' ∉ other.toList) : App.routeId name ++ "-" ++ id ≠ other := by
    intro heq
    exact hother (heq ▸ hhyphen)
  refine isName_iff.mpr ⟨hne _ (by decide), hne _ (by decide), hne _ (by decide), fun hslash => ?_⟩
  rw [toList_hyphen] at hslash
  rcases List.mem_append.mp hslash with hslash | hslash
  · rcases App.isIdChar_or_eq_of_mem_routeId hslash with h | h <;> revert h <;> decide
  · rcases List.mem_cons.mp hslash with heq | hslash
    · cases heq
    · exact slash_notMem_of_isId h hslash

theorem toList_stemOf (project : Design.Project) (id : String) :
    (stemOf project id).toList = (slug project).toList ++ '-' :: id.toList :=
  toList_hyphen _ _

/-- The name of a workspace is that of an entry of a directory. -/
theorem isName_stemOf (project : Design.Project) (n : Nat) : isName (stemOf project (idText n)) :=
  isName_of_isId _ (isId_idText n)

theorem toList_archive (stem : String) : (stem ++ ".zip").toList = stem.toList ++ archiveEnding := by
  rw [String.toList_append]
  rfl

/-! ### Whose workspace it is -/

/-- A name is recognised if it is the slug, a hyphen and a number, with or without the ending of
archives. -/
theorem isWorkspaceName_iff {name slug : String} : isWorkspaceName name slug ↔
    ∃ id : String, isId id.toList ∧ (name = slug ++ "-" ++ id ∨ name = slug ++ "-" ++ id ++ ".zip") := by
  have hfront (rest : List Char) : (slug.toList ++ ['-']).isPrefixOf?
      (slug.toList ++ '-' :: rest) = some rest := by
    rw [List.isPrefixOf?_eq_some_iff_append_eq, List.append_assoc]
    rfl
  constructor
  · intro h
    unfold isWorkspaceName at h
    split at h
    · rename_i rest hrest
      have hname := List.isPrefixOf?_eq_some_iff_append_eq.mp hrest
      -- The ending is no part of a number, so the rest falls in one of two ways.
      cases hend : archiveEnding.isSuffixOf? rest with
      | none =>
        rw [hend] at h
        refine ⟨String.ofList rest, by simpa using h, .inl (String.toList_inj.mp ?_)⟩
        simp [← hname]
      | some id =>
        rw [hend] at h
        have hzip := List.isSuffixOf?_eq_some_iff_append_eq.mp hend
        refine ⟨String.ofList id, by simpa using h, .inr (String.toList_inj.mp ?_)⟩
        rw [← hname, ← hzip]
        simp [archiveEnding]
    · cases h
  · rintro ⟨id, hid, rfl | rfl⟩
    -- A number has no point, so that it does not end as archives do.
    · have hend : archiveEnding.isSuffixOf? id.toList = none := by
        refine Option.eq_none_iff_forall_ne_some.mpr fun front hfront => point_notMem_of_isId hid ?_
        rw [← List.isSuffixOf?_eq_some_iff_append_eq.mp hfront]
        exact List.mem_append_right _ List.mem_cons_self
      simp only [isWorkspaceName, toList_hyphen, hfront, hend, Option.getD_none]
      exact hid
    · have hend : archiveEnding.isSuffixOf? (id.toList ++ archiveEnding) = some id.toList :=
        List.isSuffixOf?_eq_some_iff_append_eq.mpr rfl
      simp only [isWorkspaceName, toList_archive, toList_hyphen, List.append_assoc, List.cons_append,
        hfront, hend, Option.getD_some]
      exact hid

/-- The directory and the archive of a workspace are known by their names. -/
theorem isWorkspaceName_stemOf (project : Design.Project) (n : Nat) :
    isWorkspaceName (stemOf project (idText n)) (slug project) ∧
      isWorkspaceName (stemOf project (idText n) ++ ".zip") (slug project) :=
  ⟨isWorkspaceName_iff.mpr ⟨_, isId_idText n, .inl rfl⟩,
    isWorkspaceName_iff.mpr ⟨_, isId_idText n, .inr rfl⟩⟩

/-- A route id is what stands before the first hyphen. -/
theorem routeId_eq_of_append {a b : String} {cs ds : List Char}
    (h : (App.routeId a).toList ++ '-' :: cs = (App.routeId b).toList ++ '-' :: ds) :
    App.routeId a = App.routeId b ∧ cs = ds := by
  have hfields := congrArg (Text.fields '-') h
  rw [Text.fields_append_cons, Text.fields_append_cons,
    Text.fields_of_not_mem (hyphen_notMem_routeId a),
    Text.fields_of_not_mem (hyphen_notMem_routeId b)] at hfields
  have hid := String.toList_inj.mp (List.cons.inj hfields).1
  rw [hid] at h
  exact ⟨hid, (List.cons.inj (List.append_cancel_left h)).2⟩

/-- A name that begins with a route id and a hyphen is that of a workspace of that slug only. -/
theorem routeId_eq_of_isWorkspaceName {a b name : String} {cs : List Char}
    (hname : name.toList = (App.routeId a).toList ++ '-' :: cs)
    (h : isWorkspaceName name (App.routeId b)) : App.routeId a = App.routeId b := by
  obtain ⟨id, -, hid⟩ := isWorkspaceName_iff.mp h
  have hfront : ∃ ds, name.toList = (App.routeId b).toList ++ '-' :: ds := by
    rcases hid with rfl | rfl
    · exact ⟨id.toList, toList_hyphen _ _⟩
    · refine ⟨id.toList ++ archiveEnding, ?_⟩
      rw [toList_archive, toList_hyphen, List.append_assoc, List.cons_append]
  obtain ⟨ds, hds⟩ := hfront
  exact (routeId_eq_of_append (hname.symm.trans hds)).1

/-- A name that is that of a workspace of a project tells the slug. -/
theorem slug_eq_of_isWorkspaceName {project other : Design.Project} {name : String} {cs : List Char}
    (hname : name.toList = (slug project).toList ++ '-' :: cs)
    (h : isWorkspaceName name (slug other)) : slug project = slug other :=
  routeId_eq_of_isWorkspaceName hname h

/-- Workspaces of one name are of one slug and number. -/
theorem stemOf_injective {project other : Design.Project} {m n : Nat}
    (h : stemOf project (idText m) = stemOf other (idText n)) : idText m = idText n := by
  have hlist := congrArg String.toList h
  rw [toList_stemOf, toList_stemOf] at hlist
  exact String.toList_inj.mp (routeId_eq_of_append hlist).2

/-- No directory of a workspace has the name of an archive. -/
theorem stemOf_ne_archive (project : Design.Project) (n : Nat) (stem : String) :
    stemOf project (idText n) ≠ stem ++ ".zip" := by
  intro h
  have hpoint : '.' ∈ (stemOf project (idText n)).toList := by
    rw [h, toList_archive]
    exact List.mem_append_right _ List.mem_cons_self
  rw [toList_stemOf, List.mem_append, List.mem_cons] at hpoint
  rcases hpoint with hpoint | hpoint | hpoint
  · rcases App.isIdChar_or_eq_of_mem_routeId hpoint with h | h <;> revert h <;> decide
  · cases hpoint
  · exact point_notMem_of_isId (isId_idText n) hpoint

end Wireframe.Export
