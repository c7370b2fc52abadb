/-
Where names lead.

To follow names is to enter directories one after the other, to go up, and to go wherever links lead.
What a walk finds at the last name is told by the directory to which the names before it lead.

* `Leads` — some names lead from a place to a directory, with so many links left to follow;
* `Proceeds`, `walk_cons` — what a walk can do at a name of an entry, and at any name;
* `walk_append_iff` — a walk along the first names and a walk along the others;
* `Leads.mono` — what leads somewhere still does so when things have been added;
* `leads_iff_walk` — names that lead to a directory;
* `walk_name_iff`, `walk_below` — walks to a name, and walks where there are no links.
-/
import Wireframe.Files.World
import Wireframe.Proofs.Files.Name
import Wireframe.Proofs.Files.Place

namespace Wireframe.Files.World

open Files.Tree

/-- Names lead from a place to another, all on the way being directories: `Leads tree links place names
left end` if `links` links may be followed and `left` are left at the end. -/
inductive Leads (tree : Tree) : Nat → List String → List String → Nat → List String → Prop
  | done (links : Nat) (place : List String) : Leads tree links place [] links place
  | stay {links left : Nat} {place rest target : List String} {name : String}
      (hname : name = "" ∨ name = ".") (hplace : tree.kindAt place = some .directory)
      (h : Leads tree links place rest left target) :
      Leads tree links place (name :: rest) left target
  | up {links left : Nat} {place rest target : List String}
      (hplace : tree.kindAt place = some .directory)
      (h : Leads tree links place.dropLast rest left target) :
      Leads tree links place (".." :: rest) left target
  | enter {links left : Nat} {place rest target : List String} {name : String}
      (hname : name ∉ ["", ".", ".."]) (hnext : tree.kindAt (place ++ [name]) = some .directory)
      (h : Leads tree links (place ++ [name]) rest left target) :
      Leads tree links place (name :: rest) left target
  | follow {links left : Nat} {place rest target : List String} {name path : String}
      (hname : name ∉ ["", ".", ".."]) (hnext : tree.kindAt (place ++ [name]) = some (.link path))
      (h : Leads tree links (if isAbsolute path then [] else place) (pieces path ++ rest) left target) :
      Leads tree (links + 1) place (name :: rest) left target

section Walks

variable {tree other : Tree} {follow : Bool} {links left : Nat}
  {place names rest target result : List String}

/-! ### Steps of a walk -/

theorem isDirectory_iff : (tree.at? place).any Tree.isDirectory = true ↔
    tree.kindAt place = some .directory := kindAt_eq_directory_iff.symm

/-- Where a link leads on, if there are links left to follow. -/
def walkLink (tree : Tree) (follow : Bool) : (links : Nat) → (place names : List String) →
    Option (List String)
  | 0, _, _ => none
  | links + 1, place, names => walk tree follow links place names

theorem walk_eq_walkAlong (links : Nat) (place names : List String) :
    walk tree follow links place names =
      walkAlong tree follow (walkLink tree follow links) place names := by
  cases links with
  | zero => rfl
  | succ links => rfl

@[simp] theorem walk_nil (links : Nat) (place : List String) :
    walk tree follow links place [] = some place := by
  rw [walk_eq_walkAlong, walkAlong]

/-- What a walk does at its first name. -/
theorem walk_cons_eq (links : Nat) (place : List String) (name : String) (rest : List String) :
    walk tree follow links place (name :: rest) =
      if name = "" ∨ name = "." then
        if (tree.at? place).any Tree.isDirectory then walk tree follow links place rest else none
      else if name = ".." then
        if (tree.at? place).any Tree.isDirectory then walk tree follow links place.dropLast rest
        else none
      else
        match tree.at? (place ++ [name]) with
        | some (.link target _) =>
            if rest.isEmpty && !follow then some (place ++ [name])
            else walkLink tree follow links (if isAbsolute target then [] else place)
              (pieces target ++ rest)
        | some (.directory _ _) => walk tree follow links (place ++ [name]) rest
        | some (.file _ _ _) => if rest.isEmpty then some (place ++ [name]) else none
        | none =>
            if rest.isEmpty && (tree.at? place).any Tree.isDirectory then some (place ++ [name])
            else none := by
  simp only [walk_eq_walkAlong]
  exact walkAlong.eq_2 ..

theorem walk_stay {name : String} (hname : name = "" ∨ name = ".") :
    walk tree follow links place (name :: rest) =
      if tree.kindAt place = some .directory then walk tree follow links place rest else none := by
  rw [walk_cons_eq, if_pos hname]
  simp only [isDirectory_iff]

theorem walk_up : walk tree follow links place (".." :: rest) =
    if tree.kindAt place = some .directory then walk tree follow links place.dropLast rest
    else none := by
  rw [walk_cons_eq, if_neg (by decide), if_pos rfl]
  simp only [isDirectory_iff]

/-- What a walk does at a name of an entry. -/
theorem walk_name_eq {name : String} (hname : name ∉ ["", ".", ".."]) :
    walk tree follow links place (name :: rest) =
      match tree.at? (place ++ [name]) with
      | some (.link target _) =>
          if rest.isEmpty && !follow then some (place ++ [name])
          else walkLink tree follow links (if isAbsolute target then [] else place)
            (pieces target ++ rest)
      | some (.directory _ _) => walk tree follow links (place ++ [name]) rest
      | some (.file _ _ _) => if rest.isEmpty then some (place ++ [name]) else none
      | none =>
          if rest.isEmpty && (tree.at? place).any Tree.isDirectory then some (place ++ [name])
          else none := by
  simp only [List.mem_cons, List.not_mem_nil, or_false, not_or] at hname
  rw [walk_cons_eq, if_neg (by tauto), if_neg (by tauto)]

theorem walk_enter {name : String} (hname : name ∉ ["", ".", ".."])
    (hnext : tree.kindAt (place ++ [name]) = some .directory) :
    walk tree follow links place (name :: rest) =
      walk tree follow links (place ++ [name]) rest := by
  obtain ⟨inner, hinner, hkind⟩ := Option.map_eq_some_iff.mp hnext
  rw [walk_name_eq hname]
  simp only [hinner]
  cases inner with
  | directory => rfl
  | _ => cases hkind

theorem walk_follow {name path : String} (hname : name ∉ ["", ".", ".."])
    (hnext : tree.kindAt (place ++ [name]) = some (.link path)) (hrest : rest ≠ [] ∨ follow) :
    walk tree follow (links + 1) place (name :: rest) =
      walk tree follow links (if isAbsolute path then [] else place) (pieces path ++ rest) := by
  obtain ⟨modified, hlink⟩ := kindAt_eq_link_iff.mp hnext
  have hgo : ¬ (rest.isEmpty && !follow) = true := by
    rcases hrest with hrest | hrest <;> simp [hrest]
  rw [walk_name_eq hname]
  simp only [hlink, if_neg hgo, walkLink]

/-- A walk that ends at a file. -/
theorem walk_file {name : String} (hname : name ∉ ["", ".", ".."])
    (hfile : tree.kindAt (place ++ [name]) = some .file) :
    walk tree follow links place [name] = some (place ++ [name]) := by
  obtain ⟨contents, mode, modified, hat⟩ := kindAt_eq_file_iff.mp hfile
  rw [walk_name_eq hname]
  simp only [hat, List.isEmpty_nil, if_true]

/-- A walk comes to a result at the name of an entry: it enters a directory, follows a link, or ends
there. -/
def Proceeds (tree : Tree) (follow : Bool) (links : Nat) (place : List String) (name : String)
    (rest result : List String) : Prop :=
  (tree.kindAt (place ++ [name]) = some .directory ∧
    walk tree follow links (place ++ [name]) rest = some result) ∨
  (∃ path fewer, tree.kindAt (place ++ [name]) = some (.link path) ∧ (rest ≠ [] ∨ follow) ∧
    links = fewer + 1 ∧ walk tree follow fewer (if isAbsolute path then [] else place)
      (pieces path ++ rest) = some result) ∨
  (rest = [] ∧ result = place ++ [name] ∧
    (tree.kindAt (place ++ [name]) = some .file ∨
      (∃ path, tree.kindAt (place ++ [name]) = some (.link path) ∧ follow = false) ∨
      (tree.kindAt (place ++ [name]) = none ∧ tree.kindAt place = some .directory)))

theorem walk_name_cons {name : String} (hname : name ∉ ["", ".", ".."])
    (h : walk tree follow links place (name :: rest) = some result) :
    Proceeds tree follow links place name rest result := by
  rw [walk_name_eq hname] at h
  split at h
  -- a link at the end, or one that is followed
  · rename_i path modified hat
    have hkind : tree.kindAt (place ++ [name]) = some (.link path) :=
      kindAt_eq_link_iff.mpr ⟨modified, hat⟩
    split at h
    · rename_i hend
      obtain ⟨hrest, hfollow⟩ := Bool.and_eq_true_iff.mp hend
      refine .inr (.inr ⟨List.isEmpty_iff.mp hrest, (Option.some.inj h).symm, .inr (.inl ?_)⟩)
      exact ⟨path, hkind, by simpa using hfollow⟩
    · rename_i hend
      cases links with
      | zero => cases h
      | succ fewer =>
          refine .inr (.inl ⟨path, fewer, hkind, ?_, rfl, h⟩)
          cases rest with
          | nil => exact .inr (by simpa using hend)
          | cons => exact .inl (List.cons_ne_nil _ _)
  · rename_i entries modified hat
    exact .inl ⟨by simp [kindAt, hat, kind], h⟩
  · rename_i contents mode modified hat
    split at h
    · rename_i hrest
      refine .inr (.inr ⟨List.isEmpty_iff.mp hrest, (Option.some.inj h).symm, .inl ?_⟩)
      simp [kindAt, hat, kind]
    · cases h
  · rename_i hat
    split at h
    · rename_i hend
      obtain ⟨hrest, hplace⟩ := Bool.and_eq_true_iff.mp hend
      refine .inr (.inr ⟨List.isEmpty_iff.mp hrest, (Option.some.inj h).symm, .inr (.inr ?_)⟩)
      exact ⟨kindAt_eq_none_iff.mpr hat, isDirectory_iff.mp hplace⟩
    · cases h

/-- What a walk can do at its first name. -/
theorem walk_cons {name : String}
    (h : walk tree follow links place (name :: rest) = some result) :
    ((name = "" ∨ name = ".") ∧ tree.kindAt place = some .directory ∧
      walk tree follow links place rest = some result) ∨
    (name = ".." ∧ tree.kindAt place = some .directory ∧
      walk tree follow links place.dropLast rest = some result) ∨
    name ∉ ["", ".", ".."] ∧ Proceeds tree follow links place name rest result := by
  by_cases hstay : name = "" ∨ name = "."
  · rw [walk_stay hstay] at h
    split at h
    · exact .inl ⟨hstay, ‹_›, h⟩
    · cases h
  by_cases hup : name = ".."
  · subst hup
    rw [walk_up] at h
    split at h
    · exact .inr (.inl ⟨rfl, ‹_›, h⟩)
    · cases h
  have hname : name ∉ ["", ".", ".."] := by
    simp only [List.mem_cons, List.not_mem_nil, or_false, not_or]
    tauto
  exact .inr (.inr ⟨hname, walk_name_cons hname h⟩)

/-! ### Directories on the way -/

namespace Leads

theorem append {b : List String} {last : List String} {more : Nat}
    (h : Leads tree links place names left target) (hb : Leads tree left target b more last) :
    Leads tree links place (names ++ b) more last := by
  induction h with
  | done => exact hb
  | stay hname hplace _ ih => exact .stay hname hplace (ih hb)
  | up hplace _ ih => exact .up hplace (ih hb)
  | enter hname hnext _ ih => exact .enter hname hnext (ih hb)
  | follow hname hnext _ ih =>
      rw [List.append_assoc] at ih
      exact .follow hname hnext (ih hb)

theorem mono (hwithin : Within tree other) (h : Leads tree links place names left target) :
    Leads other links place names left target := by
  induction h with
  | done => exact .done _ _
  | stay hname hplace _ ih => exact .stay hname (hwithin _ _ hplace) ih
  | up hplace _ ih => exact .up (hwithin _ _ hplace) ih
  | enter hname hnext _ ih => exact .enter hname (hwithin _ _ hnext) ih
  | follow hname hnext _ ih => exact .follow hname (hwithin _ _ hnext) ih

/-- The names can be followed first, and then whatever comes after them. -/
theorem walk_append (h : Leads tree links place names left target) (hrest : rest ≠ [] ∨ follow) :
    walk tree follow links place (names ++ rest) = walk tree follow left target rest := by
  induction h with
  | done => rfl
  | stay hname hplace _ ih => rw [List.cons_append, walk_stay hname, if_pos hplace, ih]
  | up hplace _ ih => rw [List.cons_append, walk_up, if_pos hplace, ih]
  | enter hname hnext _ ih => rw [List.cons_append, walk_enter hname hnext, ih]
  | follow hname hnext _ ih =>
      rw [List.cons_append, walk_follow hname hnext (hrest.imp_left (List.append_ne_nil_of_right_ne_nil _)),
        ← List.append_assoc, ih]

theorem walk_eq (h : Leads tree links place names left target) :
    walk tree true links place names = some target := by
  have hwalk : walk tree true links place (names ++ []) = walk tree true left target [] :=
    h.walk_append (.inr rfl)
  rwa [List.append_nil, walk_nil] at hwalk

theorem kindAt_target (h : Leads tree links place names left target)
    (hplace : names = [] → tree.kindAt place = some .directory) :
    tree.kindAt target = some .directory := by
  induction h with
  | done => exact hplace rfl
  | stay _ hhere _ ih => exact ih fun _ => hhere
  | @up _ _ here _ _ hhere _ ih =>
      refine ih fun _ => ?_
      -- what is above a directory is one
      rcases List.eq_nil_or_concat' here with rfl | ⟨front, last, rfl⟩
      · exact hhere
      · rw [List.dropLast_concat]
        exact kindAt_of_append hhere (List.cons_ne_nil _ _)
  | enter _ hnext _ ih => exact ih fun _ => hnext
  | @follow _ _ _ rest _ _ path _ _ _ ih =>
      exact ih fun hnil => absurd (List.append_eq_nil_iff.mp hnil).1 (pieces_ne_nil path)

end Leads

/-- A walk goes along the first names to a directory and on from there, if it does not end before at
something else. -/
theorem exists_leads_of_walk
    (hrest : rest = [] → follow = true ∧ tree.kindAt result = some .directory)
    (h : walk tree follow links place (names ++ rest) = some result) :
    ∃ left target, Leads tree links place names left target ∧
      walk tree follow left target rest = some result := by
  -- a link brings in new names, but fewer links are left then
  induction links using Nat.strong_induction_on generalizing place names with
  | _ links ihlinks =>
    induction names generalizing place with
    | nil => exact ⟨links, place, .done _ _, h⟩
    | cons name names ih =>
        rw [List.cons_append] at h
        obtain ⟨hname, hplace, hwalk⟩ | ⟨rfl, hplace, hwalk⟩ | ⟨hname, hnext⟩ := walk_cons h
        · obtain ⟨left, target, hleads, hlast⟩ := ih hwalk
          exact ⟨left, target, .stay hname hplace hleads, hlast⟩
        · obtain ⟨left, target, hleads, hlast⟩ := ih hwalk
          exact ⟨left, target, .up hplace hleads, hlast⟩
        · obtain ⟨hdir, hwalk⟩ | ⟨path, fewer, hlink, -, rfl, hwalk⟩ | ⟨hnil, rfl, hend⟩ := hnext
          · obtain ⟨left, target, hleads, hlast⟩ := ih hwalk
            exact ⟨left, target, .enter hname hdir hleads, hlast⟩
          · rw [← List.append_assoc] at hwalk
            obtain ⟨left, target, hleads, hlast⟩ := ihlinks fewer (Nat.lt_succ_self fewer) hwalk
            exact ⟨left, target, .follow hname hlink hleads, hlast⟩
          · obtain ⟨hfollow, hdir⟩ := hrest (List.append_eq_nil_iff.mp hnil).2
            rw [hdir] at hend
            simp [hfollow] at hend

theorem walk_append_iff (hrest : rest ≠ []) :
    walk tree follow links place (names ++ rest) = some result ↔
      ∃ left target, Leads tree links place names left target ∧
        walk tree follow left target rest = some result := by
  constructor
  · exact exists_leads_of_walk fun hnil => absurd hnil hrest
  · rintro ⟨left, target, hleads, hlast⟩
    rw [hleads.walk_append (.inl hrest), hlast]

/-- Names that lead to a directory, and walks that end at one. -/
theorem leads_iff_walk (hplace : names = [] → tree.kindAt place = some .directory) :
    (∃ left, Leads tree links place names left target) ↔
      walk tree true links place names = some target ∧ tree.kindAt target = some .directory := by
  constructor
  · rintro ⟨left, hleads⟩
    exact ⟨hleads.walk_eq, hleads.kindAt_target hplace⟩
  · rintro ⟨hwalk, htarget⟩
    rw [← List.append_nil names] at hwalk
    obtain ⟨left, last, hleads, hlast⟩ := exists_leads_of_walk (fun _ => ⟨rfl, htarget⟩) hwalk
    rw [walk_nil] at hlast
    obtain rfl := Option.some.inj hlast
    exact ⟨left, hleads⟩

namespace Leads

/-- Names lead to one place only. -/
theorem target_eq {fewer : Nat} {last : List String} (h : Leads tree links place names left target)
    (h' : Leads tree links place names fewer last) : last = target :=
  Option.some.inj (h'.walk_eq.symm.trans h.walk_eq)

/-- Names that lead to a directory lead to others before that. -/
theorem of_append {a b : List String} (h : Leads tree links place (a ++ b) left target)
    (htarget : tree.kindAt target = some .directory) :
    ∃ some middle, Leads tree links place a some middle := by
  obtain ⟨some, middle, hleads, -⟩ := exists_leads_of_walk (fun _ => ⟨rfl, htarget⟩) h.walk_eq
  exact ⟨some, middle, hleads⟩

end Leads

/-- Names of directories lead to the last one. -/
theorem leads_names (hnames : ∀ name ∈ names, name ∉ ["", ".", ".."])
    (h : tree.kindAt (place ++ names) = some .directory) :
    Leads tree links place names links (place ++ names) := by
  induction names generalizing place with
  | nil =>
    rw [List.append_nil]
    exact .done links place
  | cons name names ih =>
    obtain ⟨hname, hrest⟩ := List.forall_mem_cons.mp hnames
    rw [List.append_cons] at h ⊢
    refine .enter hname ?_ (ih hrest h)
    rcases eq_or_ne names [] with rfl | hne
    · rwa [List.append_nil] at h
    · exact kindAt_of_append h hne

/-! ### The last name -/

theorem walk_name_iff {name : String} (hname : name ∉ ["", ".", ".."]) :
    walk tree false links place [name] = some result ↔
      tree.kindAt place = some .directory ∧ result = place ++ [name] := by
  constructor
  · intro h
    obtain ⟨hdir, hwalk⟩ | ⟨path, fewer, -, hgo, -⟩ | ⟨-, rfl, hend⟩ := walk_name_cons hname h
    · rw [walk_nil] at hwalk
      exact ⟨kindAt_of_append hdir (List.cons_ne_nil _ _), (Option.some.inj hwalk).symm⟩
    · simp at hgo
    · refine ⟨?_, rfl⟩
      obtain hfile | ⟨path, hlink, -⟩ | ⟨-, hplace⟩ := hend
      · exact kindAt_of_append hfile (List.cons_ne_nil _ _)
      · exact kindAt_of_append hlink (List.cons_ne_nil _ _)
      · exact hplace
  · rintro ⟨hplace, rfl⟩
    rw [walk_name_eq hname]
    simp only [List.isEmpty_nil, Bool.not_false, Bool.and_self, if_true]
    split
    · rfl
    · rw [walk_nil]
    · rfl
    · simp [isDirectory_iff.mpr hplace]

/-- Where there are no links, names lead to what they name. -/
theorem eq_append_of_walk (hlinks : ∀ names path, tree.kindAt (place ++ names) ≠ some (.link path))
    (hnames : ∀ name ∈ names, name ∉ ["", ".", ".."])
    (h : walk tree follow links place names = some result) : result = place ++ names := by
  induction names generalizing place with
  | nil =>
      rw [walk_nil] at h
      rw [List.append_nil]
      exact (Option.some.inj h).symm
  | cons name names ih =>
      obtain ⟨hname, hrest⟩ := List.forall_mem_cons.mp hnames
      obtain ⟨-, hwalk⟩ | ⟨path, fewer, hlink, -⟩ | ⟨rfl, rfl, -⟩ := walk_name_cons hname h
      · rw [List.append_cons]
        refine ih (fun more path => ?_) hrest hwalk
        rw [List.append_assoc]
        exact hlinks _ path
      · exact absurd hlink (hlinks [name] path)
      · rfl

/-- Names of directories and then of a file in them lead to the file. -/
theorem walk_to_file (hne : names ≠ []) (hnames : ∀ name ∈ names, name ∉ ["", ".", ".."])
    (hfile : tree.kindAt (place ++ names) = some .file) :
    walk tree follow links place names = some (place ++ names) := by
  induction names generalizing place with
  | nil => exact absurd rfl hne
  | cons name names ih =>
      obtain ⟨hname, hrest⟩ := List.forall_mem_cons.mp hnames
      by_cases hlast : names = []
      · subst hlast
        exact walk_file hname hfile
      · rw [List.append_cons] at hfile ⊢
        rw [walk_enter hname (kindAt_of_append hfile hlast)]
        exact ih hlast hrest hfile

/-- Where there is nothing, the last name is that of an entry. -/
theorem eq_append_of_walk_last {name : String}
    (h : walk tree false links place [name] = some result) (hfree : tree.kindAt result = none) :
    name ∉ ["", ".", ".."] ∧ result = place ++ [name] := by
  obtain ⟨-, hplace, hhere⟩ | ⟨rfl, hplace, hhere⟩ | ⟨hname, -⟩ := walk_cons h
  · rw [walk_nil] at hhere
    obtain rfl := Option.some.inj hhere
    rw [hplace] at hfree
    cases hfree
  · have hup := Leads.kindAt_target (.up hplace (.done links place.dropLast))
      fun hnil => absurd hnil (List.cons_ne_nil _ _)
    rw [walk_nil] at hhere
    obtain rfl := Option.some.inj hhere
    rw [hup] at hfree
    cases hfree
  · exact ⟨hname, ((walk_name_iff hname).mp h).2⟩

/-- There is something at the end of names that lead to a directory, even if the last one is not
followed. -/
theorem Leads.kindAt_walk (h : Leads tree links place names left target)
    (htarget : tree.kindAt target = some .directory)
    (hwalk : walk tree false links place names = some result) : tree.kindAt result ≠ none := by
  intro hfree
  rcases List.eq_nil_or_concat' names with rfl | ⟨front, name, rfl⟩
  · rw [walk_nil] at hwalk
    obtain rfl := Option.some.inj hwalk
    obtain rfl := (Leads.done links place).target_eq h
    rw [htarget] at hfree
    cases hfree
  · obtain ⟨fewer, middle, hfront, hlast⟩ := (walk_append_iff (List.cons_ne_nil _ _)).mp hwalk
    obtain ⟨hname, rfl⟩ := eq_append_of_walk_last hlast hfree
    have hend := h.walk_eq
    rw [hfront.walk_append (.inr rfl)] at hend
    -- there would have to be a directory at the name, or a link to one
    obtain ⟨hdirectory, -⟩ | ⟨path, fewer, hlink, -⟩ | ⟨-, rfl, -⟩ := walk_name_cons hname hend
    · rw [hdirectory] at hfree
      cases hfree
    · rw [hlink] at hfree
      cases hfree
    · rw [htarget] at hfree
      cases hfree

end Walks

end Wireframe.Files.World
