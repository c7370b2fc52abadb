/-
Places in a tree.

A place is a list of names.  A change at a place is seen there and below, and the directories above it
hold it; everything else is as it was.

* `at?_append` — places below a place;
* `at?_change_append`, `at?_change_of_apart`, `exists_of_change_append`, `at?_change_last` — what is
  where after a change;
* `Kind`, `kindAt` — what something is, whatever it holds;
* `contentsAt?` — the contents of the file at a place;
* `Within` — all places of a tree are places of another and hold something of the same kind.
-/
import Mathlib.Data.List.Infix
import Wireframe.Files.Tree

namespace Wireframe.Files.Tree

/-! ### Entries -/

section Entries

variable {name other : String} {entries : List (String × Tree)}

theorem lookup_putEntry_self (tree : Tree) : (putEntry name tree entries).lookup name = some tree := by
  induction entries with
  | nil => simp [putEntry]
  | cons entry rest ih =>
      unfold putEntry
      split
      · exact List.lookup_cons_self
      · split
        · exact List.lookup_cons_self
        · rename_i hne
          rw [List.lookup_cons, beq_false_of_ne hne]
          exact ih

theorem lookup_putEntry_of_ne (h : other ≠ name) (tree : Tree) :
    (putEntry name tree entries).lookup other = entries.lookup other := by
  induction entries with
  | nil => simp [putEntry, List.lookup_cons, beq_false_of_ne h]
  | cons entry rest ih =>
      unfold putEntry
      split
      · rw [List.lookup_cons, beq_false_of_ne h]
      · split
        · rename_i heq
          rw [List.lookup_cons, List.lookup_cons, beq_false_of_ne h, ← heq, beq_false_of_ne h]
        · rw [List.lookup_cons, List.lookup_cons, ih]

theorem lookup_dropEntry_self : (dropEntry name entries).lookup name = none := by
  rw [List.lookup_eq_none_iff]
  intro entry hentry
  have hne := bne_iff_ne.mp (List.mem_filter.mp hentry).2
  exact bne_iff_ne.mpr hne.symm

theorem lookup_dropEntry_of_ne (h : other ≠ name) :
    (dropEntry name entries).lookup other = entries.lookup other := by
  induction entries with
  | nil => rfl
  | cons entry rest ih =>
      by_cases heq : entry.1 = name
      · have hdrop : dropEntry name (entry :: rest) = dropEntry name rest :=
          List.filter_cons_of_neg (by simpa using heq)
        rw [hdrop, List.lookup_cons, heq, beq_false_of_ne h, ih]
      · have hkeep : dropEntry name (entry :: rest) = entry :: dropEntry name rest :=
          List.filter_cons_of_pos (by simpa using heq)
        rw [hkeep, List.lookup_cons, List.lookup_cons, ih]

theorem lookup_setEntry_self (tree : Option Tree) :
    (setEntry name tree entries).lookup name = tree := by
  cases tree with
  | none => exact lookup_dropEntry_self
  | some tree => exact lookup_putEntry_self tree

theorem lookup_setEntry_of_ne (h : other ≠ name) (tree : Option Tree) :
    (setEntry name tree entries).lookup other = entries.lookup other := by
  cases tree with
  | none => exact lookup_dropEntry_of_ne h
  | some tree => exact lookup_putEntry_of_ne h tree

end Entries

/-! ### What is at a place -/

section Places

variable {tree changed : Tree} {place names : List String} {time : Int} {put : Option Tree}

@[simp] theorem at?_nil (tree : Tree) : tree.at? [] = some tree := by
  cases tree <;> rfl

theorem at?_directory_cons (entries : List (String × Tree)) (modified : Int) (name : String)
    (names : List String) : (directory entries modified).at? (name :: names) =
      (entries.lookup name).bind (at? names) := by
  rw [at?]
  cases entries.lookup name <;> rfl

theorem at?_append (a b : List String) (tree : Tree) :
    tree.at? (a ++ b) = (tree.at? a).bind (at? b) := by
  induction a generalizing tree with
  | nil => simp
  | cons name a ih =>
      cases tree with
      | directory entries modified =>
          rw [List.cons_append, at?_directory_cons, at?_directory_cons, Option.bind_assoc]
          exact congrArg _ (funext ih)
      | _ => rfl

/-- Only directories hold something. -/
theorem isDirectory_of_at? {name : String} {inner : Tree}
    (h : tree.at? (place ++ name :: names) = some inner) :
    (tree.at? place).any isDirectory := by
  rw [at?_append] at h
  obtain ⟨outer, houter, hinner⟩ := Option.bind_eq_some_iff.mp h
  rw [houter]
  cases outer with
  | directory entries modified => rfl
  | _ => cases hinner

/-! ### Changes -/

/-- There is a directory above every place that is changed. -/
theorem exists_change {name : String} (h : (tree.at? place).any isDirectory) :
    ∃ changed, tree.change? time put (place ++ [name]) = some changed := by
  induction place generalizing tree with
  | nil =>
      cases tree with
      | directory entries modified => exact ⟨_, rfl⟩
      | _ => cases h
  | cons first place ih =>
      cases tree with
      | directory entries modified =>
          rw [at?_directory_cons] at h
          cases hlookup : entries.lookup first with
          | none =>
              rw [hlookup] at h
              cases h
          | some inner =>
              rw [hlookup] at h
              obtain ⟨changed, hchanged⟩ := ih h
              -- The place behind the first name is not empty, as the new name is at its end.
              obtain ⟨next, rest, hrest⟩ := List.exists_cons_of_ne_nil
                (List.append_ne_nil_of_right_ne_nil place (List.cons_ne_nil name []))
              rw [hrest] at hchanged
              rw [List.cons_append, hrest, change?, hlookup]
              simp only [hchanged]
              exact ⟨_, rfl⟩
      | _ => cases h

/-- A change in a directory is a change of the directory itself or of one of its entries. -/
theorem change_cons {name : String} (h : tree.change? time put (name :: place) = some changed) :
    ∃ entries modified, tree = .directory entries modified ∧
      ((place = [] ∧ changed = .directory (setEntry name put entries) time) ∨
        (place ≠ [] ∧ ∃ inner inner', entries.lookup name = some inner ∧
          inner.change? time put place = some inner' ∧
          changed = .directory (putEntry name inner' entries) modified)) := by
  cases tree with
  | directory entries modified =>
      refine ⟨entries, modified, rfl, ?_⟩
      -- A change at the first name is one of the directory; one further down leaves its time.
      cases place with
      | nil =>
          rw [change?] at h
          exact .inl ⟨rfl, (Option.some.inj h).symm⟩
      | cons next rest =>
          refine .inr ⟨List.cons_ne_nil _ _, ?_⟩
          rw [change?] at h
          split at h
          · rename_i inner hlookup
            split at h
            · rename_i inner' hinner
              exact ⟨inner, inner', hlookup, hinner, (Option.some.inj h).symm⟩
            · cases h
          · cases h
  | _ => cases place <;> cases h

/-- At a place that is changed there is what is put there. -/
theorem at?_change_append (h : tree.change? time put place = some changed) (names : List String) :
    changed.at? (place ++ names) = put.bind (at? names) := by
  induction place generalizing tree changed with
  | nil =>
      cases tree <;> simp_all [change?]
  | cons name place ih =>
      obtain ⟨entries, modified, rfl, ⟨rfl, rfl⟩ | ⟨-, inner, inner', hlookup, hinner, rfl⟩⟩ :=
        change_cons h
      · rw [List.singleton_append, at?_directory_cons, lookup_setEntry_self]
      · rw [List.cons_append, at?_directory_cons, lookup_putEntry_self]
        exact ih hinner

/-- What is neither below nor above a place that is changed stays as it is. -/
theorem at?_change_of_apart (h : tree.change? time put place = some changed) {other : List String}
    (hbelow : ¬ place <+: other) (habove : ¬ other <+: place) :
    changed.at? other = tree.at? other := by
  induction place generalizing tree changed other with
  | nil => exact absurd List.nil_prefix hbelow
  | cons name place ih =>
      obtain ⟨entries, modified, rfl, hcase⟩ := change_cons h
      cases other with
      | nil => exact absurd List.nil_prefix habove
      | cons first other =>
          by_cases hname : first = name
          · subst hname
            rw [List.prefix_cons_inj] at hbelow habove
            obtain ⟨rfl, rfl⟩ | ⟨-, inner, inner', hlookup, hinner, rfl⟩ := hcase
            · exact absurd List.nil_prefix hbelow
            · rw [at?_directory_cons, at?_directory_cons, lookup_putEntry_self, hlookup]
              exact ih hinner hbelow habove
          · obtain ⟨rfl, rfl⟩ | ⟨-, inner, inner', hlookup, hinner, rfl⟩ := hcase
            · rw [at?_directory_cons, at?_directory_cons, lookup_setEntry_of_ne hname]
            · rw [at?_directory_cons, at?_directory_cons, lookup_putEntry_of_ne hname]

/-- A change below a place is a change of what is there. -/
theorem exists_of_change_append (h : tree.change? time put (place ++ names) = some changed)
    (hnames : names ≠ []) : ∃ inner inner', tree.at? place = some inner ∧
      changed.at? place = some inner' ∧ inner.change? time put names = some inner' := by
  induction place generalizing tree changed with
  | nil => exact ⟨tree, changed, at?_nil tree, at?_nil changed, h⟩
  | cons name place ih =>
      obtain ⟨entries, modified, rfl, ⟨hnil, -⟩ | ⟨-, inner, inner', hlookup, hinner, rfl⟩⟩ :=
        change_cons h
      · exact absurd (List.append_eq_nil_iff.mp hnil).2 hnames
      · rw [at?_directory_cons, at?_directory_cons, lookup_putEntry_self, hlookup]
        exact ih hinner

theorem at?_change_above (h : tree.change? time put (place ++ names) = some changed)
    (hnames : names ≠ []) : changed.at? place = (tree.at? place).bind (change? time put names) := by
  obtain ⟨inner, inner', hinner, hinner', hchange⟩ := exists_of_change_append h hnames
  rw [hinner, hinner', Option.bind_some, hchange]

/-- What is above a place that is changed is a directory before and after that. -/
theorem isDirectory_of_change (h : tree.change? time put (place ++ names) = some changed)
    (hnames : names ≠ []) :
    (tree.at? place).any isDirectory ∧ (changed.at? place).any isDirectory := by
  obtain ⟨inner, inner', hinner, hinner', hchange⟩ := exists_of_change_append h hnames
  obtain ⟨name, rest, rfl⟩ := List.exists_cons_of_ne_nil hnames
  rw [hinner, hinner']
  obtain ⟨entries, modified, rfl, ⟨-, rfl⟩ | ⟨-, first, second, -, -, rfl⟩⟩ := change_cons hchange
  · exact ⟨rfl, rfl⟩
  · exact ⟨rfl, rfl⟩

/-- The directory in which an entry changes holds the others as before. -/
theorem at?_change_last {name : String} {modified : Int} {entries : List (String × Tree)}
    (h : tree.change? time put (place ++ [name]) = some changed)
    (hat : tree.at? place = some (.directory entries modified)) :
    changed.at? place = some (.directory (setEntry name put entries) time) := by
  rw [at?_change_above h (List.cons_ne_nil _ _), hat, Option.bind_some, change?]

end Places

/-! ### Kinds -/

/-- What a tree is, whatever it holds. -/
inductive Kind
  | file
  | directory
  | link (target : String)
deriving DecidableEq, Repr

/-- The kind of a tree. -/
def kind : Tree → Kind
  | .file _ _ _ => .file
  | .directory _ _ => .directory
  | .link target _ => .link target

/-- The kind of what is at a place. -/
def kindAt (tree : Tree) (place : List String) : Option Kind := (tree.at? place).map kind

/-- What is at the places of a tree is at those of another too, with the same kind. -/
def Within (tree other : Tree) : Prop :=
  ∀ place kind, tree.kindAt place = some kind → other.kindAt place = some kind

section Kinds

variable {tree changed other : Tree} {place : List String} {time : Int}

theorem kindAt_eq_none_iff : tree.kindAt place = none ↔ tree.at? place = none := by
  simp [kindAt]

theorem kindAt_eq_directory_iff :
    tree.kindAt place = some .directory ↔ (tree.at? place).any isDirectory := by
  cases h : tree.at? place with
  | none => simp [kindAt, h]
  | some inner => cases inner <;> simp [kindAt, h, kind, isDirectory]

theorem kindAt_eq_link_iff {target : String} : tree.kindAt place = some (.link target) ↔
    ∃ modified, tree.at? place = some (.link target modified) := by
  cases h : tree.at? place with
  | none => simp [kindAt, h]
  | some inner => cases inner <;> simp [kindAt, h, kind, eq_comm]

theorem kindAt_eq_file_iff : tree.kindAt place = some .file ↔
    ∃ contents mode modified, tree.at? place = some (.file contents mode modified) := by
  cases h : tree.at? place with
  | none => simp [kindAt, h]
  | some inner => cases inner <;> simp [kindAt, h, kind]

theorem kindAt_of_append {names : List String} {k : Kind} (h : tree.kindAt (place ++ names) = some k)
    (hnames : names ≠ []) : tree.kindAt place = some .directory := by
  obtain ⟨name, rest, rfl⟩ := List.exists_cons_of_ne_nil hnames
  obtain ⟨inner, hinner, -⟩ := Option.map_eq_some_iff.mp h
  exact kindAt_eq_directory_iff.mpr (isDirectory_of_at? hinner)

/-- There is nothing below a file. -/
theorem kindAt_below {names : List String} (h : tree.kindAt place = some .file) (hnames : names ≠ []) :
    tree.kindAt (place ++ names) = none := by
  refine Option.eq_none_iff_forall_ne_some.mpr fun k hk => ?_
  rw [kindAt_of_append hk hnames] at h
  cases h

theorem Within.refl (tree : Tree) : Within tree tree := fun _ _ h => h

theorem Within.trans {a b c : Tree} (hab : Within a b) (hbc : Within b c) : Within a c :=
  fun place kind h => hbc place kind (hab place kind h)

theorem Within.at?_eq_none (h : Within tree other) (hother : other.at? place = none) :
    tree.at? place = none := by
  refine Option.eq_none_iff_forall_ne_some.mpr fun inner hinner => ?_
  have hkind := h place inner.kind (by rw [kindAt, hinner]; rfl)
  rw [kindAt, hother] at hkind
  cases hkind

/-- The kinds at the places that are not below one that is changed stay as they are. -/
theorem kindAt_change {put : Option Tree} (h : tree.change? time put place = some changed)
    {q : List String} (hq : ¬ place <+: q) : changed.kindAt q = tree.kindAt q := by
  by_cases habove : q <+: place
  · obtain ⟨names, rfl⟩ := habove
    have hnames : names ≠ [] := by
      rintro rfl
      exact hq (by rw [List.append_nil])
    obtain ⟨hbefore, hafter⟩ := isDirectory_of_change h hnames
    rw [kindAt_eq_directory_iff.mpr hbefore, kindAt_eq_directory_iff.mpr hafter]
  · rw [kindAt, kindAt, at?_change_of_apart h hq habove]

theorem within_of_remove (h : tree.change? time none place = some changed) :
    Within changed tree := by
  intro q kind hkind
  by_cases hq : place <+: q
  · obtain ⟨names, rfl⟩ := hq
    rw [kindAt, at?_change_append h] at hkind
    cases hkind
  · rwa [kindAt_change h hq] at hkind

theorem within_of_add {put : Tree} (h : tree.change? time (some put) place = some changed)
    (hfree : tree.at? place = none) : Within tree changed := by
  intro q kind hkind
  by_cases hq : place <+: q
  · obtain ⟨names, rfl⟩ := hq
    rw [kindAt, at?_append, hfree] at hkind
    cases hkind
  · rwa [kindAt_change h hq]

/-- A file that is put in the place of another changes no kind. -/
theorem kindAt_replace {put : Tree} (h : tree.change? time (some put) place = some changed)
    (hput : put.kind = .file) (hfile : tree.kindAt place = some .file) (q : List String) :
    changed.kindAt q = tree.kindAt q := by
  by_cases hq : place <+: q
  · obtain ⟨names, rfl⟩ := hq
    obtain ⟨contents, mode, modified, hplace⟩ := kindAt_eq_file_iff.mp hfile
    rw [kindAt, kindAt, at?_change_append h, at?_append, hplace, Option.bind_some, Option.bind_some]
    cases put with
    | file => cases names <;> rfl
    | _ => cases hput
  · exact kindAt_change h hq

end Kinds

/-! ### Contents -/

/-- The contents of the file at a place. -/
def contentsAt? (tree : Tree) (place : List String) : Option Bytes :=
  match tree.at? place with
  | some (.file contents _ _) => some contents
  | _ => none

section Contents

variable {tree changed : Tree} {place other : List String} {contents : Bytes}

theorem contentsAt?_eq_some_iff : tree.contentsAt? place = some contents ↔
    ∃ mode modified, tree.at? place = some (.file contents mode modified) := by
  rw [contentsAt?]
  cases tree.at? place with
  | none => simp
  | some inner => cases inner <;> simp

theorem kindAt_of_contentsAt? (h : tree.contentsAt? place = some contents) :
    tree.kindAt place = some .file := by
  obtain ⟨mode, modified, hat⟩ := contentsAt?_eq_some_iff.mp h
  exact kindAt_eq_file_iff.mpr ⟨contents, mode, modified, hat⟩

theorem contentsAt?_eq_none (h : tree.kindAt place ≠ some .file) : tree.contentsAt? place = none :=
  Option.eq_none_iff_forall_ne_some.mpr fun _ hcontents => h (kindAt_of_contentsAt? hcontents)

/-- A change is seen in no file but those at its place and below. -/
theorem contentsAt?_change {time : Int} {put : Option Tree}
    (h : tree.change? time put place = some changed) (hother : ¬ place <+: other) :
    changed.contentsAt? other = tree.contentsAt? other := by
  by_cases habove : other <+: place
  · obtain ⟨names, rfl⟩ := habove
    have hnames : names ≠ [] := by
      rintro rfl
      exact hother (by rw [List.append_nil])
    obtain ⟨hbefore, hafter⟩ := isDirectory_of_change h hnames
    rw [contentsAt?_eq_none, contentsAt?_eq_none]
    · rw [kindAt_eq_directory_iff.mpr hbefore]
      decide
    · rw [kindAt_eq_directory_iff.mpr hafter]
      decide
  · rw [contentsAt?, contentsAt?, at?_change_of_apart h hother habove]

end Contents

end Wireframe.Files.Tree
