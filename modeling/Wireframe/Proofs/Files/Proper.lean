/-
Proper trees.

The entries of a directory have names of their own, in order.  Then every file is found at one place,
and to list the files of a tree is to list the places where there is one.

* `isProper` — trees with proper names;
* `isProper_change` — changes keep trees proper;
* `files`, `mem_files_iff`, `nodup_files` — the files of a tree;
* `mentions`, `mentions_iff` — names that something in a tree has, which are those on the way to some
  place where there is something;
* `Within.mentions` — a part of a tree mentions no more names.
-/
import Mathlib.Data.List.Nodup
import Mathlib.Data.String.Basic
import Wireframe.Proofs.Files.Name
import Wireframe.Proofs.Files.Place

namespace Wireframe.Files.Tree

/-! ### Names in order -/

mutual

/-- All entries have names of their own, in order. -/
def isProper : Tree → Bool
  | .directory entries _ => areProper entries
  | _ => true

/-- The entries have names of their own, in order, and are proper themselves. -/
def areProper : List (String × Tree) → Bool
  | [] => true
  | (name, tree) :: rest =>
      isName name && rest.all (fun entry => name < entry.1) && isProper tree && areProper rest

end

section Entries

variable {name other : String} {tree : Tree} {entries rest : List (String × Tree)}

theorem areProper_cons_iff : areProper ((name, tree) :: rest) ↔
    isName name ∧ (∀ entry ∈ rest, name < entry.1) ∧ tree.isProper ∧ areProper rest := by
  simp [areProper, and_assoc]

theorem areProper_iff : areProper entries ↔ (entries.map Prod.fst).Pairwise (· < ·) ∧
    ∀ entry ∈ entries, isName entry.1 ∧ entry.2.isProper := by
  induction entries with
  | nil => simp [areProper]
  | cons entry rest ih =>
      rw [areProper_cons_iff, ih, List.map_cons, List.pairwise_cons, List.forall_mem_cons,
        List.forall_mem_map]
      tauto

/-- What is found under a name is the entry of that name. -/
theorem lookup_eq_some_iff (h : areProper entries) :
    entries.lookup name = some tree ↔ (name, tree) ∈ entries := by
  induction entries with
  | nil => simp
  | cons entry rest ih =>
      obtain ⟨first, inner⟩ := entry
      obtain ⟨-, horder, -, hrest⟩ := areProper_cons_iff.mp h
      by_cases hname : name = first
      · subst hname
        have hnot : (name, tree) ∉ rest := fun hmem => lt_irrefl name (horder _ hmem)
        simp [hnot, eq_comm]
      · rw [List.lookup_cons, beq_false_of_ne hname, List.mem_cons]
        simp [hname, ih hrest]

theorem mem_putEntry {entry : String × Tree} (h : entry ∈ putEntry name tree entries) :
    entry = (name, tree) ∨ entry ∈ entries := by
  induction entries with
  | nil => exact .inl (List.mem_singleton.mp h)
  | cons first rest ih =>
      unfold putEntry at h
      split at h
      · exact List.mem_cons.mp h
      · split at h
        · rcases List.mem_cons.mp h with h | h
          · exact .inl h
          · exact .inr (List.mem_cons_of_mem _ h)
        · rcases List.mem_cons.mp h with h | h
          · exact .inr (h ▸ List.mem_cons_self)
          · exact (ih h).imp_right (List.mem_cons_of_mem _)

theorem areProper_putEntry (hname : isName name) (htree : tree.isProper) (h : areProper entries) :
    areProper (putEntry name tree entries) := by
  induction entries with
  | nil => simp [putEntry, areProper, hname, htree]
  | cons entry rest ih =>
      obtain ⟨first, inner⟩ := entry
      obtain ⟨hfirst, horder, hinner, hrest⟩ := areProper_cons_iff.mp h
      unfold putEntry
      split
      · rename_i hlt
        refine areProper_cons_iff.mpr ⟨hname, ?_, htree, h⟩
        exact List.forall_mem_cons.mpr ⟨hlt, fun entry hentry => hlt.trans (horder entry hentry)⟩
      · split
        · rename_i heq
          have heq : name = first := heq
          exact areProper_cons_iff.mpr ⟨hname, heq ▸ horder, htree, hrest⟩
        · rename_i hlt hne
          refine areProper_cons_iff.mpr ⟨hfirst, fun entry hentry => ?_, hinner, ih hrest⟩
          rcases mem_putEntry hentry with rfl | hentry
          · exact lt_of_le_of_ne (le_of_not_gt hlt) (Ne.symm hne)
          · exact horder entry hentry

theorem areProper_dropEntry (h : areProper entries) : areProper (dropEntry name entries) := by
  obtain ⟨horder, hentries⟩ := areProper_iff.mp h
  refine areProper_iff.mpr ⟨?_, fun entry hentry => hentries entry (List.mem_filter.mp hentry).1⟩
  exact horder.sublist (List.filter_sublist.map Prod.fst)

theorem areProper_setEntry {put : Option Tree} (hname : isName name)
    (hput : ∀ tree, put = some tree → tree.isProper) (h : areProper entries) :
    areProper (setEntry name put entries) := by
  cases put with
  | none => exact areProper_dropEntry h
  | some tree => exact areProper_putEntry hname (hput tree rfl) h

end Entries

section Places

variable {tree changed inner : Tree} {place : List String} {time : Int} {put : Option Tree}

/-- What is in a proper tree is proper, and so are the names that lead there. -/
theorem isProper_at? (htree : tree.isProper) (h : tree.at? place = some inner) :
    inner.isProper ∧ ∀ name ∈ place, isName name := by
  induction place generalizing tree with
  | nil =>
      rw [at?_nil] at h
      obtain rfl := Option.some.inj h
      exact ⟨htree, List.forall_mem_nil _⟩
  | cons name place ih =>
      cases tree with
      | directory entries modified =>
          rw [at?_directory_cons] at h
          obtain ⟨next, hlookup, hat⟩ := Option.bind_eq_some_iff.mp h
          rw [isProper] at htree
          have hentry := (lookup_eq_some_iff htree).mp hlookup
          obtain ⟨hname, hnext⟩ := (areProper_iff.mp htree).2 _ hentry
          obtain ⟨hinner, hplace⟩ := ih hnext hat
          exact ⟨hinner, List.forall_mem_cons.mpr ⟨hname, hplace⟩⟩
      | _ => cases h

/-- A proper tree stays proper if something proper is put at a place of proper names, or is taken
away. -/
theorem isProper_change (h : tree.change? time put place = some changed) (htree : tree.isProper)
    (hplace : ∀ name ∈ place, isName name) (hput : ∀ tree, put = some tree → tree.isProper) :
    changed.isProper := by
  induction place generalizing tree changed with
  | nil =>
      have hchanged : put = some changed := by
        cases tree <;> exact h
      exact hput changed hchanged
  | cons name place ih =>
      obtain ⟨hname, hplace⟩ := List.forall_mem_cons.mp hplace
      obtain ⟨entries, modified, rfl, ⟨-, rfl⟩ | ⟨-, inner, inner', hlookup, hinner, rfl⟩⟩ :=
        change_cons h
      · rw [isProper] at htree ⊢
        exact areProper_setEntry hname hput htree
      · rw [isProper] at htree ⊢
        have hentry := (lookup_eq_some_iff htree).mp hlookup
        have hproper := ((areProper_iff.mp htree).2 _ hentry).2
        exact areProper_putEntry hname (ih hinner hproper hplace) htree

end Places

/-! ### Files -/

mutual

/-- The files of a tree, links not being followed: the names that lead to them and their contents. -/
def files : Tree → List (List String × Bytes)
  | .file contents _ _ => [([], contents)]
  | .directory entries _ => filesOf entries
  | .link _ _ => []

/-- The files of the entries of a directory. -/
def filesOf : List (String × Tree) → List (List String × Bytes)
  | [] => []
  | (name, tree) :: rest => (files tree).map (fun file => (name :: file.1, file.2)) ++ filesOf rest

end

theorem contentsAt?_directory_cons (entries : List (String × Tree)) (modified : Int) (name : String)
    (names : List String) : (directory entries modified).contentsAt? (name :: names) =
      (entries.lookup name).bind (contentsAt? · names) := by
  rw [contentsAt?, at?_directory_cons]
  cases entries.lookup name <;> rfl

mutual

/-- The files of a proper tree are those that are found at its places. -/
theorem mem_files_iff : (tree : Tree) → tree.isProper → ∀ {names : List String} {contents : Bytes},
    (names, contents) ∈ tree.files ↔ tree.contentsAt? names = some contents
  | .file held _ _, _, names, contents => by
      cases names with
      | nil => simp [files, contentsAt?, eq_comm]
      | cons => simp [files, contentsAt?, at?]
  | .link _ _, _, names, contents => by
      cases names <;> simp [files, contentsAt?, at?]
  | .directory entries modified, h, names, contents => by
      rw [isProper] at h
      rw [files]
      cases names with
      | nil =>
          rw [mem_filesOf_iff entries h]
          simp [contentsAt?]
      | cons name names =>
          rw [mem_filesOf_iff entries h, contentsAt?_directory_cons]
          simp

/-- The files of proper entries are those that are found below their names. -/
theorem mem_filesOf_iff : (entries : List (String × Tree)) → areProper entries →
    ∀ {names : List String} {contents : Bytes}, (names, contents) ∈ filesOf entries ↔
      ∃ name rest, names = name :: rest ∧
        (entries.lookup name).bind (contentsAt? · rest) = some contents
  | [], _, names, contents => by simp [filesOf]
  | (first, tree) :: others, h, names, contents => by
      obtain ⟨-, horder, htree, hothers⟩ := areProper_cons_iff.mp h
      rw [filesOf, List.mem_append, mem_filesOf_iff others hothers, List.mem_map]
      constructor
      · rintro (⟨⟨rest, held⟩, hheld, heq⟩ | ⟨name, rest, rfl, hfound⟩)
        · obtain ⟨rfl, rfl⟩ := Prod.mk.inj heq
          refine ⟨first, rest, rfl, ?_⟩
          rw [List.lookup_cons_self, Option.bind_some]
          exact (mem_files_iff tree htree).mp hheld
        · refine ⟨name, rest, rfl, ?_⟩
          -- the first entry has a name of its own
          have hne : name ≠ first := by
            rintro rfl
            obtain ⟨inner, hlookup, -⟩ := Option.bind_eq_some_iff.mp hfound
            exact lt_irrefl name (horder _ ((lookup_eq_some_iff hothers).mp hlookup))
          rwa [List.lookup_cons, beq_false_of_ne hne]
      · rintro ⟨name, rest, rfl, hfound⟩
        by_cases hname : name = first
        · subst hname
          rw [List.lookup_cons_self, Option.bind_some] at hfound
          exact .inl ⟨(rest, contents), (mem_files_iff tree htree).mpr hfound, rfl⟩
        · rw [List.lookup_cons, beq_false_of_ne hname] at hfound
          exact .inr ⟨name, rest, rfl, hfound⟩

end

mutual

/-- No two files of a proper tree are at one place. -/
theorem nodup_files : (tree : Tree) → tree.isProper → (tree.files.map Prod.fst).Nodup
  | .file _ _ _, _ => List.nodup_singleton _
  | .link _ _, _ => List.nodup_nil
  | .directory entries _, h => by
      rw [isProper] at h
      rw [files]
      exact nodup_filesOf entries h

/-- No two files of proper entries are at one place. -/
theorem nodup_filesOf : (entries : List (String × Tree)) → areProper entries →
    ((filesOf entries).map Prod.fst).Nodup
  | [], _ => List.nodup_nil
  | (first, tree) :: others, h => by
      obtain ⟨-, horder, htree, hothers⟩ := areProper_cons_iff.mp h
      rw [filesOf, List.map_append, List.map_map]
      refine List.Nodup.append ?_ (nodup_filesOf others hothers) ?_
      · have hfiles := (nodup_files tree htree).map (List.cons_injective (a := first))
        simpa [Function.comp_def] using hfiles
      · intro names hfirst hrest
        obtain ⟨file, -, rfl⟩ := List.mem_map.mp hfirst
        obtain ⟨⟨names, contents⟩, hmem, hnames⟩ := List.mem_map.mp hrest
        obtain ⟨name, rest, hcons, hfound⟩ := (mem_filesOf_iff others hothers).mp hmem
        obtain ⟨inner, hlookup, -⟩ := Option.bind_eq_some_iff.mp hfound
        have heq : name = first := by
          simp only [hcons, Function.comp_apply, List.cons.injEq] at hnames
          exact hnames.1
        subst heq
        exact lt_irrefl name (horder _ ((lookup_eq_some_iff hothers).mp hlookup))

end

mutual

/-- Something in the tree has the name. -/
def mentions (name : String) : Tree → Bool
  | .directory entries _ => mentionedIn name entries
  | _ => false

/-- An entry has the name, or something in it has. -/
def mentionedIn (name : String) : List (String × Tree) → Bool
  | [] => false
  | (first, tree) :: rest => first == name || mentions name tree || mentionedIn name rest

end

section Mentions

variable {name : String}

mutual

/-- A name occurs in a proper tree if it is on the way to something. -/
theorem mentions_iff : (tree : Tree) → tree.isProper →
    (tree.mentions name ↔ ∃ place, name ∈ place ∧ tree.kindAt place ≠ none)
  -- Nothing is below a file or a link, so that only the empty place has a kind.
  | .file _ _ _, _ => by
      refine iff_of_false Bool.false_ne_true ?_
      rintro ⟨place, hmem, hkind⟩
      cases place with
      | nil => cases hmem
      | cons => exact hkind rfl
  | .link _ _, _ => by
      refine iff_of_false Bool.false_ne_true ?_
      rintro ⟨place, hmem, hkind⟩
      cases place with
      | nil => cases hmem
      | cons => exact hkind rfl
  | .directory entries modified, h => by
      rw [isProper] at h
      rw [mentions, mentionedIn_iff entries h]
      -- A name is mentioned by an entry: as its name, or somewhere below it.
      constructor
      · rintro ⟨first, inner, rest, hmem, hlookup, hkind⟩
        refine ⟨first :: rest, hmem, ?_⟩
        rwa [kindAt, at?_directory_cons, hlookup]
      · rintro ⟨place, hmem, hkind⟩
        cases place with
        | nil => cases hmem
        | cons first rest =>
            rw [kindAt, at?_directory_cons] at hkind
            cases hlookup : entries.lookup first with
            | none => exact absurd (by rw [hlookup]; rfl) hkind
            | some inner =>
                rw [hlookup] at hkind
                exact ⟨first, inner, rest, hmem, hlookup, hkind⟩

/-- A name occurs in proper entries if it is on the way to something in one of them. -/
theorem mentionedIn_iff : (entries : List (String × Tree)) → areProper entries →
    (mentionedIn name entries ↔ ∃ first inner rest, name ∈ first :: rest ∧
      entries.lookup first = some inner ∧ inner.kindAt rest ≠ none)
  | [], _ => by simp [mentionedIn]
  | (other, tree) :: others, h => by
      obtain ⟨-, horder, htree, hothers⟩ := areProper_cons_iff.mp h
      rw [mentionedIn, Bool.or_eq_true, Bool.or_eq_true, beq_iff_eq, mentions_iff tree htree,
        mentionedIn_iff others hothers]
      constructor
      · rintro ((rfl | ⟨place, hmem, hkind⟩) | ⟨first, inner, rest, hmem, hlookup, hkind⟩)
        · refine ⟨other, tree, [], List.mem_cons_self, List.lookup_cons_self, ?_⟩
          simp [kindAt]
        · exact ⟨other, tree, place, List.mem_cons_of_mem _ hmem, List.lookup_cons_self, hkind⟩
        · refine ⟨first, inner, rest, hmem, ?_, hkind⟩
          -- the first entry has a name of its own
          have hne : first ≠ other := by
            rintro rfl
            exact lt_irrefl first (horder _ ((lookup_eq_some_iff hothers).mp hlookup))
          rwa [List.lookup_cons, beq_false_of_ne hne]
      · rintro ⟨first, inner, rest, hmem, hlookup, hkind⟩
        by_cases hfirst : first = other
        · subst hfirst
          rw [List.lookup_cons_self] at hlookup
          obtain rfl := Option.some.inj hlookup
          rcases List.mem_cons.mp hmem with rfl | hmem
          · exact .inl (.inl rfl)
          · exact .inl (.inr ⟨rest, hmem, hkind⟩)
        · rw [List.lookup_cons, beq_false_of_ne hfirst] at hlookup
          exact .inr ⟨first, inner, rest, hmem, hlookup, hkind⟩

end

variable {tree other : Tree}

theorem mentions_eq_false_iff (h : tree.isProper) :
    tree.mentions name = false ↔ ∀ place, name ∈ place → tree.kindAt place = none := by
  rw [← Bool.not_eq_true, mentions_iff tree h]
  simp

/-- What is only part of a tree mentions no more names. -/
theorem Within.mentions (hwithin : Within tree other) (htree : tree.isProper)
    (hother : other.isProper) (h : other.mentions name = false) : tree.mentions name = false := by
  rw [mentions_eq_false_iff hother] at h
  refine (mentions_eq_false_iff htree).mpr fun place hmem => ?_
  refine Option.eq_none_iff_forall_ne_some.mpr fun kind hkind => ?_
  cases (h place hmem).symm.trans (hwithin place kind hkind)

end Mentions

end Wireframe.Files.Tree
