/-
What is copied of a skeleton.

A file below a directory is named by the names that lead to it.  The plan of a tree lists its files,
links not being followed, but for those that are left out: to pass over a directory that is left out
is to pass over files that are left out themselves.

* `pieces_relative`, `relative_pieces` — a path of names consists of these names;
* `parent_join` — the directory above a path of names;
* `isDenied_iff`, `isDenied_of_prefix`, `isDenied_of_subset` — what is left out;
* `Item.names`, `Item.file?` — the names that lead to something that is copied;
* `areNames_of_mem_plan` — they are proper names;
* `files_plan` — the files of the plan;
* `plan_seen_enters` — directories that are left out need not be entered.
-/
import Wireframe.Export.Skeleton
import Wireframe.Proofs.Files.Name
import Wireframe.Proofs.Files.Proper

namespace Wireframe.Export

open Files

/-- Names that lead to something below a directory. -/
structure AreNames (names : List String) : Prop where
  ne_nil : names ≠ []
  names : ∀ name ∈ names, isName name

section Relative

variable {names more deny others : List String} {name base path other : String}

theorem toList_relative (names : List String) :
    (relative names).toList = ['/'].intercalate (names.map String.toList) :=
  String.toList_intercalate

theorem relative_cons_cons (first next : String) (rest : List String) :
    relative (first :: next :: rest) = first ++ "/" ++ relative (next :: rest) :=
  String.intercalate_cons_cons

theorem toList_relative_concat (hnames : names ≠ []) (name : String) :
    (relative (names ++ [name])).toList = (relative names).toList ++ '/' :: name.toList := by
  induction names with
  | nil => exact absurd rfl hnames
  | cons first names ih =>
      cases names with
      | nil => simp [relative, String.intercalate_cons_cons]
      | cons next rest =>
          have hrest := ih (List.cons_ne_nil _ _)
          rw [List.cons_append, List.cons_append, relative_cons_cons, relative_cons_cons,
            String.toList_append, String.toList_append, ← List.cons_append, hrest]
          simp

theorem pieces_relative (h : AreNames names) : pieces (relative names) = names := by
  have hslash : ∀ cs ∈ names.map String.toList, '/' ∉ cs := by
    intro cs hcs
    obtain ⟨name, hname, rfl⟩ := List.mem_map.mp hcs
    exact (isName_iff.mp (h.names name hname)).2.2.2
  have hne : names.map String.toList ≠ [] := by simpa using h.ne_nil
  rw [pieces, toList_relative, ← Text.joinWith_eq_intercalate, Text.fields_joinWith hslash hne,
    List.map_map]
  simp [Function.comp_def]

theorem relative_injective (h : AreNames names) (h' : AreNames more)
    (heq : relative names = relative more) : names = more := by
  rw [← pieces_relative h, heq, pieces_relative h']

/-- A path consists of its pieces. -/
theorem relative_pieces (path : String) : relative (pieces path) = path := by
  rw [← String.toList_inj, toList_relative, pieces, List.map_map]
  have hid : String.toList ∘ String.ofList = id := funext fun cs => String.toList_ofList
  rw [hid, List.map_id, Text.fields_eq_splitOn]
  exact List.intercalate_splitOn '/'

theorem isAbsolute_relative (h : AreNames names) : isAbsolute (relative names) = false := by
  obtain ⟨first, rest, rfl⟩ := List.exists_cons_of_ne_nil h.ne_nil
  have hfirst := h.names first List.mem_cons_self
  cases rest with
  | nil =>
      rw [relative, String.intercalate_singleton]
      exact isAbsolute_of_isName hfirst
  | cons next rest =>
      rw [relative_cons_cons, String.append_assoc, isAbsolute_append (isName_iff.mp hfirst).1]
      exact isAbsolute_of_isName hfirst

theorem filterMap_componentOf? (h : ∀ name ∈ names, isName name) :
    names.filterMap componentOf? = names.map Component.name := by
  induction names with
  | nil => rfl
  | cons name names ih =>
      obtain ⟨hname, hnames⟩ := List.forall_mem_cons.mp h
      rw [List.filterMap_cons, componentOf?_of_isName hname, ih hnames, List.map_cons]

theorem components_relative (h : AreNames names) :
    components (relative names) = names.map Component.name := by
  have habsolute := isAbsolute_relative h
  rw [components, pieces_relative h]
  obtain ⟨first, rest, rfl⟩ := List.exists_cons_of_ne_nil h.ne_nil
  obtain ⟨hfirst, hrest⟩ := List.forall_mem_cons.mp h.names
  simp only [habsolute, Bool.false_eq_true, if_false, (isName_iff.mp hfirst).2.1,
    componentOf?_of_isName hfirst, filterMap_componentOf? hrest, Option.toList_some,
    List.singleton_append, List.map_cons]

/-! ### What is left out -/

/-- A path is left out if it begins with the components of something in the list. -/
theorem isDenied_iff : isDenied path deny = true ↔
    ∃ entry ∈ deny, components (withoutEndSlashes entry) <+: components path := by
  simp only [isDenied, List.any_eq_true, liesUnder, List.isPrefixOf_iff_prefix]

/-- What is below something that is left out is left out. -/
theorem isDenied_of_prefix (h : isDenied path deny = true) (hbelow : components path <+: components other) :
    isDenied other deny = true := by
  obtain ⟨entry, hentry, hpath⟩ := isDenied_iff.mp h
  exact isDenied_iff.mpr ⟨entry, hentry, hpath.trans hbelow⟩

/-- Names of something below what is left out. -/
theorem isDenied_append (h : AreNames names) (hmore : ∀ name ∈ more, isName name)
    (hdenied : isDenied (relative names) deny) : isDenied (relative (names ++ more)) deny := by
  have hall : AreNames (names ++ more) :=
    ⟨List.append_ne_nil_of_left_ne_nil h.ne_nil _, List.forall_mem_append.mpr ⟨h.names, hmore⟩⟩
  refine isDenied_of_prefix hdenied ?_
  rw [components_relative h, components_relative hall, List.map_append]
  exact List.prefix_append _ _

/-- What is left out stays so when there is more in the list. -/
theorem isDenied_of_subset (h : isDenied path deny = true) (hmore : deny ⊆ others) :
    isDenied path others = true := by
  obtain ⟨entry, hentry, hpath⟩ := isDenied_iff.mp h
  exact isDenied_iff.mpr ⟨entry, hmore hentry, hpath⟩

/-! ### Above a file -/

theorem trimEnd_cons {c : Char} {cs : List Char} (hc : c ≠ '/')
    (hpoint : c = '.' → cs.head? ≠ some '/') : trimEnd (c :: cs) = c :: cs := by
  rw [trimEnd.eq_def]
  split <;> simp_all

/-- A path that ends in a name has nothing at its end that means nothing. -/
theorem trimEnd_reverse (hname : isName name) (cs : List Char) :
    trimEnd (name.toList.reverse ++ cs) = name.toList.reverse ++ cs := by
  obtain ⟨hempty, hpoint, -, hslash⟩ := isName_iff.mp hname
  obtain ⟨front, c, hend⟩ :=
    (List.eq_nil_or_concat' name.toList).resolve_left (String.toList_eq_nil_iff.not.mpr hempty)
  rw [hend] at hslash ⊢
  rw [List.mem_append, List.mem_singleton, not_or] at hslash
  rw [List.reverse_append, List.reverse_singleton, List.singleton_append, List.cons_append]
  refine trimEnd_cons (Ne.symm hslash.2) ?_
  rintro rfl hhead
  -- a point in front of which there is nothing would be the whole name
  rcases List.eq_nil_or_concat' front with rfl | ⟨before, d, rfl⟩
  · refine hpoint (String.toList_inj.mp ?_)
    rw [hend]
    rfl
  · rw [List.reverse_append, List.reverse_singleton, List.singleton_append, List.cons_append,
      List.head?_cons] at hhead
    refine hslash.1 ?_
    rw [Option.some.inj hhead]
    exact List.mem_append_right _ (List.mem_singleton_self _)

theorem exists_toList_join (base : String) :
    ∃ front, ∀ path, isAbsolute path = false → (join base path).toList = front ++ path.toList := by
  by_cases hempty : base = ""
  · refine ⟨[], fun path hpath => ?_⟩
    rw [join, hpath, if_neg (by decide), if_pos hempty, List.nil_append]
  · by_cases hlast : base.toList.getLast? = some '/'
    · refine ⟨base.toList, fun path hpath => ?_⟩
      rw [join, hpath, if_neg (by decide), if_neg hempty, if_pos hlast, String.toList_append]
    · refine ⟨base.toList ++ ['/'], fun path hpath => ?_⟩
      rw [join, hpath, if_neg (by decide), if_neg hempty, if_neg hlast, String.toList_append,
        String.toList_append]
      rfl

theorem trimEnd_slash {cs : List Char} (h : cs ≠ []) : trimEnd ('/' :: cs) = trimEnd cs := by
  cases cs with
  | nil => exact absurd rfl h
  | cons c cs => rw [trimEnd]; simp

/-- A path of names ends in the last one. -/
theorem exists_toList_relative (h : AreNames names) :
    ∃ before last, isName last ∧ (relative names).toList = before ++ last.toList := by
  obtain ⟨front, last, rfl⟩ := (List.eq_nil_or_concat' names).resolve_left h.ne_nil
  have hlast := h.names last (List.mem_append_right _ (List.mem_singleton_self last))
  by_cases hfront : front = []
  · exact ⟨[], last, hlast, by simp [hfront, relative]⟩
  · refine ⟨(relative front).toList ++ ['/'], last, hlast, ?_⟩
    rw [toList_relative_concat hfront, List.append_assoc]
    rfl

/-- Above a file whose path is a path of names there is what the names before the last lead to. -/
theorem parent_join (h : AreNames names) (hname : isName name) :
    parent (join base (relative (names ++ [name]))) = join base (relative names) := by
  have hall : AreNames (names ++ [name]) :=
    ⟨List.append_ne_nil_of_left_ne_nil h.ne_nil _,
      List.forall_mem_append.mpr ⟨h.names, List.forall_mem_singleton.mpr hname⟩⟩
  obtain ⟨front, hfront⟩ := exists_toList_join base
  have hpath : (join base (relative (names ++ [name]))).toList =
      (join base (relative names)).toList ++ '/' :: name.toList := by
    rw [hfront _ (isAbsolute_relative hall), hfront _ (isAbsolute_relative h),
      toList_relative_concat h.ne_nil, List.append_assoc]
  obtain ⟨before, last, hlast, hrelative⟩ := exists_toList_relative h
  have hend : (join base (relative names)).toList = front ++ before ++ last.toList := by
    rw [hfront _ (isAbsolute_relative h), hrelative, List.append_assoc]
  have hslash : ∀ c ∈ name.toList.reverse, decide (c ≠ '/') = true := by
    intro c hc
    refine decide_eq_true ?_
    rintro rfl
    exact (isName_iff.mp hname).2.2.2 (List.mem_reverse.mp hc)
  have hreverse : (join base (relative (names ++ [name]))).toList.reverse =
      name.toList.reverse ++ '/' :: (last.toList.reverse ++ (front ++ before).reverse) := by
    rw [hpath, hend]
    simp
  have hne : last.toList.reverse ++ (front ++ before).reverse ≠ [] := by
    simp [(isName_iff.mp hlast).1]
  -- the last name goes first, and then the slash before it
  rw [parent, hreverse, trimEnd_reverse hname, List.dropWhile_append_of_pos hslash,
    List.dropWhile_cons_of_neg (by decide), trimEnd_slash hne, trimEnd_reverse hlast,
    ← List.reverse_append, List.reverse_reverse, ← hend, String.ofList_toList]

end Relative

namespace Item

/-- The names that lead to what is copied. -/
def names : Item → List String
  | .directory names => names
  | .file names => names

/-- The names that lead to a file that is copied. -/
def file? : Item → Option (List String)
  | .directory _ => none
  | .file names => some names

theorem files_cons (item : Item) (items : List Item) :
    (item :: items).filterMap file? = item.file?.toList ++ items.filterMap file? := by
  cases item <;> rfl

end Item

theorem AreNames.append {a b : List String} (ha : AreNames a) (hb : ∀ name ∈ b, isName name) :
    AreNames (a ++ b) :=
  ⟨List.append_ne_nil_of_left_ne_nil ha.ne_nil _, List.forall_mem_append.mpr ⟨ha.names, hb⟩⟩

section Plan

variable {deny above : List String}

theorem areNames_concat {name : String} (habove : ∀ name ∈ above, isName name)
    (hname : isName name) : AreNames (above ++ [name]) where
  ne_nil := List.append_ne_nil_of_right_ne_nil _ (List.cons_ne_nil _ _)
  names := List.forall_mem_append.mpr ⟨habove, List.forall_mem_singleton.mpr hname⟩

mutual

theorem areNames_of_mem_planOf : (tree : Tree) → tree.isProper → ∀ {above : List String},
    AreNames above → ∀ item ∈ planOf deny above tree.shape, AreNames item.names
  | .file _ _ _, _, above, h, item, hitem => by
      rw [Tree.shape, planOf] at hitem
      rwa [List.mem_singleton.mp hitem]
  | .link _ _, _, above, _, item, hitem => by
      rw [Tree.shape, planOf] at hitem
      cases hitem
  | .directory entries _, hproper, above, h, item, hitem => by
      rw [Tree.isProper] at hproper
      rw [Tree.shape, planOf] at hitem
      rcases List.mem_cons.mp hitem with rfl | hitem
      · exact h
      · exact areNames_of_mem_planEntries entries hproper h.names item hitem

theorem areNames_of_mem_planEntries : (entries : List (String × Tree)) → Tree.areProper entries →
    ∀ {above : List String}, (∀ name ∈ above, isName name) →
      ∀ item ∈ planEntries deny above (Tree.shapes entries), AreNames item.names
  | [], _, _, _, item, hitem => by
      rw [Tree.shapes, planEntries] at hitem
      cases hitem
  | (name, tree) :: rest, hproper, above, habove, item, hitem => by
      obtain ⟨hname, -, htree, hrest⟩ := Tree.areProper_cons_iff.mp hproper
      rw [Tree.shapes, planEntries] at hitem
      rcases List.mem_append.mp hitem with hitem | hitem
      · split at hitem
        · cases hitem
        · exact areNames_of_mem_planOf tree htree (areNames_concat habove hname) item hitem
      · exact areNames_of_mem_planEntries rest hrest habove item hitem

end

theorem areNames_of_mem_plan {tree : Tree} (hproper : tree.isProper) :
    ∀ item ∈ plan deny tree.shape, AreNames item.names := by
  cases tree with
  | directory entries modified =>
      rw [Tree.isProper] at hproper
      rw [Tree.shape, plan]
      exact areNames_of_mem_planEntries entries hproper (List.forall_mem_nil _)
  | _ => exact List.forall_mem_nil _

theorem isName_of_mem_files {tree : Tree} (hproper : tree.isProper) {file : List String × Bytes}
    (hfile : file ∈ tree.files) : ∀ name ∈ file.1, isName name := by
  obtain ⟨mode, modified, hat⟩ :=
    Tree.contentsAt?_eq_some_iff.mp ((Tree.mem_files_iff tree hproper).mp hfile)
  exact (Tree.isProper_at? hproper hat).2

/-- The names of the files that are not left out. -/
def kept (deny above : List String) (files : List (List String × Bytes)) : List (List String) :=
  (files.map fun file => above ++ file.1).filter fun names => !isDenied (relative names) deny

theorem kept_append (a b : List (List String × Bytes)) :
    kept deny above (a ++ b) = kept deny above a ++ kept deny above b := by
  simp [kept]

theorem kept_below (name : String) (files : List (List String × Bytes)) :
    kept deny above (files.map fun file => (name :: file.1, file.2)) =
      kept deny (above ++ [name]) files := by
  simp [kept, Function.comp_def]

/-- Nothing below something that is left out is kept. -/
theorem kept_of_isDenied (habove : AreNames above) (hdenied : isDenied (relative above) deny)
    {files : List (List String × Bytes)} (hfiles : ∀ file ∈ files, ∀ name ∈ file.1, isName name) :
    kept deny above files = [] := by
  rw [kept, List.filter_eq_nil_iff]
  intro names hnames
  obtain ⟨file, hfile, rfl⟩ := List.mem_map.mp hnames
  simp [isDenied_append habove (hfiles file hfile) hdenied]

mutual

theorem files_planOf : (tree : Tree) → tree.isProper → ∀ above : List String, AreNames above →
    isDenied (relative above) deny = false →
      (planOf deny above tree.shape).filterMap Item.file? = kept deny above tree.files
  | .file _ _ _, _ => by
      intro above _ hkeep
      simp [Tree.shape, planOf, Tree.files, kept, Item.file?, hkeep]
  | .link _ _, _ => by
      intro above _ _
      simp [Tree.shape, planOf, Tree.files, kept]
  | .directory entries _, hproper => by
      intro above habove _
      rw [Tree.isProper] at hproper
      rw [Tree.shape, planOf, Tree.files, List.filterMap_cons]
      exact files_planEntries entries hproper above habove.names

theorem files_planEntries : (entries : List (String × Tree)) → Tree.areProper entries →
    ∀ above : List String, (∀ name ∈ above, isName name) →
      (planEntries deny above (Tree.shapes entries)).filterMap Item.file? =
        kept deny above (Tree.filesOf entries)
  | [], _ => by
      intro above _
      simp [Tree.shapes, planEntries, Tree.filesOf, kept]
  | (name, tree) :: rest, hproper => by
      intro above habove
      obtain ⟨hname, -, htree, hrest⟩ := Tree.areProper_cons_iff.mp hproper
      have hnames := areNames_concat habove hname
      rw [Tree.shapes, planEntries, Tree.filesOf, List.filterMap_append, kept_append, kept_below,
        files_planEntries rest hrest above habove]
      have hfirst : (if isDenied (relative (above ++ [name])) deny = true then []
          else planOf deny (above ++ [name]) tree.shape).filterMap Item.file? =
            kept deny (above ++ [name]) tree.files := by
        split
        · rename_i hdenied
          rw [kept_of_isDenied hnames hdenied fun _ => isName_of_mem_files htree, List.filterMap_nil]
        · rename_i hkeep
          exact files_planOf tree htree _ hnames (Bool.eq_false_of_not_eq_true hkeep)
      rw [hfirst]

end

/-- The files of the plan are those of the tree that are not left out, each of them once. -/
theorem files_plan {tree : Tree} (hproper : tree.isProper) (hdirectory : tree.isDirectory) :
    (plan deny tree.shape).filterMap Item.file? = kept deny [] tree.files := by
  cases tree with
  | directory entries modified =>
      rw [Tree.isProper] at hproper
      rw [Tree.shape, plan, Tree.files]
      exact files_planEntries entries hproper [] (List.forall_mem_nil _)
  | _ => cases hdirectory

end Plan

/-! ### Directories that are not entered -/

section Seen

variable {deny : List String}

mutual

theorem planOf_seenFrom : (shape : Shape) → ∀ above : List String,
    isDenied (relative above) deny = false →
      planOf deny above (shape.seenFrom (enters deny) above) = planOf deny above shape
  | .file => by
      intro above _
      rw [Shape.seenFrom]
      simp
  | .other => by
      intro above _
      rw [Shape.seenFrom]
      simp
  | .directory entries => by
      intro above hkeep
      have henters : enters deny above = true := by rw [enters, hkeep, Bool.not_false]
      rw [Shape.seenFrom, if_pos henters, planOf, planOf, planEntries_seenEntries entries above]

theorem planEntries_seenEntries : (entries : List (String × Shape)) → ∀ above : List String,
    planEntries deny above (Shape.seenEntries (enters deny) above entries) =
      planEntries deny above entries
  | [] => by
      intro above
      rw [Shape.seenEntries]
  | (name, shape) :: rest => by
      intro above
      rw [Shape.seenEntries, planEntries, planEntries, planEntries_seenEntries rest above]
      congr 1
      -- what is left out is passed over, whatever is seen of it
      split
      · rfl
      · rename_i hkeep
        exact planOf_seenFrom shape _ (Bool.eq_false_of_not_eq_true hkeep)

end

/-- Nothing is lost of what is copied if the directories that are left out are not entered. -/
theorem plan_seen_enters (deny : List String) (shape : Shape) :
    plan deny (shape.seen (enters deny)) = plan deny shape := by
  cases shape with
  | directory entries => exact planEntries_seenEntries entries []
  | _ => rfl

end Seen

end Wireframe.Export
