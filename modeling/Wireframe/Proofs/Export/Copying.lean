/-
Copying a skeleton.

To pass over a directory that is left out is to leave out every file in it, and nothing else: what a
path of the list stands for begins with the components of that path, and so does all that is below it.
A skeleton that is copied to a directory in which there is room for it is there afterwards, each file in
its place, but for the files that are left out.

* `kindAt_of_mem_plan`, `keeps_plan`, `InOrder`, `inOrder_plan` — what is copied, and in which order;
* `IsCopyable`, `Copied` — what can be copied, and a world in which some of it has been;
* `run_copyItem_directory`, `run_copyItem_file`, `run_copyItems`, `run_copySkeleton` — copying;
* `PrunesAsFilters`, `prunesAsFilters` — leaving out directories and leaving out files.
-/
import Wireframe.Proofs.Export.Overlay
import Wireframe.Proofs.Files.Finding
import Wireframe.Proofs.Files.Making

namespace Wireframe.Export

open Files World Tree

/-! ### What is copied -/

/-- What is put where something is copied. -/
def Item.kind : Item → Kind
  | .directory _ => .directory
  | .file _ => .file

section Plan

variable {deny above : List String}

mutual

/-- What is copied of a tree is in the tree. -/
theorem kindAt_of_mem_planOf : (tree : Tree) → tree.isProper → ∀ {above : List String},
    ∀ item ∈ planOf deny above tree.shape,
      ∃ rest, item.names = above ++ rest ∧ tree.kindAt rest = some item.kind
  | .file _ _ _, _, above, item, hitem => by
      rw [Tree.shape, planOf] at hitem
      rw [List.mem_singleton.mp hitem]
      exact ⟨[], (List.append_nil _).symm, rfl⟩
  | .link _ _, _, above, item, hitem => by
      rw [Tree.shape, planOf] at hitem
      cases hitem
  | .directory entries modified, hproper, above, item, hitem => by
      rw [Tree.isProper] at hproper
      rw [Tree.shape, planOf] at hitem
      rcases List.mem_cons.mp hitem with rfl | hitem
      · exact ⟨[], (List.append_nil _).symm, rfl⟩
      · obtain ⟨name, inner, rest, hlookup, hnames, hkind⟩ :=
          kindAt_of_mem_planEntries entries hproper item hitem
        refine ⟨name :: rest, hnames, ?_⟩
        rw [kindAt, at?_directory_cons, hlookup]
        exact hkind

/-- What is copied of some entries is in one of them. -/
theorem kindAt_of_mem_planEntries : (entries : List (String × Tree)) → areProper entries →
    ∀ {above : List String}, ∀ item ∈ planEntries deny above (Tree.shapes entries),
      ∃ name inner rest, entries.lookup name = some inner ∧ item.names = above ++ name :: rest ∧
        inner.kindAt rest = some item.kind
  | [], _, above, item, hitem => by
      rw [Tree.shapes, planEntries] at hitem
      cases hitem
  | (name, tree) :: others, hproper, above, item, hitem => by
      obtain ⟨-, -, htree, hothers⟩ := areProper_cons_iff.mp hproper
      rw [Tree.shapes, planEntries] at hitem
      rcases List.mem_append.mp hitem with hitem | hitem
      · split at hitem
        · cases hitem
        · obtain ⟨rest, hnames, hkind⟩ := kindAt_of_mem_planOf tree htree item hitem
          refine ⟨name, tree, rest, List.lookup_cons_self, ?_, hkind⟩
          rw [hnames, List.append_assoc]
          rfl
      · obtain ⟨other, inner, rest, hlookup, hnames, hkind⟩ :=
          kindAt_of_mem_planEntries others hothers item hitem
        refine ⟨other, inner, rest, ?_, hnames, hkind⟩
        have hmem := List.mem_cons_of_mem (name, tree) ((lookup_eq_some_iff hothers).mp hlookup)
        exact (lookup_eq_some_iff hproper).mpr hmem

end

theorem kindAt_of_mem_plan {tree : Tree} (hproper : tree.isProper) :
    ∀ item ∈ plan deny tree.shape, tree.kindAt item.names = some item.kind := by
  intro item hitem
  cases tree with
  | directory entries modified =>
    rw [Tree.isProper] at hproper
    rw [Tree.shape, plan] at hitem
    obtain ⟨name, inner, rest, hlookup, hnames, hkind⟩ :=
      kindAt_of_mem_planEntries entries hproper item hitem
    rw [hnames, List.nil_append, kindAt, at?_directory_cons, hlookup]
    exact hkind
  | _ => cases hitem

mutual

/-- What is copied is not left out. -/
theorem keeps_planOf : (shape : Shape) → ∀ {above : List String},
    isDenied (relative above) deny = false → ∀ item ∈ planOf deny above shape,
      isDenied (relative item.names) deny = false
  | .file => by
      intro habove item hitem
      rw [planOf] at hitem
      rwa [List.mem_singleton.mp hitem]
  | .directory entries => by
      intro habove item hitem
      rw [planOf] at hitem
      rcases List.mem_cons.mp hitem with rfl | hitem
      · exact habove
      · exact keeps_planEntries entries item hitem
  | .other => by
      intro _ item hitem
      rw [planOf] at hitem
      cases hitem

theorem keeps_planEntries : (entries : List (String × Shape)) → ∀ {above : List String},
    ∀ item ∈ planEntries deny above entries, isDenied (relative item.names) deny = false
  | [] => by
      intro item hitem
      rw [planEntries] at hitem
      cases hitem
  | (name, shape) :: rest => by
      intro item hitem
      rw [planEntries] at hitem
      rcases List.mem_append.mp hitem with hitem | hitem
      · split at hitem
        · cases hitem
        · rename_i hkeep
          exact keeps_planOf shape (Bool.eq_false_of_not_eq_true hkeep) item hitem
      · exact keeps_planEntries rest item hitem

end

theorem keeps_plan (shape : Shape) :
    ∀ item ∈ plan deny shape, isDenied (relative item.names) deny = false := by
  cases shape with
  | directory entries => exact keeps_planEntries entries
  | _ => exact List.forall_mem_nil _

/-- Things to copy in an order in which every directory comes before what is in it, some directories
being there at the beginning. -/
inductive InOrder : (made : List (List String)) → List Item → Prop
  | nil (made : List (List String)) : InOrder made []
  | directory {made : List (List String)} {front : List String} {name : String} {items : List Item}
      (hfront : front ∈ made) (h : InOrder ((front ++ [name]) :: made) items) :
      InOrder made (.directory (front ++ [name]) :: items)
  | file {made : List (List String)} {front : List String} {name : String} {items : List Item}
      (hfront : front ∈ made) (h : InOrder made items) :
      InOrder made (.file (front ++ [name]) :: items)

theorem InOrder.mono {made more : List (List String)} {items : List Item} (h : InOrder made items)
    (hmore : made ⊆ more) : InOrder more items := by
  induction h generalizing more with
  | nil => exact .nil more
  | directory hfront _ ih => exact .directory (hmore hfront) (ih (List.cons_subset_cons _ hmore))
  | file hfront _ ih => exact .file (hmore hfront) (ih hmore)

theorem InOrder.append {made : List (List String)} {items others : List Item}
    (h : InOrder made items) (hothers : InOrder made others) : InOrder made (items ++ others) := by
  induction h with
  | nil => exact hothers
  | directory hfront _ ih =>
    exact .directory hfront (ih (hothers.mono (List.subset_cons_self _ _)))
  | file hfront _ ih => exact .file hfront (ih hothers)

mutual

theorem inOrder_planOf : (shape : Shape) → ∀ {made : List (List String)} {front : List String}
    {name : String}, front ∈ made → InOrder made (planOf deny (front ++ [name]) shape)
  | .file, made, front, name, hfront => by
      rw [planOf]
      exact .file hfront (.nil made)
  | .directory entries, made, front, name, hfront => by
      rw [planOf]
      exact .directory hfront (inOrder_planEntries entries List.mem_cons_self)
  | .other, made, front, name, _ => by
      rw [planOf]
      exact .nil made

theorem inOrder_planEntries : (entries : List (String × Shape)) → ∀ {made : List (List String)}
    {above : List String}, above ∈ made → InOrder made (planEntries deny above entries)
  | [], made, above, _ => by
      rw [planEntries]
      exact .nil made
  | (name, shape) :: rest, made, above, habove => by
      rw [planEntries]
      refine .append ?_ (inOrder_planEntries rest habove)
      split
      · exact .nil made
      · exact inOrder_planOf shape habove

end

theorem inOrder_plan (shape : Shape) : InOrder [[]] (plan deny shape) := by
  cases shape with
  | directory entries => exact inOrder_planEntries entries (List.mem_singleton_self [])
  | _ => exact .nil _

end Plan

/-! ### A skeleton that is copied -/

/-- Something can be copied to a directory at the place `hold`: the system takes its paths, and there is
nothing else where it is to be put. -/
structure HasRoom (source target : String) (hold : List String) (before : World) (item : Item) :
    Prop where
  fromPath : allowed (join source (relative item.names)) = .ok ()
  toPath : allowed (join target (relative item.names)) = .ok ()
  room : before.tree.kindAt (hold ++ item.names) = none ∨
    before.tree.kindAt (hold ++ item.names) = some item.kind

/-- It is a part of a skeleton. -/
structure IsCopyable (source target : String) (hold : List String) (skeleton : Tree) (before : World)
    (item : Item) : Prop extends HasRoom source target hold before item where
  names : AreNames item.names
  kind : skeleton.kindAt item.names = some item.kind

/-- A skeleton at a place `origin`, and a directory at another, `hold`, with room for what is copied. -/
structure CanCopy (source target : String) (deny origin hold : List String) (skeleton : Tree)
    (before : World) : Prop where
  proper : before.tree.isProper
  allowed : allowed source = .ok ()
  reachesSource : before.Reaches source origin
  isSkeleton : before.tree.at? origin = some skeleton
  reachesTarget : before.Reaches target hold
  apart : Apart hold origin
  room : ∀ item ∈ plan deny skeleton.shape, HasRoom source target hold before item

theorem CanCopy.isCopyable {source target : String} {deny origin hold : List String} {skeleton : Tree}
    {before : World} (h : CanCopy source target deny origin hold skeleton before) :
    ∀ item ∈ plan deny skeleton.shape, IsCopyable source target hold skeleton before item := by
  intro item hitem
  have hproper : skeleton.isProper := (isProper_at? h.proper h.isSkeleton).1
  exact { h.room item hitem with
    names := areNames_of_mem_plan hproper item hitem
    kind := kindAt_of_mem_plan hproper item hitem }

theorem CanCopy.isDirectory {source target : String} {deny origin hold : List String} {skeleton : Tree}
    {before : World} (h : CanCopy source target deny origin hold skeleton before) :
    skeleton.isDirectory := by
  have hany := kindAt_eq_directory_iff.mp h.reachesSource.directory
  rwa [h.isSkeleton] at hany

/-- Some parts of a skeleton have been copied to a directory at the place `hold`. -/
structure Copied (hold : List String) (skeleton : Tree) (before : World) (done : List Item)
    (world : World) : Prop where
  same : world = { before with tree := world.tree }
  within : Within before.tree world.tree
  made : ∀ item ∈ done, world.tree.kindAt (hold ++ item.names) = skeleton.kindAt item.names
  kinds : ∀ q, (∀ item ∈ done, q ≠ hold ++ item.names) →
    world.tree.kindAt q = before.tree.kindAt q
  contents : ∀ names, world.tree.contentsAt? (hold ++ names) =
    copiedTo (fun names => before.tree.contentsAt? (hold ++ names)) skeleton.contentsAt?
      (done.filterMap Item.file?) names
  elsewhere : ∀ q, ¬ hold <+: q → world.tree.contentsAt? q = before.tree.contentsAt? q

namespace Copied

variable {source target : String} {hold origin names : List String} {skeleton : Tree}
  {before world after : World} {done : List Item} {item : Item} {contents : Bytes}

theorem refl (hold : List String) (skeleton : Tree) (world : World) :
    Copied hold skeleton world [] world where
  same := rfl
  within := .refl _
  made := fun _ hitem => nomatch hitem
  kinds := fun _ _ => rfl
  contents := by
    intro names
    rw [List.filterMap_nil, copiedTo_nil]
  elsewhere := fun _ _ => rfl

theorem here_eq (h : Copied hold skeleton before done world) : world.here = before.here := by
  rw [h.same]

/-- There is still room for what can be copied. -/
theorem room (h : Copied hold skeleton before done world)
    (hitem : IsCopyable source target hold skeleton before item) :
    world.tree.kindAt (hold ++ item.names) = none ∨
      world.tree.kindAt (hold ++ item.names) = some item.kind := by
  -- what has been copied there before is of the kind that the skeleton has there
  by_cases hdone : ∃ other ∈ done, hold ++ item.names = hold ++ other.names
  · obtain ⟨other, hother, heq⟩ := hdone
    have hnames := List.append_cancel_left heq
    refine .inr ?_
    rw [heq, h.made other hother, ← hnames, hitem.kind]
  · rw [h.kinds _ fun other hother heq => hdone ⟨other, hother, heq⟩]
    exact hitem.room

/-- One thing more that has been copied, if nothing else has changed. -/
theorem concat (h : Copied hold skeleton before done world)
    (hsame : after = { world with tree := after.tree }) (hwithin : Within world.tree after.tree)
    (hmade : after.tree.kindAt (hold ++ item.names) = skeleton.kindAt item.names)
    (hkinds : ∀ q, q ≠ hold ++ item.names → after.tree.kindAt q = world.tree.kindAt q)
    (hcontents : ∀ names, after.tree.contentsAt? (hold ++ names) =
      copiedTo (fun names => world.tree.contentsAt? (hold ++ names)) skeleton.contentsAt?
        item.file?.toList names)
    (helsewhere : ∀ q, ¬ hold <+: q → after.tree.contentsAt? q = world.tree.contentsAt? q) :
    Copied hold skeleton before (done ++ [item]) after where
  same := by
    rw [hsame, h.same]
  within := h.within.trans hwithin
  -- Each field holds of the items before and of the one that is new.
  made := by
    intro other hother
    rcases List.mem_append.mp hother with hother | hother
    · by_cases heq : hold ++ other.names = hold ++ item.names
      · rw [List.append_cancel_left heq]
        exact hmade
      · rw [hkinds _ heq, h.made other hother]
    · rw [List.mem_singleton.mp hother]
      exact hmade
  kinds := by
    intro q hq
    obtain ⟨hdone, hitem⟩ := List.forall_mem_append.mp hq
    rw [hkinds q (hitem item (List.mem_singleton_self item)), h.kinds q hdone]
  contents := by
    intro names
    rw [hcontents, List.filterMap_append, Item.files_cons, List.filterMap_nil, List.append_nil,
      copiedTo_append, funext h.contents]
  elsewhere := fun q hq => (helsewhere q hq).trans (h.elsewhere q hq)

/-- One directory more. -/
theorem adds (h : Copied hold skeleton before done world)
    (hadds : Adds world (hold ++ names) after) (hkind : skeleton.kindAt names = some .directory) :
    Copied hold skeleton before (done ++ [.directory names]) after := by
  refine h.concat (change_eq_ok_iff.mp hadds.change).2 hadds.within ?_
    (fun q hq => hadds.kindAt_of_ne hq) (fun others => ?_) fun q _ => hadds.contentsAt?_eq q
  · exact hadds.kindAt_self.trans hkind.symm
  · rw [Item.file?, Option.toList_none, copiedTo_nil]
    exact hadds.contentsAt?_eq _

/-- A directory that is there already. -/
theorem stays (h : Copied hold skeleton before done world)
    (hthere : world.tree.kindAt (hold ++ names) = some .directory)
    (hkind : skeleton.kindAt names = some .directory) :
    Copied hold skeleton before (done ++ [.directory names]) world := by
  refine h.concat rfl (.refl _) (hthere.trans hkind.symm) (fun _ _ => rfl) (fun others => ?_)
    fun _ _ => rfl
  rw [Item.file?, Option.toList_none, copiedTo_nil]

/-- One file more, or another in its place. -/
theorem puts (h : Copied hold skeleton before done world)
    (hputs : Puts world (hold ++ names) contents after)
    (hcontents : skeleton.contentsAt? names = some contents) :
    Copied hold skeleton before (done ++ [.file names]) after := by
  obtain ⟨mode, hchange⟩ := hputs.change
  have hself := hputs.contentsAt?_self
  refine h.concat (change_eq_ok_iff.mp hchange).2 hputs.within ?_
    (fun q hq => hputs.kindAt_of_ne hq) (fun others => ?_) fun q hq => ?_
  · exact (kindAt_of_contentsAt? hself).trans (kindAt_of_contentsAt? hcontents).symm
  · rw [Item.file?, Option.toList_some, copiedTo_singleton, hcontents]
    by_cases hothers : others = names
    · rw [hothers, hself, Function.update_self]
    · rw [Function.update_of_ne hothers]
      exact hputs.contentsAt?_of_ne fun heq => hothers (List.append_cancel_left heq)
  · exact hputs.contentsAt?_of_ne fun heq => hq (heq ▸ List.prefix_append hold names)

end Copied

/-! ### Copying -/

section Copying

variable {source target : String} {hold origin names : List String} {skeleton : Tree}
  {before world : World} {done : List Item}

/-- A path of names below a directory. -/
theorem pieces_join_relative (base : String) (h : AreNames names) :
    pieces (join base (relative names)) = below base ++ names := by
  rw [pieces_join (isAbsolute_relative h), pieces_relative h]

theorem startOf_join_relative (world : World) (base : String) (h : AreNames names) :
    world.startOf (join base (relative names)) = world.startOf base := by
  rw [startOf, startOf, isAbsolute_join (isAbsolute_relative h)]

theorem notMem_of_areNames (h : AreNames names) : ∀ name ∈ names, name ∉ ["", ".", ".."] :=
  fun name hname => notMem_of_isName (h.names name hname)

/-- Names of directories below a path lead to the last one. -/
theorem leads_below {base : String} {place front : List String} (h : world.Reaches base place)
    (hfront : ∀ name ∈ front, name ∉ ["", ".", ".."])
    (hdirectory : world.tree.kindAt (place ++ front) = some .directory) :
    ∃ left, Leads world.tree linkLimit (world.startOf base) (below base ++ front) left
      (place ++ front) := by
  obtain ⟨left, hleads⟩ := h.leads
  exact ⟨left, hleads.append (leads_names hfront hdirectory)⟩

/-- A directory is made in one that is there, unless it is there itself. -/
theorem makeDirectory_below {base name : String} {place front : List String}
    (hreaches : world.Reaches base place) (hnames : AreNames (front ++ [name]))
    (hallowed : allowed (join base (relative (front ++ [name]))) = .ok ())
    (hfront : world.tree.kindAt (place ++ front) = some .directory)
    (hroom : world.tree.kindAt (place ++ (front ++ [name])) = none ∨
      world.tree.kindAt (place ++ (front ++ [name])) = some .directory) :
    ∃ after, world.makeDirectory (join base (relative (front ++ [name]))) = (.ok (), after) ∧
      (Adds world (place ++ (front ++ [name])) after ∨ after = world ∧
        world.tree.kindAt (place ++ (front ++ [name])) = some .directory) := by
  -- The path is allowed, so that each of its names is one and short enough.
  obtain ⟨hfronts, hname⟩ := List.forall_mem_append.mp (notMem_of_areNames hnames)
  have hlookable : lookable (join base (relative (front ++ [name]))) = .ok () := by
    obtain ⟨⟨⟩, hlookable, -⟩ := bind_eq_ok.mp hallowed
    exact hlookable
  have hpieces := pieces_join_relative base hnames
  have hshort := isShort_of_allowed hallowed
  rw [hpieces, ← List.append_assoc, List.forall_mem_append] at hshort
  obtain ⟨left, hleads⟩ := leads_below hreaches hfronts hfront
  -- All directories of the front are there, so only the last name can be made.
  have hmake : world.makeDirectory (join base (relative (front ++ [name]))) =
      world.makeAlong (world.startOf base) (below base ++ front) [name] := by
    rw [makeDirectory_eq (ne_empty_of_allowed hallowed), hlookable, hpieces, ← List.append_assoc,
      startOf_join_relative world base hnames]
    exact makeAlong_skip hleads hfront hshort.1 [name]
  have hlast (after : World)
      (hat : world.makeAt (world.startOf base) (below base ++ front ++ [name]) = .ok after) :
      world.makeDirectory (join base (relative (front ++ [name]))) = (.ok (), after) := by
    rw [hmake, makeAlong, hshort.2 name (List.mem_singleton_self name), hat]
    rfl
  -- It is free and made, or a directory is there and left.
  rcases hroom with hfree | hthere
  · rw [← List.append_assoc] at hfree ⊢
    obtain ⟨after, hat, hadds⟩ := makeAt_of_free hleads (hname name (List.mem_singleton_self name))
      hfront hfree
    exact ⟨after, hlast after hat, .inl hadds⟩
  · rw [← List.append_assoc] at hthere ⊢
    have hmore := hleads.append (.enter (hname name (List.mem_singleton_self name)) hthere (.done _ _))
    exact ⟨world, hlast world (makeAt_of_leads hmore hthere
      (List.append_ne_nil_of_right_ne_nil _ (List.cons_ne_nil _ _))), .inr ⟨rfl, hthere⟩⟩

/-- A file in the skeleton is where it was. -/
theorem CanCopy.locate?_source {deny : List String}
    (hcan : CanCopy source target deny origin hold skeleton before)
    (h : Copied hold skeleton before done world) (hnames : AreNames names) {contents : Bytes}
    (hcontents : skeleton.contentsAt? names = some contents) :
    world.locate? true (join source (relative names)) = some (origin ++ names) ∧
      world.tree.contentsAt? (origin ++ names) = some contents := by
  have hbefore : before.tree.contentsAt? (origin ++ names) = some contents := by
    rw [contentsAt?, at?_append, hcan.isSkeleton]
    exact hcontents
  -- it is not below the directory that is written to
  have hnot : ¬ hold <+: origin ++ names := by
    intro hbelow
    rcases prefix_append_cases hbelow with habove | ⟨rest, -, -, heq⟩
    · exact hcan.apart.not_below habove
    · exact hcan.apart.not_above (heq ▸ List.prefix_append origin rest)
  have hworld := (h.elsewhere _ hnot).trans hbefore
  obtain ⟨left, hleads⟩ := (hcan.reachesSource.mono h.here_eq h.within).leads
  refine ⟨(locate?_join_iff (isAbsolute_relative hnames)).mpr ⟨left, origin, hleads, ?_⟩, hworld⟩
  rw [pieces_relative hnames]
  exact walk_to_file hnames.ne_nil (notMem_of_areNames hnames) (kindAt_of_contentsAt? hworld)

/-- A name in a directory below a path leads to what has the name, if that is no link. -/
theorem locate?_below {base name : String} {place front : List String}
    (hreaches : world.Reaches base place) (hnames : AreNames (front ++ [name]))
    (hfront : world.tree.kindAt (place ++ front) = some .directory)
    (hlink : ∀ path, world.tree.kindAt (place ++ front ++ [name]) ≠ some (.link path)) :
    world.locate? true (join base (relative (front ++ [name]))) =
      some (place ++ front ++ [name]) := by
  obtain ⟨hfronts, hname⟩ := List.forall_mem_append.mp (notMem_of_areNames hnames)
  obtain ⟨left, hleads⟩ := leads_below hreaches hfronts hfront
  rw [locate?_eq, startOf_join_relative world base hnames, pieces_join_relative base hnames,
    ← List.append_assoc, hleads.walk_append (.inr rfl),
    walk_names hfront (List.cons_ne_nil _ _) hname, List.dropLast_singleton, List.append_nil,
    if_pos hfront]
  intro others hne hbegins path
  obtain ⟨rest, hrest⟩ := hbegins
  obtain ⟨rfl, -⟩ := (List.append_eq_singleton_iff.mp hrest).resolve_left fun hnil => hne hnil.1
  exact hlink path

/-- A directory is copied. -/
theorem run_copyItem_directory {deny front : List String} {name : String}
    (hcan : CanCopy source target deny origin hold skeleton before)
    (h : Copied hold skeleton before done world)
    (hitem : IsCopyable source target hold skeleton before (.directory (front ++ [name])))
    (hfront : world.tree.kindAt (hold ++ front) = some .directory) :
    ∃ after, world.run (copyItem source target (.directory (front ++ [name]))).run = (.ok 0, after) ∧
      Within world.tree after.tree ∧
      Copied hold skeleton before (done ++ [.directory (front ++ [name])]) after := by
  have htarget := hcan.reachesTarget.mono h.here_eq h.within
  obtain ⟨after, hmake, hafter⟩ :=
    makeDirectory_below htarget hitem.names hitem.toPath hfront (h.room hitem)
  have hrequest : world.run (Script.request
      (.makeDirectory (join target (relative (front ++ [name]))))) = (.ok (), after) := hmake
  refine ⟨after, run_bind_of_ok (run_attempt_of_ok hrequest), ?_⟩
  rcases hafter with hadds | ⟨rfl, hthere⟩
  · exact ⟨hadds.within, h.adds hadds hitem.kind⟩
  · exact ⟨.refl _, h.stays hthere hitem.kind⟩

/-- A file is copied. -/
theorem run_copyItem_file {deny front : List String} {name : String}
    (hcan : CanCopy source target deny origin hold skeleton before)
    (h : Copied hold skeleton before done world)
    (hitem : IsCopyable source target hold skeleton before (.file (front ++ [name])))
    (hfront : world.tree.kindAt (hold ++ front) = some .directory) :
    ∃ after, world.run (copyItem source target (.file (front ++ [name]))).run = (.ok 1, after) ∧
      Within world.tree after.tree ∧
      Copied hold skeleton before (done ++ [.file (front ++ [name])]) after := by
  have htarget := hcan.reachesTarget.mono h.here_eq h.within
  -- The file of the skeleton is where the path to it leads, in the world as it is by now.
  obtain ⟨contents, mode, modified, hat⟩ := kindAt_eq_file_iff.mp hitem.kind
  have hcontents : skeleton.contentsAt? (front ++ [name]) = some contents :=
    contentsAt?_eq_some_iff.mpr ⟨mode, modified, hat⟩
  obtain ⟨hfrom, hheld⟩ := hcan.locate?_source h hitem.names hcontents
  have hfree : world.tree.kindAt (hold ++ front ++ [name]) = none ∨
      world.tree.kindAt (hold ++ front ++ [name]) = some .file := by
    rw [List.append_assoc]
    exact h.room hitem
  -- The path to the copy ends at no link, as nothing but a file can be there.
  have hto := locate?_below htarget hitem.names hfront fun path hlink => by
    rcases hfree with hnone | hfile
    · rw [hnone] at hlink
      cases hlink
    · rw [hfile] at hlink
      cases hlink
  obtain ⟨after, hcopy, hputs⟩ : ∃ after, world.copyFile (join source (relative (front ++ [name])))
      (join target (relative (front ++ [name]))) = .ok after ∧
        Puts world (hold ++ front ++ [name]) contents after :=
    exists_copyFile hitem.fromPath hitem.toPath hfrom hheld hto hfront hfree
  have hrequest : world.run (Script.request (.copy (join source (relative (front ++ [name])))
      (join target (relative (front ++ [name]))))) = (.ok (), after) := by
    have hsettle : world.run (Script.request (.copy (join source (relative (front ++ [name])))
        (join target (relative (front ++ [name]))))) = world.settle _ := rfl
    rw [hsettle, hcopy]
    rfl
  rw [List.append_assoc] at hputs
  exact ⟨after, run_bind_of_ok (run_attempt_of_ok hrequest), hputs.within, h.puts hputs hcontents⟩

theorem run_copyItems_cons {item : Item} {items : List Item} {first after : World} {count others : Nat}
    (hfirst : world.run (copyItem source target item).run = (.ok count, first))
    (hrest : first.run (copyItems source target items).run = (.ok others, after)) :
    world.run (copyItems source target (item :: items)).run = (.ok (count + others), after) := by
  have hitem : world.run (copyItems source target (item :: items)).run = _ := run_bind_of_ok hfirst
  rw [hitem]
  exact run_bind_of_ok hrest

/-- Things are copied one after the other, the directories before what is in them. -/
theorem run_copyItems {deny : List String} {made : List (List String)} {items : List Item}
    (hcan : CanCopy source target deny origin hold skeleton before) (horder : InOrder made items)
    (h : Copied hold skeleton before done world)
    (hmade : ∀ names ∈ made, world.tree.kindAt (hold ++ names) = some .directory)
    (hitems : ∀ item ∈ items, IsCopyable source target hold skeleton before item) :
    ∃ after, world.run (copyItems source target items).run =
        (.ok (items.filterMap Item.file?).length, after) ∧
      Copied hold skeleton before (done ++ items) after := by
  -- directories that have been made stay, so all that is in them can be put there
  induction horder generalizing world done with
  | nil =>
    refine ⟨world, rfl, ?_⟩
    rwa [List.append_nil]
  | @directory made front name items hfront _ ih =>
    obtain ⟨hitem, hrest⟩ := List.forall_mem_cons.mp hitems
    obtain ⟨first, hrun, hwithin, hfirst⟩ := run_copyItem_directory hcan h hitem (hmade front hfront)
    have hmades : ∀ names ∈ (front ++ [name]) :: made,
        first.tree.kindAt (hold ++ names) = some .directory := by
      refine List.forall_mem_cons.mpr ⟨?_, fun names hnames => hwithin _ _ (hmade names hnames)⟩
      exact (hfirst.made _ (List.mem_append_right _ (List.mem_singleton_self _))).trans hitem.kind
    obtain ⟨after, hlast, hafter⟩ := ih hfirst hmades hrest
    rw [Item.files_cons, List.length_append, List.append_cons done]
    exact ⟨after, run_copyItems_cons hrun hlast, hafter⟩
  | @file made front name items hfront _ ih =>
    obtain ⟨hitem, hrest⟩ := List.forall_mem_cons.mp hitems
    obtain ⟨first, hrun, hwithin, hfirst⟩ := run_copyItem_file hcan h hitem (hmade front hfront)
    obtain ⟨after, hlast, hafter⟩ := ih hfirst
      (fun names hnames => hwithin _ _ (hmade names hnames)) hrest
    rw [Item.files_cons, List.length_append, List.append_cons done]
    exact ⟨after, run_copyItems_cons hrun hlast, hafter⟩

/-- A skeleton is copied as it was found. -/
theorem run_copySkeleton {deny : List String}
    (hcan : CanCopy source target deny origin hold skeleton before) :
    ∃ after, before.run (copySkeleton source target deny).run =
        (.ok (kept deny [] skeleton.files).length, after) ∧
      Copied hold skeleton before (plan deny skeleton.shape) after := by
  -- The survey of a directory that is there is that of its tree.
  have hsurvey : before.survey source (enters deny) = .ok (skeleton.shape.seen (enters deny)) := by
    obtain ⟨hlocate, -⟩ := (reaches_iff (ne_empty_of_allowed hcan.allowed)).mp hcan.reachesSource
    exact bind_eq_ok.mpr
      ⟨_, find_eq_ok_iff.mpr ⟨hcan.allowed, hlocate, hcan.isSkeleton.symm⟩, rfl⟩
  have hrequest : before.run (Script.request (.survey source (enters deny))) =
      (.ok (skeleton.shape.seen (enters deny)), before) := by
    rw [← hsurvey]
    rfl
  have hhold : ∀ names ∈ [[]], before.tree.kindAt (hold ++ names) = some .directory := by
    rw [List.forall_mem_singleton, List.append_nil]
    exact hcan.reachesTarget.directory
  -- All items of the plan are copied, each after the directory that it is in.
  obtain ⟨after, hrun, hafter⟩ := run_copyItems hcan (inOrder_plan skeleton.shape)
    (.refl hold skeleton before) hhold hcan.isCopyable
  have hproper : skeleton.isProper := (isProper_at? hcan.proper hcan.isSkeleton).1
  rw [files_plan hproper hcan.isDirectory] at hrun
  refine ⟨after, ?_, hafter⟩
  have hcopy : before.run (copySkeleton source target deny).run = _ :=
    run_bind_of_ok (run_attempt_of_ok hrequest)
  rw [hcopy, plan_seen_enters, hrun]

theorem isStrict_copyItem (source target : String) (item : Item) :
    IsStrict (copyItem source target item) := by
  cases item with
  | directory names =>
    refine .bind (isStrict_attempt _ fun world reply after h => ?_) fun _ => isStrict_pure 0
    exact ((runs_request_iff.mp h).granted Bool.false_ne_true).symm
  | file names =>
    refine .bind (isStrict_attempt _ fun world reply after h => ?_) fun _ => isStrict_pure 1
    exact ((runs_request_iff.mp h).granted Bool.false_ne_true).symm

theorem isStrict_copyItems (source target : String) (items : List Item) :
    IsStrict (copyItems source target items) := by
  induction items with
  | nil => exact isStrict_pure 0
  | cons item items ih =>
    exact .bind (isStrict_copyItem source target item) fun _ => .bind ih fun _ => isStrict_pure _

/-- If the system refuses something, there is no number of files. -/
theorem isStrict_copySkeleton (source target : String) (deny : List String) :
    IsStrict (copySkeleton source target deny) := by
  refine .bind (isStrict_attempt _ fun world reply after h => ?_) fun _ => isStrict_copyItems _ _ _
  exact ((runs_request_iff.mp h).granted Bool.false_ne_true).symm

end Copying

/-! ### Leaving out directories and leaving out files -/

/-- A file of a skeleton that is not left out; no link is followed on the way to it. -/
structure IsKept (deny : List String) (skeleton : Tree) (names : List String) : Prop where
  file : ∃ contents, skeleton.contentsAt? names = some contents
  notDenied : isDenied (relative names) deny = false

/-- The files of a skeleton that are not left out are in the directory at the place `hold`, each where it
was in the skeleton, and no other file is different, neither there nor elsewhere. -/
structure Copies (deny hold : List String) (skeleton : Tree) (before after : World) : Prop where
  same : after = { before with tree := after.tree }
  files : ∀ names, IsKept deny skeleton names →
    after.tree.contentsAt? (hold ++ names) = skeleton.contentsAt? names
  others : ∀ q, (∀ names, IsKept deny skeleton names → q ≠ hold ++ names) →
    after.tree.contentsAt? q = before.tree.contentsAt? q
  denied : ∀ names, isDenied (relative names) deny →
    after.tree.kindAt (hold ++ names) = before.tree.kindAt (hold ++ names)
  elsewhere : ∀ q, ¬ hold <+: q → after.tree.kindAt q = before.tree.kindAt q

/-- To pass over what is left out comes to the same as to look at each file of a skeleton. -/
structure PrunesAsFilters (deny : List String) : Prop where
  /-- Something is left out if its path begins with the components of an entry of the list. -/
  denied : ∀ path, isDenied path deny ↔
    ∃ entry ∈ deny, components (withoutEndSlashes entry) <+: components path
  below : ∀ path other, isDenied path deny → components path <+: components other →
    isDenied other deny
  more : ∀ path others, isDenied path deny → deny ⊆ others → isDenied path others
  /-- The files on the way are those of the skeleton of which the paths are not left out. -/
  walk : ∀ skeleton : Tree, skeleton.isProper → skeleton.isDirectory →
    (plan deny skeleton.shape).filterMap Item.file? =
      (skeleton.files.map Prod.fst).filter fun names => !isDenied (relative names) deny
  /-- Where there is room for what is copied, it can be copied. -/
  succeeds : ∀ source target origin hold skeleton before,
    CanCopy source target deny origin hold skeleton before →
    ∃ count after, before.run (copySkeleton source target deny).run = (.ok count, after)
  /-- What has been copied are the files that are not left out, and they are counted. -/
  copied : ∀ source target origin hold skeleton before count after,
    CanCopy source target deny origin hold skeleton before →
    Runs (copySkeleton source target deny).run before (.ok count) after →
    count = {names | IsKept deny skeleton names}.ncard ∧ Copies deny hold skeleton before after

section Pruning

variable {deny origin hold names : List String} {source target : String} {skeleton : Tree}
  {before after : World}

theorem isKept_iff (hproper : skeleton.isProper) :
    IsKept deny skeleton names ↔ names ∈ kept deny [] skeleton.files := by
  rw [mem_kept_iff hproper]
  exact ⟨fun h => ⟨h.file, h.notDenied⟩, fun h => ⟨h.1, h.2⟩⟩

theorem ncard_isKept (hproper : skeleton.isProper) :
    {names | IsKept deny skeleton names}.ncard = (kept deny [] skeleton.files).length := by
  simp only [isKept_iff hproper]
  exact ncard_setOf_mem (nodup_kept hproper)

/-- All of a skeleton that is not left out has been copied. -/
theorem Copied.copies (hproper : skeleton.isProper) (hdirectory : skeleton.isDirectory)
    (h : Copied hold skeleton before (plan deny skeleton.shape) after) :
    Copies deny hold skeleton before after := by
  have hcontents := h.contents
  rw [files_plan hproper hdirectory] at hcontents
  refine ⟨h.same, fun names hkept => ?_, fun q hq => ?_, fun names hdenied => ?_, fun q hq => ?_⟩
  · rw [hcontents, copiedTo, if_pos ((isKept_iff hproper).mp hkept)]
  · by_cases hbelow : hold <+: q
    · obtain ⟨names, rfl⟩ := hbelow
      have hnot : names ∉ kept deny [] skeleton.files := fun hmem =>
        hq names ((isKept_iff hproper).mpr hmem) rfl
      rw [hcontents, copiedTo, if_neg hnot]
    · exact h.elsewhere q hbelow
  · refine h.kinds _ fun item hitem heq => ?_
    rw [List.append_cancel_left heq, keeps_plan _ item hitem] at hdenied
    cases hdenied
  · exact h.kinds q fun item _ heq => hq (heq ▸ List.prefix_append hold item.names)

theorem copies_of_runs {count : Nat} (hcan : CanCopy source target deny origin hold skeleton before)
    (hrun : Runs (copySkeleton source target deny).run before (.ok count) after) :
    count = {names | IsKept deny skeleton names}.ncard ∧ Copies deny hold skeleton before after := by
  obtain ⟨last, hlast, hcopied⟩ := run_copySkeleton hcan
  obtain ⟨hcount, rfl⟩ := Prod.mk.inj ((isStrict_copySkeleton _ _ _ hrun).symm.trans hlast)
  have hproper : skeleton.isProper := (isProper_at? hcan.proper hcan.isSkeleton).1
  rw [ncard_isKept hproper]
  exact ⟨Except.ok.inj hcount, hcopied.copies hproper hcan.isDirectory⟩

/-- To leave out directories is to leave out files. -/
theorem prunesAsFilters (deny : List String) : PrunesAsFilters deny where
  denied := fun _ => isDenied_iff
  below := fun _ _ => isDenied_of_prefix
  more := fun _ _ => isDenied_of_subset
  walk := by
    intro skeleton hproper hdirectory
    rw [files_plan hproper hdirectory]
    rfl
  succeeds := by
    intro source target origin hold skeleton before hcan
    obtain ⟨after, hrun, -⟩ := run_copySkeleton hcan
    exact ⟨_, after, hrun⟩
  copied := fun _ _ _ _ _ _ _ _ hcan => copies_of_runs hcan

/-- A skeleton with directories that are left out, at its root and below, a link, and files and
directories that have or begin with a name in the list but are not left out. -/
def layeredSkeleton : Tree :=
  .directory [
    ("android", .directory [
      (".gradle", .directory [("caches.bin", .file [0] plainMode 0)] 0),
      ("app", .directory [("build.gradle", .file [97] plainMode 0)] 0)] 0),
    ("build", .directory [("app.apk", .file [80, 75] plainMode 0)] 0),
    ("builder.yaml", .file [98] plainMode 0),
    ("latest", .link "lib/main.dart" 0),
    ("lib", .directory [
      ("build", .directory [("widget.dart", .file [119] plainMode 0)] 0),
      ("main.dart", .file [109] plainMode 0)] 0)] 0

/-- The skeleton, and a directory in which there is already something. -/
def copyingDesk : World where
  tree := .directory [
    ("out", .directory [("lib", .directory [("main.dart", .file [] plainMode 0)] 0),
      ("notes.txt", .file [110] plainMode 0)] 0),
    ("skeleton", layeredSkeleton)] 0

theorem canCopy_copyingDesk :
    CanCopy "skeleton" "out" defaultDenyList ["skeleton"] ["out"] layeredSkeleton copyingDesk where
  proper := by decide +kernel
  allowed := rfl
  reachesSource := reaches_of_isName copyingDesk (by decide) (by decide)
  isSkeleton := rfl
  reachesTarget := reaches_of_isName copyingDesk (by decide) (by decide)
  apart := ⟨by decide, by decide⟩
  room := by
    have hroom : ∀ item ∈ plan defaultDenyList layeredSkeleton.shape,
        Files.World.allowed (join "skeleton" (relative item.names)) = .ok () ∧
        Files.World.allowed (join "out" (relative item.names)) = .ok () ∧
        (copyingDesk.tree.kindAt (["out"] ++ item.names) = none ∨
          copyingDesk.tree.kindAt (["out"] ++ item.names) = some item.kind) := by
      decide +kernel
    intro item hitem
    obtain ⟨hfrom, hto, hfree⟩ := hroom item hitem
    exact ⟨hfrom, hto, hfree⟩

theorem prunesAsFilters_copyingDesk :
    CanCopy "skeleton" "out" defaultDenyList ["skeleton"] ["out"] layeredSkeleton copyingDesk ∧
    ∃ after,
      copyingDesk.run (copySkeleton "skeleton" "out" defaultDenyList).run = (.ok 4, after) ∧
      {names | IsKept defaultDenyList layeredSkeleton names}.ncard = 4 ∧
      Copies defaultDenyList ["out"] layeredSkeleton copyingDesk after := by
  obtain ⟨count, after, hrun⟩ :=
    (prunesAsFilters defaultDenyList).succeeds _ _ _ _ _ _ canCopy_copyingDesk
  have hresult : (copyingDesk.run (copySkeleton "skeleton" "out" defaultDenyList).run).1.toOption =
      some 4 := by decide +kernel
  rw [hrun] at hresult
  obtain rfl := Option.some.inj hresult
  have hruns := runs_run (copySkeleton "skeleton" "out" defaultDenyList).run copyingDesk
  rw [hrun] at hruns
  obtain ⟨hcount, hcopies⟩ :=
    (prunesAsFilters defaultDenyList).copied _ _ _ _ _ _ _ _ canCopy_copyingDesk hruns
  exact ⟨canCopy_copyingDesk, after, hrun, hcount.symm, hcopies⟩

end Pruning

end Wireframe.Export
