/-
What a sweep takes away.

A work root is shared by the exports of all projects.  If nothing is refused that is to be taken away,
a sweep for a slug takes away all entries of the work root that exports of that slug have left behind
long enough ago, whatever is in them.  Everything else stays, in particular what belongs to another
slug, even if one of the slugs begins with the other.

* `World.grantsRemovals` — nothing is refused that is to be taken away;
* `LeftBehind`, `leftBehind_iff` — what a sweep looks for;
* `IsEntryOf`, `isEntryOf_iff` — what an export of a slug puts into a work root;
* `Without` — some entries of a directory are gone, and nothing else is different;
* `run_removeEntries` — entries that are taken away one after the other;
* `SweepsOwn`, `sweepsOwn` — what a sweep takes away, and what it recognises.
-/
import Wireframe.Proofs.Export.Clearing
import Wireframe.Proofs.Export.WorkspaceName

namespace Wireframe.Files.World

variable {α β : Type}

/-- Nothing is refused to a script that it asks to have taken away. -/
def grantsRemovals (world : World) : Script α → Bool
  | .done _ => true
  | .ask request next =>
      !(request.isRemoval && (request.fault? (world.reply request).1).isSome) &&
        grantsRemovals (world.reply request).2 (next (world.reply request).1)

theorem grantsRemovals_request (world : World) (request : Request) :
    world.grantsRemovals (Script.request request) =
      !(request.isRemoval && (request.fault? (world.reply request).1).isSome) :=
  Bool.and_true _

theorem grantsRemovals_bind (world : World) (script : Script α) (f : α → Script β) :
    world.grantsRemovals (script.bind f) = (world.grantsRemovals script &&
      (world.run script).2.grantsRemovals (f (world.run script).1)) := by
  induction script generalizing world with
  | done a => rfl
  | ask request next ih =>
    rw [Script.bind_ask, grantsRemovals, grantsRemovals, ih, Bool.and_assoc]
    rfl

end Wireframe.Files.World

namespace Wireframe.Export

open Files World Tree

/-! ### What is left behind -/

/-- An entry of a work root that an export of a slug has left behind: the directory or the archive of a
workspace, changed at least `age` seconds ago and not in the future. -/
structure LeftBehind (slug : String) (now : Int) (age : Nat) (entry : String × Tree) : Prop where
  name : ∃ id : String, isId id.toList ∧
    (entry.1 = slug ++ "-" ++ id ∨ entry.1 = slug ++ "-" ++ id ++ ".zip")
  past : entry.2.modified ≤ now
  old : age ≤ now - entry.2.modified

/-- An entry as it is listed. -/
def listed (entry : String × Tree) : DirEntry := ⟨entry.1, entry.2.isDirectory, entry.2.modified⟩

theorem leftBehind_iff {slug : String} {now : Int} {age : Nat} {entry : String × Tree} :
    LeftBehind slug now age entry ↔
      (isWorkspaceName (listed entry).name slug && isStale now age (listed entry)) = true := by
  rw [Bool.and_eq_true, isWorkspaceName_iff, isStale, Bool.and_eq_true, decide_eq_true_iff,
    decide_eq_true_iff]
  constructor
  · exact fun h => ⟨h.name, h.past, h.old⟩
  · exact fun h => ⟨h.1, h.2.1, h.2.2⟩

instance {slug : String} {now : Int} {age : Nat} : DecidablePred (LeftBehind slug now age) :=
  fun _ => decidable_of_iff _ leftBehind_iff.symm

theorem LeftBehind.isName {title : String} {now : Int} {age : Nat} {entry : String × Tree}
    (h : LeftBehind (App.routeId title) now age entry) : isName entry.1 := by
  obtain ⟨id, hid, hname⟩ := h.name
  rcases hname with hname | hname <;> rw [hname]
  · exact isName_of_isId title hid
  · exact isName_archive (isName_of_isId title hid)

/-- The entry of a work root is the directory or the archive of the workspace of a slug and a number. -/
def IsEntryOf (root slug id name : String) : Prop :=
  isName name ∧ (join root name = (Workspace.of root slug id).directory ∨
    join root name = (Workspace.of root slug id).archive)

theorem join_injective {root a b : String} (ha : isName a) (hb : isName b)
    (h : join root a = join root b) : a = b := by
  have hpieces := congrArg pieces h
  rw [pieces_join_name ha, pieces_join_name hb] at hpieces
  exact List.singleton_inj.mp (List.append_cancel_left hpieces)

theorem isEntryOf_iff {root title id name : String} (hid : isId id.toList) :
    IsEntryOf root (App.routeId title) id name ↔
      name = App.routeId title ++ "-" ++ id ∨ name = App.routeId title ++ "-" ++ id ++ ".zip" := by
  have hdirectory := isName_of_isId title hid
  simp only [IsEntryOf, Workspace.of]
  constructor
  · rintro ⟨hname, hpath | hpath⟩
    · exact .inl (join_injective hname hdirectory hpath)
    · exact .inr (join_injective hname (isName_archive hdirectory) hpath)
  · rintro (rfl | rfl)
    · exact ⟨hdirectory, .inl rfl⟩
    · exact ⟨isName_archive hdirectory, .inr rfl⟩

/-! ### What is gone -/

/-- Some entries of the directory at a place are gone, and nothing else is different. -/
structure Without (place gone : List String) (before after : World) : Prop where
  same : after = { before with tree := after.tree }
  lost : ∀ name ∈ gone, ∀ q, place ++ [name] <+: q → after.tree.at? q = none
  left : ∀ entries modified, before.tree.at? place = some (.directory entries modified) →
    ∃ since, after.tree.at? place = some (.directory (entries.filter (·.1 ∉ gone)) since)
  kinds : ∀ q, (∀ name ∈ gone, ¬ place ++ [name] <+: q) →
    after.tree.kindAt q = before.tree.kindAt q
  contents : ∀ q, (∀ name ∈ gone, ¬ place ++ [name] <+: q) →
    after.tree.contentsAt? q = before.tree.contentsAt? q
  elsewhere : ∀ q, (∀ name ∈ gone, Apart (place ++ [name]) q) →
    after.tree.at? q = before.tree.at? q

namespace Without

variable {place gone : List String} {before world after : World}

theorem refl (place : List String) (world : World) : Without place [] world world where
  same := rfl
  lost := fun _ hname => nomatch hname
  left := fun entries modified hat => ⟨modified, by simpa using hat⟩
  kinds := fun _ _ => rfl
  contents := fun _ _ => rfl
  elsewhere := fun _ _ => rfl

theorem within (h : Without place gone before world) : Within world.tree before.tree := by
  intro q kind hkind
  by_cases hgone : ∃ name ∈ gone, place ++ [name] <+: q
  · obtain ⟨name, hname, hq⟩ := hgone
    rw [kindAt, h.lost name hname q hq] at hkind
    cases hkind
  · rwa [← h.kinds q fun name hname hq => hgone ⟨name, hname, hq⟩]

/-- One entry less. -/
theorem loses {name : String} (h : Without place gone before world)
    (hloses : Loses world (place ++ [name]) after) :
    Without place (gone ++ [name]) before after where
  same := by
    rw [hloses.eq_with, h.same]
  -- What is lost is what was lost before, and what is below this entry.
  lost := by
    intro other hother q hq
    rcases List.mem_append.mp hother with hother | hother
    · exact hloses.within.at?_eq_none (h.lost other hother q hq)
    · obtain rfl := List.mem_singleton.mp hother
      exact kindAt_eq_none_iff.mp (hloses.kindAt_self hq)
  left := by
    intro entries modified hat
    obtain ⟨since, hleft⟩ := h.left entries modified hat
    refine ⟨world.clock, ?_⟩
    -- The list of the directory loses one entry more.
    rw [hloses.at?_parent hleft, dropEntry, List.filter_filter]
    simp [not_or, bne, beq_eq_decide, Bool.and_comm]
  kinds := by
    intro q hq
    obtain ⟨hgone, hname⟩ := List.forall_mem_append.mp hq
    rw [hloses.kindAt_of_not_below (hname name (List.mem_singleton_self name)), h.kinds q hgone]
  contents := by
    intro q hq
    obtain ⟨hgone, hname⟩ := List.forall_mem_append.mp hq
    rw [hloses.contentsAt?_of_not_below (hname name (List.mem_singleton_self name)),
      h.contents q hgone]
  elsewhere := by
    intro q hq
    obtain ⟨hgone, hname⟩ := List.forall_mem_append.mp hq
    have hapart := hname name (List.mem_singleton_self name)
    rw [hloses.at?_of_apart hapart.not_below hapart.not_above, h.elsewhere q hgone]

end Without

/-! ### Sweeping -/

section Sweeping

variable {root : String} {place gone : List String} {before world : World}

/-- What may be taken away is lost. -/
theorem exists_loses_of_granted {directory : Bool} {name : String} (hname : isName name)
    (h : (refusalOf (world.settle (world.remove directory (join root name))).1).isSome = false) :
    ∃ after parent, world.settle (world.remove directory (join root name)) = (.ok (), after) ∧
      world.Reaches root parent ∧ Loses world (parent ++ [name]) after := by
  cases hremove : world.remove directory (join root name) with
  | error fault =>
    rw [hremove] at h
    cases h
  | ok changed =>
    obtain ⟨parent, hreaches, hloses⟩ := loses_of_remove hname hremove
    exact ⟨changed, parent, rfl, hreaches, hloses⟩

theorem run_removeEntry {entry : DirEntry} (hname : isName entry.name)
    (h : world.grantsRemovals (removeEntry root entry) = true) :
    ∃ after parent, world.run (removeEntry root entry) = (.ok (), after) ∧
      world.Reaches root parent ∧ Loses world (parent ++ [entry.name]) after := by
  have hnot {request : Request} (hremoval : request.isRemoval = true)
      (hgrants : world.grantsRemovals (Script.request request) = true) :
      (request.fault? (world.reply request).1).isSome = false := by
    simpa [grantsRemovals_request, hremoval] using hgrants
  unfold removeEntry at h ⊢
  cases hdirectory : entry.isDirectory with
  | true =>
    rw [hdirectory] at h
    exact exists_loses_of_granted hname (hnot rfl h)
  | false =>
    rw [hdirectory] at h
    exact exists_loses_of_granted hname (hnot rfl h)

/-- Entries that may be taken away are lost one after the other. -/
theorem run_removeEntries {todo : List DirEntry} (hworld : Without place gone before world)
    (hreaches : before.Reaches root place) (hnames : ∀ entry ∈ todo, isName entry.name)
    (h : world.grantsRemovals (removeEntries root todo) = true) :
    ∃ after, world.run (removeEntries root todo) = (todo.length, after) ∧
      Without place (gone ++ todo.map (·.name)) before after := by
  induction todo generalizing world gone with
  | nil =>
    refine ⟨world, rfl, ?_⟩
    rwa [List.map_nil, List.append_nil]
  | cons entry rest ih =>
    obtain ⟨hname, hrest⟩ := List.forall_mem_cons.mp hnames
    have hgrants := (grantsRemovals_bind world (removeEntry root entry) _).symm.trans h
    obtain ⟨hfirst, hothers⟩ := Bool.and_eq_true_iff.mp hgrants
    obtain ⟨first, parent, hrun, hparent, hloses⟩ := run_removeEntry hname hfirst
    -- the path still leads where it led before anything was taken away
    obtain rfl : parent = place :=
      hreaches.unique (hparent.mono (by rw [hworld.same]) hworld.within)
    rw [hrun] at hothers
    have hothers' := (grantsRemovals_bind first (removeEntries root rest) _).symm.trans hothers
    obtain ⟨after, hlast, hafter⟩ := ih (hworld.loses hloses) hrest (Bool.and_eq_true_iff.mp hothers').1
    refine ⟨after, ?_, ?_⟩
    · have hbind : world.run (removeEntries root (entry :: rest)) = _ :=
        run_bind (removeEntry root entry) _ world
      rw [hbind, hrun]
      have hbind' := run_bind (removeEntries root rest) (fun removed => pure (removed + 1)) first
      rw [hlast] at hbind'
      exact hbind'
    · rwa [List.append_assoc] at hafter

/-- What a sweep is about to take away. -/
def leftovers (slug : String) (age : Nat) (now : Int) (entries : List (String × Tree)) :
    List (String × Tree) :=
  entries.filter (LeftBehind slug now age)

theorem filter_listed (slug : String) (age : Nat) (now : Int) (entries : List (String × Tree)) :
    ((entries.map listed).filter fun entry =>
      isWorkspaceName entry.name slug && isStale now age entry) =
        (leftovers slug age now entries).map listed := by
  rw [List.filter_map, leftovers]
  refine congrArg (List.map listed) (List.filter_congr ?_)
  intro entry _
  rw [Bool.eq_iff_iff, decide_eq_true_iff, leftBehind_iff]
  rfl

/-- Entries have names of their own, so the ones that stay are told by their names. -/
theorem filter_notMem_leftovers {slug : String} {age : Nat} {now : Int}
    {entries : List (String × Tree)} (h : areProper entries) :
    (entries.filter (·.1 ∉ (leftovers slug age now entries).map Prod.fst)) =
      entries.filter fun entry => ¬ LeftBehind slug now age entry := by
  refine List.filter_congr ?_
  rintro ⟨name, tree⟩ hentry
  refine decide_eq_decide.mpr (not_congr ?_)
  constructor
  · intro hname
    obtain ⟨⟨other, otherTree⟩, hother, rfl⟩ := List.mem_map.mp hname
    obtain ⟨hmem, hleft⟩ := List.mem_filter.mp hother
    have hsame := ((lookup_eq_some_iff h).mpr hmem).symm.trans ((lookup_eq_some_iff h).mpr hentry)
    obtain rfl := Option.some.inj hsame
    exact of_decide_eq_true hleft
  · intro hleft
    exact List.mem_map_of_mem (List.mem_filter.mpr ⟨hentry, decide_eq_true hleft⟩)

theorem run_entries (world : World) (root : String) :
    world.run (Script.request (.entries root)) = (world.entries root, world) := rfl

/-- A sweep of what is not a directory that can be read does nothing. -/
theorem run_sweep_of_error {slug : String} {age : Nat} {fault : Fault}
    (h : world.entries root = .error fault) : world.run (sweep root slug age) = (0, world) := by
  have hrun : world.run (sweep root slug age) = _ :=
    run_bind (Script.request (.entries root)) _ world
  rw [hrun, run_entries, h]
  rfl

/-- A sweep of a directory is the removal of what is left behind in it. -/
theorem run_sweep_of_entries {slug : String} {age : Nat} {entries : List (String × Tree)}
    (h : world.entries root = .ok (entries.map listed)) : world.run (sweep root slug age) =
      world.run (removeEntries root ((leftovers slug age world.clock entries).map listed)) := by
  have hrun : world.run (sweep root slug age) = _ :=
    run_bind (Script.request (.entries root)) _ world
  rw [hrun, run_entries, h, ← filter_listed]
  rfl

theorem grantsRemovals_sweep_of_entries {slug : String} {age : Nat}
    {entries : List (String × Tree)} (h : world.entries root = .ok (entries.map listed)) :
    world.grantsRemovals (sweep root slug age) = world.grantsRemovals
      (removeEntries root ((leftovers slug age world.clock entries).map listed)) := by
  have hgrants : world.grantsRemovals (sweep root slug age) = _ :=
    grantsRemovals_bind world (Script.request (.entries root)) _
  rw [hgrants, run_entries, h, ← filter_listed]
  rfl

end Sweeping

/-! ### What a sweep does -/

/-- A sweep for a slug takes away its own leftovers and nothing else. -/
structure SweepsOwn (slug : String) : Prop where
  /-- If what is to be taken away is, then all leftovers of a work root are gone and nothing else. -/
  swept : ∀ (root : String) (age : Nat) (before : World) (place : List String)
    (entries : List (String × Tree)) (modified : Int), before.tree.isProper →
    allowed root = .ok () → before.Reaches root place →
    before.tree.at? place = some (.directory entries modified) →
    before.grantsRemovals (sweep root slug age) →
    ∃ after since,
      before.run (sweep root slug age) = ((leftovers slug age before.clock entries).length, after) ∧
      after.tree.at? place = some (.directory
        (entries.filter fun entry => ¬ LeftBehind slug before.clock age entry) since) ∧
      Without place ((leftovers slug age before.clock entries).map Prod.fst) before after
  /-- Without a work root that can be read nothing happens. -/
  missing : ∀ (root : String) (age : Nat) (before : World),
    (allowed root = .ok () → ∀ place, ¬ before.Reaches root place) →
    before.run (sweep root slug age) = (0, before)
  own : ∀ root id name, isId id.toList → IsEntryOf root slug id name → isWorkspaceName name slug
  others : ∀ title root id name, App.routeId title ≠ slug → isId id.toList →
    IsEntryOf root (App.routeId title) id name → ¬ isWorkspaceName name slug
  /-- The numbers that are given out are known as such. -/
  numbers : ∀ n, isId (idText n).toList

theorem swept_of_granted {title root : String} {age : Nat} {before : World} {place : List String}
    {entries : List (String × Tree)} {modified : Int} (hproper : before.tree.isProper)
    (hallowed : allowed root = .ok ()) (hreaches : before.Reaches root place)
    (hat : before.tree.at? place = some (.directory entries modified))
    (h : before.grantsRemovals (sweep root (App.routeId title) age)) :
    ∃ after since,
      before.run (sweep root (App.routeId title) age) =
        ((leftovers (App.routeId title) age before.clock entries).length, after) ∧
      after.tree.at? place = some (.directory
        (entries.filter fun entry => ¬ LeftBehind (App.routeId title) before.clock age entry)
        since) ∧
      Without place ((leftovers (App.routeId title) age before.clock entries).map Prod.fst)
        before after := by
  have hentries : before.entries root = .ok (entries.map listed) :=
    entries_eq_ok_iff.mpr ⟨hallowed, place, entries, modified, hreaches, hat, rfl⟩
  -- The sweep is its removals, as listing and asking for the time succeed.
  rw [grantsRemovals_sweep_of_entries hentries] at h
  have hnames : ∀ entry ∈ (leftovers (App.routeId title) age before.clock entries).map listed,
      isName entry.name := by
    rw [List.forall_mem_map]
    intro entry hentry
    exact (of_decide_eq_true (List.mem_filter.mp hentry).2 : LeftBehind _ _ _ entry).isName
  obtain ⟨after, hrun, hafter⟩ := run_removeEntries (.refl place before) hreaches hnames h
  rw [List.nil_append, List.map_map] at hafter
  -- What is left of the list is what was not left behind, as its names are all different.
  obtain ⟨since, hleft⟩ := hafter.left entries modified hat
  have hinner : areProper entries := by
    have hdirectory := (isProper_at? hproper hat).1
    rwa [isProper] at hdirectory
  refine ⟨after, since, ?_, ?_, hafter⟩
  · rw [run_sweep_of_entries hentries, hrun, List.length_map]
  · rw [hleft]
    exact congrArg (fun rest => some (Tree.directory rest since)) (filter_notMem_leftovers hinner)

theorem run_sweep_of_missing {root slug : String} {age : Nat} {before : World}
    (h : allowed root = .ok () → ∀ place, ¬ before.Reaches root place) :
    before.run (sweep root slug age) = (0, before) := by
  cases hentries : before.entries root with
  | error fault => exact run_sweep_of_error hentries
  | ok found =>
    obtain ⟨hallowed, place, -, -, hreaches, -, -⟩ := entries_eq_ok_iff.mp hentries
    exact absurd hreaches (h hallowed place)

/-- A sweep for a route id takes away what exports under that id have left behind, and nothing else. -/
theorem sweepsOwn (title : String) : SweepsOwn (App.routeId title) where
  swept := fun _ _ _ _ _ _ => swept_of_granted
  missing := fun _ _ _ => run_sweep_of_missing
  own := by
    intro root id name hid hentry
    exact isWorkspaceName_iff.mpr ⟨id, hid, (isEntryOf_iff hid).mp hentry⟩
  others := by
    intro other root id name hother hid hentry hname
    refine hother ?_
    rcases (isEntryOf_iff hid).mp hentry with rfl | rfl
    · exact routeId_eq_of_isWorkspaceName (toList_hyphen _ _) hname
    · have harchive : (App.routeId other ++ "-" ++ id ++ ".zip").toList =
          (App.routeId other).toList ++ '-' :: (id.toList ++ archiveEnding) := by
        rw [toList_archive, toList_hyphen, List.append_assoc, List.cons_append]
      exact routeId_eq_of_isWorkspaceName harchive hname
  numbers := isId_idText

/-- A work root with a directory and an archive that exports of a shop have left behind, a workspace that
may still be in use, a file of someone else, and a directory that belongs to another slug. -/
def sharedShelf : World where
  tree := .directory [
    ("work", .directory [
      ("shop-00000000-0000-4000-8000-000000000001",
        .directory [("main.dart", .file [47] plainMode 0)] 0),
      ("shop-00000000-0000-4000-8000-000000000002.zip", .file [80, 75] plainMode 3600),
      ("shop-00000000-0000-4000-8000-000000000003", .directory [] 3601),
      ("shop-notes", .file [] plainMode 0),
      ("shopping-00000000-0000-4000-8000-000000000004", .directory [] 0)] 0)] 0
  clock := 7200

theorem sweepsOwn_sharedShelf :
    sharedShelf.tree.isProper ∧ sharedShelf.Reaches "work" ["work"] ∧
    sharedShelf.grantsRemovals (sweep "work" (App.routeId "Shop") 3600) ∧
    ∃ after entries since, sharedShelf.run (sweep "work" (App.routeId "Shop") 3600) = (2, after) ∧
      after.tree.at? ["work"] = some (.directory entries since) ∧
      entries.map Prod.fst = [
        "shop-00000000-0000-4000-8000-000000000003", "shop-notes",
        "shopping-00000000-0000-4000-8000-000000000004"] := by
  have hproper : sharedShelf.tree.isProper := by decide +kernel
  have hreaches : sharedShelf.Reaches "work" ["work"] :=
    reaches_of_isName sharedShelf (by decide) (by decide)
  have hgrants : sharedShelf.grantsRemovals (sweep "work" (App.routeId "Shop") 3600) := by
    decide +kernel
  obtain ⟨after, since, hrun, hleft, -⟩ := (sweepsOwn "Shop").swept "work" 3600 sharedShelf ["work"] _ _
    hproper rfl hreaches rfl hgrants
  refine ⟨hproper, hreaches, hgrants, after, _, since, ?_, hleft, by decide +kernel⟩
  rw [hrun]
  exact congrArg (·, after) (by decide +kernel)

end Wireframe.Export
