/-
A workspace beside others.

An export that shares its work root makes its workspace, fills it and removes it.  What comes of this is
the same whatever others do beside it, and nothing of the workspace is left.

* `makes_root` — the work root is there, or it is made;
* `exists_create`, `create_below_cases` — the workspace is made in the work root, or it is not;
* `create_cases`, `sound_create` — so it is if the work root has to be made first, whatever others do;
* `sound_fill` — it is filled;
* `Removable`, `sound_remove` — it is removed.
-/
import Wireframe.Proofs.Export.Creation
import Wireframe.Proofs.Export.Lockstep
import Wireframe.Proofs.Export.SharedSweep

namespace Wireframe.Export

open Files World Tree

section Beside

variable {site : Site} {stem : String} {others own : List String} {quiet : World → Prop}
  {alone among before world after : World} {name : String}

/-! ### The work root -/

/-- The work root is made if it is not there, and that is a step that touches no workspace. -/
theorem makes_root (hfirm : site.IsFirm) (hhere : world.here = site.here)
    (hallows : site.Allows world.tree)
    (hfresh : ∀ name ∈ own ++ others, site.made.at? (site.place ++ [name]) = none)
    (hfree : ∀ name ∈ own, world.tree.at? (site.place ++ [name]) = none) :
    ∃ rooted, world.makeAlong (world.startOf site.root) [] (below site.root) = (.ok (), rooted) ∧
      site.Varies rooted.tree ∧ rooted = { world with tree := rooted.tree } ∧
      (∀ name ∈ own, rooted.tree.at? (site.place ++ [name]) = none) ∧
      Guarantees site own others world rooted := by
  rcases hallows with hstart | hvaries
  -- The root is as it was at the start: it is made here as it is made alone, but for times.
  · obtain ⟨rooted, hmakes, htimeless⟩ := hfirm.makes world hhere hstart
    have hsame := makeAlong_within world (world.startOf site.root) [] (below site.root)
    have hproper : (world.makeAlong (world.startOf site.root) [] (below site.root)).2.tree.isProper :=
      isProper_makeAlong (hstart ▸ hfirm.proper) fun piece hpiece => below_subset site.root hpiece
    rw [hmakes] at hsame hproper
    have heq : rooted = { world with tree := rooted.tree } := hsame.1
    have hwithin : Within world.tree rooted.tree := hsame.2
    have hvaries : site.Varies rooted.tree := hfirm.varies.congr hproper htimeless
    -- Nothing is there under a name of either side, as making the root makes no such names.
    have hnone : ∀ name ∈ own ++ others, rooted.tree.at? (site.place ++ [name]) = none := by
      intro name hname
      have hmap : (rooted.tree.at? (site.place ++ [name])).map timeless = none := by
        rw [← at?_timeless, htimeless, at?_timeless, hfresh name hname]
        rfl
      exact Option.map_eq_none_iff.mp hmap
    have hown : ∀ name ∈ own, rooted.tree.at? (site.place ++ [name]) = none :=
      fun name hname => hnone name (List.mem_append_left _ hname)
    refine ⟨rooted, hmakes, hvaries, heq, hown, ?_, ?_⟩
    · rw [heq]
    · refine ⟨?_, .inr hvaries, fun _ => hvaries, fun name hname => ?_,
        fun name hname inner hinner => ?_⟩
      · rw [heq]
      · rw [hnone name (List.mem_append_right _ hname)]
        exact (hwithin.at?_eq_none (hnone name (List.mem_append_right _ hname))).symm
      · rw [hown name hname] at hinner
        cases hinner
  -- The root is there already, made by the other side, so that nothing is made.
  · obtain ⟨left, hleads⟩ := (hfirm.reaches world hhere hvaries).leads
    have hleads : Leads world.tree linkLimit (world.startOf site.root) ([] ++ below site.root) left
      site.place := hleads
    exact ⟨world, makeAlong_of_leads hleads (hfirm.reaches world hhere hvaries).directory
      hfirm.isShort_below, hvaries, rfl, hfree, .of_same (.inr hvaries) rfl rfl rfl⟩

/-! ### Making a workspace -/

/-- A workspace is made in the work root, and it is empty. -/
theorem exists_create (hfirm : site.IsFirm) (howner : IsOwner site stem others)
    (hhere : world.here = site.here) (hvaries : site.Varies world.tree)
    (hfree : ∀ name ∈ namesOf stem, world.tree.at? (site.place ++ [name]) = none)
    (hshort : isShort stem) :
    ∃ made, world.makeAlong (world.startOf site.root) (below site.root) [stem] = (.ok (), made) ∧
      made = { world with tree := made.tree } ∧ site.Varies made.tree ∧ Tidy site stem made.tree ∧
      made.tree.at? (site.place ++ [stem]) = some (.directory [] world.clock) ∧
      made.tree.at? (site.place ++ [stem ++ ".zip"]) = none ∧
      Guarantees site (namesOf stem) others world made := by
  have hmem : stem ∈ namesOf stem := mem_namesOf.mpr (.inl rfl)
  have hreaches := hfirm.reaches world hhere hvaries
  obtain ⟨left, hleads⟩ := hreaches.leads
  -- The directory is new in a directory that is there, so it can be made.
  obtain ⟨tree, htree⟩ : ∃ tree, world.tree.change? world.clock (some (.directory [] world.clock))
      (site.place ++ [stem]) = some tree := exists_change (World.isDirectory_iff.mpr hreaches.directory)
  have hchange : world.change (site.place ++ [stem]) (some (.directory [] world.clock)) =
      .ok { world with tree } := change_eq_ok_iff.mpr ⟨htree, rfl⟩
  have hwalk : walk world.tree false linkLimit (world.startOf site.root) (below site.root ++ [stem]) =
      some (site.place ++ [stem]) := by
    rw [hleads.walk_append (.inl (List.cons_ne_nil _ _))]
    exact (walk_name_iff (notMem_of_isName howner.isName)).mpr ⟨hreaches.directory, rfl⟩
  have hmake : world.makeAt (world.startOf site.root) (below site.root ++ [stem]) =
      .ok { world with tree } := by
    simp only [makeAt, hwalk, hfree stem hmem]
    exact hchange
  have hnames : ∀ name ∈ site.place ++ [stem], isName name :=
    List.forall_mem_append.mpr ⟨hfirm.isName_place, List.forall_mem_singleton.mpr howner.isName⟩
  have hproper : ∀ inner, some (Tree.directory [] world.clock) = some inner → inner.isProper := by
    rintro inner ⟨⟩
    rfl
  -- The archive has another name, and is not there before or after.
  have hapart : Apart (site.place ++ [stem]) (site.place ++ [stem ++ ".zip"]) :=
    apart_of_ne (ne_archive stem)
  have hdirectory : tree.at? (site.place ++ [stem]) = some (.directory [] world.clock) := by
    have hat := at?_change_append htree []
    rwa [List.append_nil] at hat
  have harchive : tree.at? (site.place ++ [stem ++ ".zip"]) = none := by
    rw [at?_change_of_apart htree hapart.not_below hapart.not_above]
    exact hfree _ (mem_namesOf.mpr (.inr rfl))
  refine ⟨{ world with tree }, ?_, rfl, hvaries.change (howner.ours stem hmem) hnames hproper htree,
    ⟨?_, fun names path => ?_, .inl (kindAt_eq_none_iff.mpr harchive)⟩, hdirectory, harchive,
    .of_change hvaries (howner.ours stem hmem) (howner.spared stem hmem) hnames hproper
      (fun names inner hinner => ?_) hchange⟩
  · rw [makeAlong, hshort, hmake]
    rfl
  · rw [kindAt, hdirectory]
    rfl
  · rw [kindAt, at?_append, hdirectory, Option.bind_some]
    cases names with
    | nil =>
        rw [at?_nil]
        intro hlink
        cases hlink
    | cons name names =>
        intro hlink
        cases hlink
  -- All that was made is the empty directory, which is dated by the clock.
  · exact (isLeaf_directory world.clock).below names inner hinner ▸ rfl

/-- A workspace is made in both worlds, or neither makes it and for the same reason. -/
def MadeAlike (site : Site) (stem : String) (alone among : Except Fault Unit × World) : Prop :=
  (∃ fault, alone.1 = .error fault ∧ among.1 = .error fault ∧
    Idle site (namesOf stem) alone.2 among.2) ∨
  (alone.1 = .ok () ∧ among.1 = .ok () ∧ Twin site stem alone.2 among.2)

/-- With the work root there, the workspace is made in both worlds, or in none. -/
theorem create_below_cases (hfirm : site.IsFirm) (howner : IsOwner site stem others)
    (hlook : lookable (join site.root stem) = .ok ()) (hhere : alone.here = site.here)
    (hvaries : site.Varies alone.tree) (hvaries' : site.Varies among.tree)
    (hfree : ∀ name ∈ namesOf stem, alone.tree.at? (site.place ++ [name]) = none)
    (hidle : Idle site (namesOf stem) alone among) :
    Guarantees site (namesOf stem) others among
        (among.makeAlong (among.startOf site.root) (below site.root) [stem]).2 ∧
      MadeAlike site stem (alone.makeAlong (alone.startOf site.root) (below site.root) [stem])
        (among.makeAlong (among.startOf site.root) (below site.root) [stem]) := by
  by_cases hshort : isShort stem
  · obtain ⟨made, hmakes, hmade, hkept, htidy, hdirectory, harchive, -⟩ :=
      exists_create hfirm howner hhere hvaries hfree hshort
    -- Both worlds make the directory, and both have an empty one under its name.
    obtain ⟨made', hmakes', hmade', hkept', -, hdirectory', harchive', hguarantees⟩ :=
      exists_create hfirm howner (hidle.here_eq.trans hhere) hvaries' hidle.free hshort
    rw [hmakes, hmakes']
    refine ⟨hguarantees, .inr ⟨rfl, rfl, ?_, ?_, hkept, hkept', htidy, fun name hname => ?_,
      allowed_of_lookable hlook ?_, fun hthere => ?_⟩⟩
    · rw [hmade', hmade, hidle.sees]
      rfl
    · rw [hmade]
      exact hhere
    · rcases mem_namesOf.mp hname with rfl | rfl
      · rw [hdirectory, hdirectory']
        rfl
      · rw [harchive, harchive']
    · rw [pieces_join_name howner.isName]
      exact List.forall_mem_append.mpr
        ⟨hfirm.isShort_below, List.forall_mem_singleton.mpr hshort⟩
    · exact absurd (kindAt_eq_none_iff.mpr harchive) hthere
  -- A name that is too long is refused in both.
  · have hlong (world : World) (start : List String) :
        world.makeAlong start (below site.root) [stem] = (.error refused, world) := by
      rw [makeAlong, Bool.eq_false_of_not_eq_true hshort]
      rfl
    rw [hlong, hlong]
    exact ⟨.of_same (.inr hvaries') rfl rfl rfl, .inl ⟨refused, rfl, rfl, hidle⟩⟩

/-- First the work root is made, and then the workspace in it. -/
theorem reply_create (howner : IsOwner site stem others)
    (hlook : lookable (join site.root stem) = .ok ()) {rooted : World}
    (hroot : world.makeAlong (world.startOf site.root) [] (below site.root) = (.ok (), rooted))
    (hhere : rooted.here = world.here) :
    world.reply (.makeDirectory (join site.root stem)) =
      rooted.makeAlong (rooted.startOf site.root) (below site.root) [stem] := by
  have hstart : world.startOf (join site.root stem) = world.startOf site.root := by
    rw [startOf, startOf, isAbsolute_join (isAbsolute_of_isName howner.isName)]
  have hrooted : rooted.startOf site.root = world.startOf site.root := by
    rw [startOf, startOf, hhere]
  rw [World.reply, makeDirectory_eq (join_ne_empty howner.isName), hlook, hstart,
    pieces_join_name howner.isName, hrooted]
  simp only [makeAlong_append, hroot, List.nil_append]

/-- The workspace is made in both worlds, or in none. -/
theorem create_cases (hfirm : site.IsFirm) (howner : IsOwner site stem others)
    (hfresh : ∀ name ∈ namesOf stem ++ others, site.made.at? (site.place ++ [name]) = none)
    (hhere : alone.here = site.here) (htree : alone.tree = site.made)
    (hidle : Idle site (namesOf stem) alone among) :
    Guarantees site (namesOf stem) others among
        (among.reply (.makeDirectory (join site.root stem))).2 ∧
      MadeAlike site stem (alone.reply (.makeDirectory (join site.root stem)))
        (among.reply (.makeDirectory (join site.root stem))) := by
  -- A path that cannot be looked up is refused before anything is made.
  cases hlook : lookable (join site.root stem) with
  | error fault =>
      have hsame (world : World) :
          world.reply (.makeDirectory (join site.root stem)) = (.error fault, world) := by
        rw [World.reply, makeDirectory_eq (join_ne_empty howner.isName), hlook]
      rw [hsame, hsame]
      exact ⟨.of_same hidle.allows rfl rfl rfl, .inl ⟨fault, rfl, rfl, hidle⟩⟩
  | ok =>
      have hfree : ∀ name ∈ namesOf stem, alone.tree.at? (site.place ++ [name]) = none :=
        fun name hname => htree ▸ hfresh name (List.mem_append_left _ hname)
      obtain ⟨rooted, hroot, hvaries, heq, hnone, -⟩ :=
        makes_root hfirm hhere (.inr (htree ▸ hfirm.varies)) hfresh hfree
      -- The root first: alone it is there, and among others it may have to be made.
      obtain ⟨rooted', hroot', hvaries', heq', hnone', hguarantees⟩ :=
        makes_root hfirm (hidle.here_eq.trans hhere) hidle.allows hfresh hidle.free
      have hhere' : rooted.here = alone.here := by
        rw [heq]
      have hrooted : Idle site (namesOf stem) rooted rooted' := by
        refine ⟨?_, .inr hvaries', hnone'⟩
        rw [heq', heq, hidle.sees]
        rfl
      rw [reply_create howner hlook hroot hhere', reply_create howner hlook hroot' (by rw [heq'])]
      obtain ⟨hmade, hcases⟩ := create_below_cases hfirm howner hlook (hhere'.trans hhere) hvaries
        hvaries' hnone hrooted
      exact ⟨hguarantees.trans hmade, hcases⟩

/-! ### Removing a workspace -/

/-- If something of a workspace is there, it can be removed. -/
def IsRemovable (site : Site) (world : World) (directory : Bool) (name : String) : Prop :=
  ∀ tree, world.tree.at? (site.place ++ [name]) = some tree → site.Varies world.tree ∧
    World.allowed (join site.root name) = .ok () ∧ tree.isDirectory = directory

/-- A workspace that can be removed, or one that has not been made. -/
structure Removable (site : Site) (stem : String) (before world : World) : Prop where
  sees : world = before.sees world
  here : world.here = site.here
  allows : site.Allows world.tree
  directory : IsRemovable site world true stem
  archive : IsRemovable site world false (stem ++ ".zip")

theorem IsRemovable.relies {directory : Bool} (h : IsRemovable site world directory name)
    (hname : name ∈ own) (hrelies : Relies site own others quiet world after) :
    IsRemovable site after directory name := by
  intro tree hat
  rw [hrelies.own_eq hname] at hat
  obtain ⟨hvaries, hallowed, hdirectory⟩ := h tree hat
  exact ⟨hrelies.step.varies hvaries, hallowed, hdirectory⟩

theorem Removable.relies (h : Removable site stem before world)
    (hrelies : Relies site (namesOf stem) others quiet world after) :
    Removable site stem before after where
  sees := by
    rw [hrelies.sees, h.sees]
    rfl
  here := hrelies.here_eq.trans h.here
  allows := hrelies.step.allows
  directory := h.directory.relies (mem_namesOf.mpr (.inl rfl)) hrelies
  archive := h.archive.relies (mem_namesOf.mpr (.inr rfl)) hrelies

/-- A workspace that has not been made need not be removed. -/
theorem Idle.removable (h : Idle site (namesOf stem) before world)
    (hhere : before.here = site.here) : Removable site stem before world where
  sees := h.sees
  here := h.here_eq.trans hhere
  allows := h.allows
  directory := by
    intro tree hat
    rw [h.free stem (mem_namesOf.mpr (.inl rfl))] at hat
    cases hat
  archive := by
    intro tree hat
    rw [h.free (stem ++ ".zip") (mem_namesOf.mpr (.inr rfl))] at hat
    cases hat

/-- A workspace that has been filled can be removed. -/
theorem Twin.removable (h : Twin site stem alone among) : Removable site stem alone among where
  sees := h.sees
  here := h.here_among
  allows := .inr h.variesAmong
  directory := by
    intro tree hat
    refine ⟨h.variesAmong, h.allowed, ?_⟩
    have hdirectory := World.isDirectory_iff.mpr h.tidy_among.directory
    rw [hat] at hdirectory
    exact hdirectory
  archive := by
    intro tree hat
    have hkind : among.tree.kindAt (site.place ++ [stem ++ ".zip"]) = some tree.kind := by
      rw [kindAt, hat]
      rfl
    have hthere : alone.tree.kindAt (site.place ++ [stem ++ ".zip"]) ≠ none := by
      rw [← h.kindAt_same (mem_namesOf.mpr (.inr rfl)) [], hkind]
      exact Option.some_ne_none _
    refine ⟨h.variesAmong, h.allowedArchive hthere, ?_⟩
    -- An archive that is there is a file, as the export left it.
    rcases h.tidy_among.archive with harchive | harchive
    · rw [harchive] at hkind
      cases hkind
    · rw [harchive] at hkind
      cases tree with
      | file => rfl
      | _ => cases hkind

/-- What can be removed is removed, and nothing else. -/
theorem removes (hfirm : site.IsFirm) (howner : IsOwner site stem others)
    (hhere : world.here = site.here) (hallows : site.Allows world.tree) {directory : Bool}
    (hname : name ∈ namesOf stem) (hremovable : IsRemovable site world directory name) :
    (world.settle (world.remove directory (join site.root name))).2.tree.at? (site.place ++ [name]) =
        none ∧
      (∀ other, other ≠ name →
        (world.settle (world.remove directory (join site.root name))).2.tree.at?
          (site.place ++ [other]) = world.tree.at? (site.place ++ [other])) ∧
      (world.settle (world.remove directory (join site.root name))).2 =
        { world with tree := (world.settle (world.remove directory (join site.root name))).2.tree } ∧
      Guarantees site (namesOf stem) others world
        (world.settle (world.remove directory (join site.root name))).2 := by
  have hisName : isName name := by
    rcases mem_namesOf.mp hname with rfl | rfl
    · exact howner.isName
    · exact isName_archive howner.isName
  -- Nothing was removed, so nothing was there to be removed; or the removal was that of this name.
  rcases settle_remove_cases hisName with ⟨heq, hnone⟩ | ⟨parent, hreaches, hloses⟩
  · rw [heq]
    refine ⟨Option.eq_none_iff_forall_ne_some.mpr fun tree hat => ?_, fun _ _ => rfl, rfl,
      .of_same hallows rfl rfl rfl⟩
    obtain ⟨hvaries, hallowed, hdirectory⟩ := hremovable tree hat
    exact hnone hallowed site.place (hfirm.reaches world hhere hvaries) tree hat hdirectory
  -- What was removed was in the root, as no other directory is reached by that path.
  · obtain ⟨rfl, hvaries⟩ := hfirm.varies_of_reaches hhere hallows hreaches
    have hnames : ∀ other ∈ site.place ++ [name], isName other :=
      List.forall_mem_append.mpr ⟨hfirm.isName_place, List.forall_mem_singleton.mpr hisName⟩
    refine ⟨kindAt_eq_none_iff.mp (hloses.kindAt_self List.prefix_rfl), fun other hother => ?_,
      hloses.eq_with, .of_change hvaries (howner.ours name hname) (howner.spared name hname) hnames
        (by rintro inner ⟨⟩) (by rintro names inner ⟨⟩) hloses.change⟩
    have hapart : Apart (site.place ++ [name]) (site.place ++ [other]) := apart_of_ne (Ne.symm hother)
    exact hloses.at?_of_apart hapart.not_below hapart.not_above

/-- Removing a workspace leaves nothing of it. -/
theorem sound_remove (hfirm : site.IsFirm) (howner : IsOwner site stem others)
    (h : Removable site stem before world) :
    Sound (Relies site (namesOf stem) others quiet) (Guarantees site (namesOf stem) others)
      (fun _ later => Idle site (namesOf stem) before later)
      (Workspace.remove ⟨join site.root stem, join site.root (stem ++ ".zip")⟩) world := by
  -- The directory goes first; until the archive goes as well, what is known is that it can be
  -- removed.
  have hrely : IsRely (Relies site (namesOf stem) others quiet) := isRely_relies quiet
  have hdirectory : Sound (Relies site (namesOf stem) others quiet)
      (Guarantees site (namesOf stem) others)
      (fun _ later => Removable site stem before later ∧ later.tree.at? (site.place ++ [stem]) = none)
      (Script.request (.removeDirectory (join site.root stem))) world := by
    refine .request fun later hlater => ?_
    have hworld := h.relies hlater
    obtain ⟨hgone, hother, heq, hguarantees⟩ := removes hfirm howner hworld.here hworld.allows
      (mem_namesOf.mpr (.inl rfl)) hworld.directory
    refine ⟨hguarantees, fun last hlast => ⟨Removable.relies ⟨sees_of_change hworld.sees heq, ?_,
      hguarantees.step.allows, ?_, ?_⟩ hlast,
      (hlast.own_eq (mem_namesOf.mpr (.inl rfl))).trans hgone⟩⟩
    · exact hguarantees.here.trans hworld.here
    · intro tree hat
      have hnone := hat.symm.trans hgone
      cases hnone
    -- The archive is not touched by the removal of the directory.
    · intro tree hat
      have hbefore := (hother _ (ne_archive stem).symm).symm.trans hat
      obtain ⟨hvaries, hallowed, hfile⟩ := hworld.archive tree hbefore
      exact ⟨hguarantees.step.varies hvaries, hallowed, hfile⟩
  refine hdirectory.bind hrely ?_
  rintro _ middle ⟨hmiddle, hgone⟩
  have harchive : Sound (Relies site (namesOf stem) others quiet)
      (Guarantees site (namesOf stem) others)
      (fun _ later => Idle site (namesOf stem) before later)
      (Script.request (.removeFile (join site.root (stem ++ ".zip")))) middle := by
    refine .request fun later hlater => ?_
    have hworld := hmiddle.relies hlater
    -- The other side cannot bring back the directory, as the name is not one of its own.
    have hgone := (hlater.own_eq (mem_namesOf.mpr (.inl rfl))).trans hgone
    obtain ⟨hfree, hother, heq, hguarantees⟩ := removes hfirm howner hworld.here hworld.allows
      (mem_namesOf.mpr (.inr rfl)) hworld.archive
    refine ⟨hguarantees, fun last hlast => Idle.relies ⟨sees_of_change hworld.sees heq,
      hguarantees.step.allows, fun name hname => ?_⟩ hlast⟩
    rcases mem_namesOf.mp hname with rfl | rfl
    · exact (hother _ (ne_archive name)).trans hgone
    · exact hfree
  refine harchive.bind hrely fun _ last hlast => ?_
  exact fun later hlater => hlast.relies hlater

/-! ### Filling a workspace -/

/-- The workspace is made in both worlds, or in none, whatever others do. -/
theorem sound_create (hfirm : site.IsFirm) (howner : IsOwner site stem others)
    (hfresh : ∀ name ∈ namesOf stem ++ others, site.made.at? (site.place ++ [name]) = none)
    (hhere : alone.here = site.here) (htree : alone.tree = site.made)
    (hidle : Idle site (namesOf stem) alone among) {archive : String} :
    Sound (Relies site (namesOf stem) others quiet) (Guarantees site (namesOf stem) others)
      (fun result later =>
        result = (alone.run (Workspace.create ⟨join site.root stem, archive⟩).run).1 ∧
        ((∃ failure, result = .error failure ∧ Removable site stem
            (alone.run (Workspace.create ⟨join site.root stem, archive⟩).run).2 later) ∨
          result = .ok () ∧
            Twin site stem (alone.run (Workspace.create ⟨join site.root stem, archive⟩).run).2 later))
      (Workspace.create ⟨join site.root stem, archive⟩).run among := by
  -- The one request is answered as it is alone, and what it leaves is a twin or can be removed.
  have hmake : Sound (Relies site (namesOf stem) others quiet) (Guarantees site (namesOf stem) others)
      (fun reply later => reply = (alone.reply (.makeDirectory (join site.root stem))).1 ∧
        ((∃ fault, reply = .error fault ∧ Removable site stem
            (alone.reply (.makeDirectory (join site.root stem))).2 later) ∨
          reply = .ok () ∧ Twin site stem (alone.reply (.makeDirectory (join site.root stem))).2 later))
      (Script.request (.makeDirectory (join site.root stem))) among := by
    refine .request fun later hlater => ?_
    have hhere' : later.here = site.here := (hidle.relies hlater).here_eq.trans hhere
    obtain ⟨hguarantees, ⟨fault, hfault, hfault', hafter⟩ | ⟨hok, hok', hafter⟩⟩ :=
      create_cases hfirm howner hfresh hhere htree (hidle.relies hlater)
    · have hremovable := hafter.removable (hafter.here_eq.symm.trans (hguarantees.here.trans hhere'))
      exact ⟨hguarantees, fun last hlast => ⟨hfault'.trans hfault.symm,
        .inl ⟨fault, hfault', hremovable.relies hlast⟩⟩⟩
    · exact ⟨hguarantees, fun last hlast => ⟨hok'.trans hok.symm,
        .inr ⟨hok', hafter.relies hlast⟩⟩⟩
  have hrun : alone.run (Workspace.create ⟨join site.root stem, archive⟩).run = _ :=
    run_bind (Script.request (.makeDirectory (join site.root stem))) _ alone
  rw [hrun]
  refine hmake.bind (isRely_relies quiet) ?_
  rintro reply later ⟨hreply, hcases⟩
  have hsame : (alone.run (Script.request (.makeDirectory (join site.root stem)))).1 = reply :=
    hreply.symm
  rw [hsame]
  -- The answer decides the result in both.
  obtain ⟨fault, rfl, hlater⟩ | ⟨rfl, hlater⟩ := hcases
  · exact fun last hlast => ⟨rfl, .inl ⟨_, rfl, hlater.relies hlast⟩⟩
  · exact fun last hlast => ⟨rfl, .inr ⟨rfl, hlater.relies hlast⟩⟩

/-- What is done in a workspace is done as if there were nobody else. -/
theorem sound_fill {archiver : Archiver} {project : Design.Project} {sources : App.Sources}
    {options : Options} {origin : List String} (hfirm : site.IsFirm) (howner : IsOwner site stem others)
    (hfresh : ∀ name ∈ namesOf stem ++ others, site.made.at? (site.place ++ [name]) = none)
    (hstands : Stands site options.skeleton origin)
    (hfiles : ∀ file ∈ sources.files, IsNested file.path)
    (hhere : alone.here = site.here) (htree : alone.tree = site.made)
    (hidle : Idle site (namesOf stem) alone among) :
    Sound (Relies site (namesOf stem) others quiet) (Guarantees site (namesOf stem) others)
      (fun result later =>
        result = (alone.run (fill archiver project sources options
          ⟨join site.root stem, join site.root (stem ++ ".zip")⟩).run).1 ∧
        Removable site stem (alone.run (fill archiver project sources options
          ⟨join site.root stem, join site.root (stem ++ ".zip")⟩).run).2 later)
      (fill archiver project sources options
        ⟨join site.root stem, join site.root (stem ++ ".zip")⟩).run among := by
  have hrun : alone.run (fill archiver project sources options
      ⟨join site.root stem, join site.root (stem ++ ".zip")⟩).run = _ :=
    run_bind (Workspace.create ⟨join site.root stem, join site.root (stem ++ ".zip")⟩).run _ alone
  rw [hrun]
  refine (sound_create hfirm howner hfresh hhere htree hidle).bind (isRely_relies quiet) ?_
  rintro result later ⟨hresult, hcases⟩
  rw [← hresult]
  obtain ⟨failure, rfl, hlater⟩ | ⟨rfl, hlater⟩ := hcases
  · exact fun last hlast => ⟨rfl, hlater.relies hlast⟩
  -- With the directory there the two worlds are twins, and packing goes on in step.
  · have hpack : LockstepJob site stem others quiet (pack archiver project sources options
        ⟨join site.root stem, join site.root (stem ++ ".zip")⟩) :=
      lockstep_pack hfirm howner archiver hstands hfiles
    exact (hpack _ _ hlater).mono fun result last hlast => ⟨hlast.1, hlast.2.removable⟩

end Beside

end Wireframe.Export
