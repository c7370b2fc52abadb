/-
Removing workspaces.

A workspace that has been made is there to be removed, whatever has happened in it.  Afterwards nothing
in the world has its name or that of its archive.  What is swept away are entries of the work root:
workspaces of the project that have been left behind.  Each of them is removed as a whole or stays as
it is, and so does everything else.

* `Cleared` — the workspace is gone, and everything outside of it is as it was when it was made;
* `InUse.cleared_of_remove` — removing a workspace;
* `Made.unmentioned` — nothing has its name afterwards;
* `IsLeftover` — an entry of the work root that an export takes to be left behind;
* `Swept` — some of them are gone;
* `swept_of_runs` — whatever is refused, sweeping does no more than that.
-/
import Wireframe.Proofs.Export.Creation
import Wireframe.Proofs.Export.InUse
import Wireframe.Proofs.Files.Removal

namespace Wireframe.Export

open Files World Tree

/-! ### One workspace -/

/-- A workspace in a directory is gone; everything outside of it is as before. -/
structure Cleared (stem : String) (place : List String) (before after : World) : Prop where
  proper : after.tree.isProper
  directory : after.tree.kindAt (place ++ [stem]) = none
  archive : after.tree.kindAt (place ++ [stem ++ ".zip"]) = none
  elsewhere : ∀ q, Apart (place ++ [stem]) q → Apart (place ++ [stem ++ ".zip"]) q →
    after.tree.at? q = before.tree.at? q
  contents : ∀ q, ¬ place ++ [stem] <+: q → ¬ place ++ [stem ++ ".zip"] <+: q →
    after.tree.contentsAt? q = before.tree.contentsAt? q

section Clearing

variable {root stem : String} {place q : List String} {before world after : World}

/-- The work root still leads to its place when something of the workspace is taken away. -/
theorem Bears.loses (h : Bears root stem place world) (hloses : Loses world q after)
    (hq : q = place ++ [stem] ∨ q = place ++ [stem ++ ".zip"]) : Bears root stem place after := by
  obtain ⟨origin, hhere, hreaches, hwithin, hstem, harchive⟩ := h.origin
  refine ⟨h.allowed, origin, hhere.trans hloses.here_eq.symm, hreaches, fun other kind hkind => ?_,
    hstem, harchive⟩
  -- in the world in which the work root was followed there was nothing at the place
  have hfree : origin.tree.kindAt q = none := by
    rcases hq with rfl | rfl
    · exact hstem
    · exact harchive
  have hbelow : ¬ q <+: other := by
    rintro ⟨names, rfl⟩
    rcases eq_or_ne names [] with rfl | hnames
    · rw [List.append_nil, hfree] at hkind
      cases hkind
    · rw [kindAt_of_append hkind hnames] at hfree
      cases hfree
  rw [hloses.kindAt_of_not_below hbelow]
  exact hwithin other kind hkind

/-- A workspace that is in use has a directory to remove. -/
theorem InUse.loses_directory (h : InUse root stem place before world) (hstem : isName stem)
    (hbears : Bears root stem place world) :
    Loses world (place ++ [stem]) (world.reply (.removeDirectory (join root stem))).2 := by
  obtain ⟨tree, hat, hdirectory⟩ := Option.map_eq_some_iff.mp h.directory
  have hisDirectory : tree.isDirectory = true := by
    cases tree with
    | directory => rfl
    | _ => cases hdirectory
  rcases settle_remove_cases hstem with ⟨-, hnone⟩ | ⟨parent, hreaches, hloses⟩
  · exact absurd hisDirectory (hnone hbears.allowed place h.reaches tree hat)
  · obtain rfl := h.reaches.unique hreaches
    exact hloses

/-- After its directory has been removed, so is the archive, if there is one. -/
theorem InUse.cleared_of_loses (h : InUse root stem place before world) (hstem : isName stem)
    (hbears : Bears root stem place world) (hloses : Loses world (place ++ [stem]) after) :
    Cleared stem place before (after.reply (.removeFile (join root (stem ++ ".zip")))).2 := by
  have hapart : Apart (place ++ [stem]) (place ++ [stem ++ ".zip"]) := apart_of_ne (ne_archive stem)
  have hafter := hbears.loses hloses (.inl rfl)
  have hproper : after.tree.isProper := hloses.isProper h.proper (h.isName_place hstem)
  have hfree : after.tree.kindAt (place ++ [stem]) = none := hloses.kindAt_self List.prefix_rfl
  -- Elsewhere the loss of the directory changes nothing.
  have hsame (q : List String) (hq : Apart (place ++ [stem]) q)
      (hq' : Apart (place ++ [stem ++ ".zip"]) q) : after.tree.at? q = before.tree.at? q := by
    rw [hloses.at?_of_apart hq.not_below hq.not_above]
    exact h.elsewhere q hq hq'
  have hcontents (q : List String) (hq : ¬ place ++ [stem] <+: q)
      (hq' : ¬ place ++ [stem ++ ".zip"] <+: q) :
      after.tree.contentsAt? q = before.tree.contentsAt? q := by
    rw [hloses.contentsAt?_of_not_below hq]
    exact h.contents q hq fun heq => hq' (heq ▸ List.prefix_rfl)
  -- The archive is removed, or there was none that could be removed.
  rcases settle_remove_cases (isName_archive hstem) with ⟨heq, hnone⟩ | ⟨parent, hreaches, hlast⟩
  · have hreply : (after.reply (.removeFile (join root (stem ++ ".zip")))).2 = after := heq
    rw [hreply]
    refine ⟨hproper, hfree, ?_, hsame, hcontents⟩
    have hkind := hloses.kindAt_of_not_below hapart.not_below
    -- An archive that is there is a file at an allowed path, which can always be removed.
    rcases h.archive with harchive | ⟨harchive, hallowed⟩
    · rw [hkind, harchive]
    · rw [harchive] at hkind
      obtain ⟨contents, mode, modified, hat⟩ := kindAt_eq_file_iff.mp hkind
      exact absurd rfl (hnone hallowed place hafter.reaches _ hat)
  · obtain rfl := hafter.reaches.unique hreaches
    have hlast : Loses after (parent ++ [stem ++ ".zip"])
        (after.reply (.removeFile (join root (stem ++ ".zip")))).2 := hlast
    refine ⟨hlast.isProper hproper (h.isName_of_owned hstem (.inr rfl)), ?_,
      hlast.kindAt_self List.prefix_rfl, fun q hq hq' => ?_, fun q hq hq' => ?_⟩
    · rw [hlast.kindAt_of_not_below hapart.not_above, hfree]
    · rw [hlast.at?_of_apart hq'.not_below hq'.not_above]
      exact hsame q hq hq'
    · rw [hlast.contentsAt?_of_not_below hq']
      exact hcontents q hq hq'

/-- To remove a workspace is to ask for two removals. -/
theorem Workspace.replies_of_remove {workspace : Workspace} {reply : Unit}
    (hrun : Runs workspace.remove world reply after) : ∃ first middle second,
      Replies world (.removeDirectory workspace.directory) first middle ∧
        Replies middle (.removeFile workspace.archive) second after := by
  obtain ⟨first, middle, hdirectory, hrest⟩ := runs_bind_iff.mp hrun
  obtain ⟨second, last, harchive, hend⟩ := runs_bind_iff.mp hrest
  obtain ⟨-, rfl⟩ := runs_done_iff.mp hend
  exact ⟨first, middle, second, runs_request_iff.mp hdirectory, runs_request_iff.mp harchive⟩

/-- To remove a workspace that is in use is to clear it away. -/
theorem InUse.cleared_of_remove (h : InUse root stem place before world) (hstem : isName stem)
    (hbears : Bears root stem place world) {reply : Unit}
    (hrun : Runs (Workspace.remove ⟨join root stem, join root (stem ++ ".zip")⟩) world reply after) :
    Cleared stem place before after := by
  obtain ⟨first, middle, second, hdirectory, harchive⟩ := Workspace.replies_of_remove hrun
  obtain rfl := hdirectory.of_isRemoval rfl
  obtain rfl := harchive.of_isRemoval rfl
  exact h.cleared_of_loses hstem hbears (h.loses_directory hstem hbears)

/-- A name of the workspace is not on the way to it. -/
theorem Made.notMem_place (h : Made root stem before world) (hreaches : world.Reaches root place)
    {name : String} (hname : name = stem ∨ name = stem ++ ".zip") : name ∉ place := by
  rcases hname with rfl | rfl
  · exact h.stem_notMem hreaches
  · intro hmem
    have hnone := h.bare place hmem
    rw [hreaches.directory] at hnone
    cases hnone

/-- Nothing has the name of a workspace that has been made and removed. -/
theorem Made.unmentioned (h : Made root stem before world) (hbears : Bears root stem place world)
    (hcleared : Cleared stem place world after) {name : String}
    (hname : name = stem ∨ name = stem ++ ".zip") : after.tree.mentions name = false := by
  refine (mentions_eq_false_iff hcleared.proper).mpr fun q hmem => ?_
  have hnotMem := h.notMem_place hbears.reaches hname
  -- What is below something that is gone is gone.
  have hnone (other : String) (hfree : after.tree.kindAt (place ++ [other]) = none)
      (hbelow : place ++ [other] <+: q) : after.tree.kindAt q = none := by
    obtain ⟨names, rfl⟩ := hbelow
    rcases eq_or_ne names [] with rfl | hnames
    · rw [List.append_nil, hfree]
    · refine Option.eq_none_iff_forall_ne_some.mpr fun kind hkind => ?_
      rw [kindAt_of_append hkind hnames] at hfree
      cases hfree
  -- What is above it has the name only if it is the thing itself.
  have habove (other : String) (hfree : after.tree.kindAt (place ++ [other]) = none)
      (hq : q <+: place ++ [other]) : after.tree.kindAt q = none := by
    rcases prefix_append_cases hq with hplace | ⟨rest, hrest, hlast, rfl⟩
    · exact absurd (hplace.subset hmem) hnotMem
    · obtain ⟨more, hmore⟩ := hlast
      obtain ⟨rfl, -⟩ := (List.append_eq_singleton_iff.mp hmore).resolve_left fun hnil => hrest hnil.1
      exact hfree
  -- The remaining places are apart from both, and there the world is as it was made.
  by_cases hstem : place ++ [stem] <+: q
  · exact hnone _ hcleared.directory hstem
  by_cases harchive : place ++ [stem ++ ".zip"] <+: q
  · exact hnone _ hcleared.archive harchive
  by_cases hstem' : q <+: place ++ [stem]
  · exact habove _ hcleared.directory hstem'
  by_cases harchive' : q <+: place ++ [stem ++ ".zip"]
  · exact habove _ hcleared.archive harchive'
  rw [kindAt, hcleared.elsewhere q ⟨hstem, hstem'⟩ ⟨harchive, harchive'⟩]
  rcases hname with rfl | rfl
  -- The directory of the workspace is the only place of its name in the world that was made.
  · refine Option.eq_none_iff_forall_ne_some.mpr fun kind hkind => ?_
    obtain ⟨-, other, rfl, hother⟩ := h.own q hmem (by rw [kindAt, hkind]; exact Option.some_ne_none _)
    obtain rfl := hbears.reaches.unique hother.reaches
    exact hstem List.prefix_rfl
  · exact h.bare q hmem

end Clearing

/-! ### Workspaces that have been left behind -/

/-- An entry of the directory at a place is a workspace of a project, at least `age` seconds old. -/
def IsLeftover (world : World) (slug : String) (age : Nat) (place : List String) (name : String) :
    Prop :=
  ∃ tree, world.tree.at? (place ++ [name]) = some tree ∧ isWorkspaceName name slug ∧
    isStale world.clock age ⟨name, tree.isDirectory, tree.modified⟩

/-- Some entries of the work root are gone that were left behind. -/
structure Swept (root slug : String) (age : Nat) (before world : World) : Prop where
  proper : world.tree.isProper
  same : world = { before with tree := world.tree }
  within : Within world.tree before.tree
  kinds : ∀ q, world.tree.kindAt q = before.tree.kindAt q ∨ ∃ place name,
    before.Reaches root place ∧ IsLeftover before slug age place name ∧ place ++ [name] <+: q
  contents : ∀ q, world.tree.contentsAt? q = before.tree.contentsAt? q ∨
    world.tree.contentsAt? q = none ∧ ∃ place name, before.Reaches root place ∧
      IsLeftover before slug age place name ∧ place ++ [name] <+: q
  entries : ∀ place name, before.Reaches root place →
    world.tree.at? (place ++ [name]) = before.tree.at? (place ++ [name]) ∨
      world.tree.at? (place ++ [name]) = none ∧ IsLeftover before slug age place name

section Sweeping

variable {root slug : String} {age : Nat} {place : List String} {before world after : World}

namespace Swept

theorem refl (hproper : world.tree.isProper) : Swept root slug age world world where
  proper := hproper
  same := rfl
  within := .refl _
  kinds := fun _ => .inl rfl
  contents := fun _ => .inl rfl
  entries := fun _ _ _ => .inl rfl

theorem here_eq (h : Swept root slug age before world) : world.here = before.here := by
  rw [h.same]

/-- One entry less. -/
theorem loses {name : String} (h : Swept root slug age before world)
    (hreaches : world.Reaches root place) (hname : isName name)
    (hleftover : IsLeftover before slug age place name) (hloses : Loses world (place ++ [name]) after) :
    Swept root slug age before after := by
  have hbefore := hreaches.mono h.here_eq.symm h.within
  obtain ⟨inner, hat, -⟩ := Option.map_eq_some_iff.mp hreaches.directory
  have hplace : ∀ other ∈ place ++ [name], isName other :=
    List.forall_mem_append.mpr ⟨(isProper_at? h.proper hat).2, fun other hother =>
      List.mem_singleton.mp hother ▸ hname⟩
  refine ⟨hloses.isProper h.proper hplace, ?_, hloses.within.trans h.within, fun q => ?_,
    fun q => ?_, fun outer other hroot => ?_⟩
  · rw [hloses.eq_with, h.same]
  -- The lost entry is a leftover, and everything below it went with it.
  · by_cases hq : place ++ [name] <+: q
    · exact .inr ⟨place, name, hbefore, hleftover, hq⟩
    · rw [hloses.kindAt_of_not_below hq]
      exact h.kinds q
  · by_cases hq : place ++ [name] <+: q
    · refine .inr ⟨contentsAt?_eq_none ?_, place, name, hbefore, hleftover, hq⟩
      rw [hloses.kindAt_self hq]
      decide
    · rw [hloses.contentsAt?_of_not_below hq]
      exact h.contents q
  -- Of the other entries of the root none was touched.
  · obtain rfl := hbefore.unique hroot
    by_cases hother : other = name
    · subst hother
      exact .inr ⟨kindAt_eq_none_iff.mp (hloses.kindAt_self List.prefix_rfl), hleftover⟩
    · have hapart : Apart (outer ++ [name]) (outer ++ [other]) := apart_of_ne (Ne.symm hother)
      rw [hloses.at?_of_apart hapart.not_below hapart.not_above]
      exact h.entries outer other hroot

/-- Nothing is swept away but what is removed. -/
theorem removeEntry {entry : DirEntry} (h : Swept root slug age before world)
    (hname : isName entry.name)
    (hleftover : ∀ place, before.Reaches root place → IsLeftover before slug age place entry.name)
    {reply : Except Fault Unit} (hrun : Runs (Export.removeEntry root entry) world reply after) :
    Swept root slug age before after := by
  have hremove (directory : Bool) :
      Swept root slug age before
        (world.settle (world.remove directory (join root entry.name))).2 := by
    rcases settle_remove_cases hname with ⟨heq, -⟩ | ⟨parent, hreaches, hloses⟩
    · rwa [heq]
    · exact h.loses hreaches hname (hleftover parent (hreaches.mono h.here_eq.symm h.within)) hloses
  unfold Export.removeEntry at hrun
  split at hrun
  · obtain rfl := (runs_request_iff.mp hrun).of_isRemoval rfl
    exact hremove true
  · obtain rfl := (runs_request_iff.mp hrun).of_isRemoval rfl
    exact hremove false

theorem removeEntries {entries : List DirEntry} (h : Swept root slug age before world)
    (hentries : ∀ entry ∈ entries, isName entry.name ∧
      ∀ place, before.Reaches root place → IsLeftover before slug age place entry.name)
    {count : Nat} (hrun : Runs (Export.removeEntries root entries) world count after) :
    Swept root slug age before after := by
  induction entries generalizing world count after with
  | nil =>
      obtain ⟨-, rfl⟩ := runs_done_iff.mp hrun
      exact h
  | cons entry entries ih =>
      obtain ⟨⟨hname, hleftover⟩, hrest⟩ := List.forall_mem_cons.mp hentries
      obtain ⟨result, first, hfirst, hothers⟩ := runs_bind_iff.mp hrun
      obtain ⟨removed, second, hsecond, hend⟩ := runs_bind_iff.mp hothers
      have hall := ih (h.removeEntry hname hleftover hfirst) hrest hsecond
      cases result with
      | ok =>
          obtain ⟨-, rfl⟩ := runs_done_iff.mp hend
          exact hall
      | error =>
          obtain ⟨-, rfl⟩ := runs_done_iff.mp hend
          exact hall

end Swept

/-- Whatever is refused, nothing is swept away but what was left behind. -/
theorem swept_of_runs (hproper : before.tree.isProper) {count : Nat}
    (hrun : Runs (sweep root slug age) before count after) : Swept root slug age before after := by
  obtain ⟨reply, first, hentries, hrest⟩ := runs_bind_iff.mp hrun
  have hlisted := runs_request_iff.mp hentries
  obtain rfl := hlisted.eq_of_isQuestion rfl
  cases reply with
  | error fault =>
      -- The root is not there or cannot be listed, and nothing is swept.
      obtain ⟨-, rfl⟩ := runs_done_iff.mp hrest
      exact .refl hproper
  | ok found =>
      obtain ⟨now, second, htime, hremove⟩ := runs_bind_iff.mp hrest
      have hnow := runs_request_iff.mp htime
      obtain rfl := hnow.eq_of_isQuestion rfl
      obtain rfl := hnow.of_time
      obtain ⟨place, entries, modified, hreaches, hat, rfl⟩ :=
        (entries_eq_ok_iff.mp hlisted.of_entries).2
      -- Entries are removed only if they were found in the root, with a name of the project and old
      -- enough.
      refine (Swept.refl hproper).removeEntries (fun entry hentry => ?_) hremove
      obtain ⟨hlist, hstale⟩ := List.mem_filter.mp hentry
      obtain ⟨⟨name, tree⟩, hmem, rfl⟩ := List.mem_map.mp hlist
      have hentries : areProper entries := by
        have hinner := (isProper_at? hproper hat).1
        rwa [isProper] at hinner
      have hname : isName name := ((areProper_iff.mp hentries).2 (name, tree) hmem).1
      refine ⟨hname, fun other hother => ?_⟩
      obtain rfl := hreaches.unique hother
      -- What was found in the list is what is there under that name, as no name is twice in it.
      refine ⟨tree, ?_, Bool.and_eq_true_iff.mp hstale⟩
      rw [at?_append, hat, Option.bind_some, at?_directory_cons,
        (lookup_eq_some_iff hentries).mpr hmem]
      exact at?_nil tree

end Sweeping

end Wireframe.Export
