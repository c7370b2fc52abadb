/-
What an export leaves behind.

Whatever the system refuses, an export takes away what it has made, and nothing else but what was left
behind by others.  An export that comes to nothing changes nothing.

* `Restored` — a work root in which nothing of a workspace is left;
* `restored_of_runs` — an export leaves such a work root;
* `IsDirect` — a work root whose path does not depend on the workspaces in it;
* `exists_swept_of_runs` — what an export does one after the other;
* `Traceless`, `traceless_of_runs` — what an export leaves behind, all in all.
-/
import Wireframe.Export.StoredArchive
import Wireframe.Proofs.App.Generation
import Wireframe.Proofs.Export.Clearing
import Wireframe.Proofs.Export.Filling
import Wireframe.Proofs.Export.WorkspaceName

namespace Wireframe.Export

open Files World Tree

/-! ### In a workspace -/

/-- Nothing has the name of the workspace, all files are as before, and so is everything else in the
work root. -/
structure Restored (root stem : String) (before after : World) : Prop where
  directory : after.tree.mentions stem = false
  archive : after.tree.mentions (stem ++ ".zip") = false
  contents : ∀ q, after.tree.contentsAt? q = before.tree.contentsAt? q
  elsewhere : ∀ place q, before.Reaches root place → Apart (place ++ [stem]) q →
    Apart (place ++ [stem ++ ".zip"]) q → after.tree.at? q = before.tree.at? q

section Traces

variable {archiver : Archiver} {root stem : String} {before world after : World}

/-- Making a workspace and working in it: either there is no workspace, or it is in use. -/
theorem made_of_runs_fill (hproper : before.tree.isProper) (hname : isName stem)
    (hstem : IsNew before root stem) (harchive : IsNew before root (stem ++ ".zip"))
    {project : Design.Project} {sources : App.Sources} {options : Options}
    (hfiles : ∀ file ∈ sources.files, IsNested file.path) {result : Except Failure Summary}
    (hrun : Runs (fill archiver project sources options ⟨join root stem, join root (stem ++ ".zip")⟩).run
      before result world) :
    (∀ failure, result = .error failure → failure.category = .packaging) ∧
    ∃ made, Made root stem before made ∧
      ((world = made ∧ ∀ place, made.tree.kindAt (place ++ [stem]) = none) ∨
        ∃ place, Bears root stem place made ∧ InUse root stem place made world) := by
  have hmakes {reply : Except Fault Unit} {made : World}
      (hreply : Replies before (.makeDirectory (join root stem)) reply made) :
      Made root stem before made := Made.of_replies hproper hname hstem harchive rfl hreply
  obtain ⟨created, made, hcreate, hpack⟩ | ⟨failure, rfl, hcreate⟩ := hrun.of_job_bind
  -- The directory is made, and packing keeps what belongs to others.
  · obtain ⟨_, -, hcreate⟩ | ⟨fault, hfault, -⟩ := hcreate.of_attempt
    · have hreply := runs_request_iff.mp hcreate
      have hmade := hmakes hreply
      obtain ⟨place, hplace⟩ := exists_of_makeDirectory hname hreply.of_makeDirectory
      obtain ⟨hbears, hinUse⟩ := hmade.inUse hplace
      obtain ⟨hworld, hfailure⟩ := keeps_pack hname archiver options hfiles made result world hinUse hpack
      exact ⟨hfailure, made, hmade, .inr ⟨place, hbears, hworld⟩⟩
    · cases hfault
  -- Making it fails, and leaves a part of the way to it, or the directory itself.
  · obtain ⟨_, hok, -⟩ | ⟨fault, hfault, hcreate⟩ := hcreate.of_attempt
    · cases hok
    · have hmade := hmakes (runs_request_iff.mp hcreate)
      refine ⟨fun other hother => ?_, world, hmade, ?_⟩
      · rw [← Except.error.inj hother, Except.error.inj hfault]
        rfl
      -- Whether the directory is there is asked of all places, as the root may not be reached.
      · by_cases hplace : ∃ place, world.tree.kindAt (place ++ [stem]) ≠ none
        · obtain ⟨place, hplace⟩ := hplace
          exact .inr ⟨place, hmade.inUse hplace⟩
        · exact .inl ⟨rfl, by simpa using hplace⟩

/-- Where there is no workspace, there is nothing to remove. -/
theorem Made.eq_of_remove (h : Made root stem before world) (hname : isName stem)
    (hnone : ∀ place, world.tree.kindAt (place ++ [stem]) = none) {reply : Unit}
    (hrun : Runs (Workspace.remove ⟨join root stem, join root (stem ++ ".zip")⟩) world reply after) :
    after = world := by
  obtain ⟨first, middle, second, hdirectory, harchive⟩ := Workspace.replies_of_remove hrun
  have hmiddle : middle = world := by
    rw [hdirectory.of_isRemoval rfl]
    rcases settle_remove_cases hname with ⟨heq, -⟩ | ⟨parent, -, hloses⟩
    · exact heq
    · exact absurd (hnone parent) hloses.there
  subst hmiddle
  rw [harchive.of_isRemoval rfl]
  rcases settle_remove_cases (isName_archive hname) with ⟨heq, -⟩ | ⟨parent, -, hloses⟩
  · exact heq
  · exact absurd (h.bare _ (List.mem_append_right _ (List.mem_singleton_self _))) hloses.there

/-- A workspace that has been made and is removed leaves the work root as it was. -/
theorem restored_of_runs (hproper : before.tree.isProper) (hname : isName stem)
    (hstem : IsNew before root stem) (harchive : IsNew before root (stem ++ ".zip"))
    {project : Design.Project} {sources : App.Sources} {options : Options}
    (hfiles : ∀ file ∈ sources.files, IsNested file.path) {result : Except Failure Summary}
    {reply : Unit}
    (hfill : Runs (fill archiver project sources options ⟨join root stem, join root (stem ++ ".zip")⟩).run
      before result world)
    (hremove : Runs (Workspace.remove ⟨join root stem, join root (stem ++ ".zip")⟩) world reply after) :
    Restored root stem before after := by
  obtain ⟨-, made, hmade, ⟨rfl, hnone⟩ | ⟨place, hbears, hinUse⟩⟩ :=
    made_of_runs_fill hproper hname hstem harchive hfiles hfill
  · obtain rfl := hmade.eq_of_remove hname hnone hremove
    refine ⟨(mentions_eq_false_iff hmade.proper).mpr fun q hmem => ?_,
      (mentions_eq_false_iff hmade.proper).mpr hmade.bare, hmade.contents,
      fun place q hreaches hapart _ => hmade.elsewhere place q hreaches hapart⟩
    refine Option.eq_none_iff_forall_ne_some.mpr fun kind hkind => ?_
    obtain ⟨-, place, rfl, -⟩ := hmade.own q hmem (by rw [hkind]; exact Option.some_ne_none _)
    rw [hnone place] at hkind
    cases hkind
  · have hworld := hbears.mono hinUse.here hinUse.within
    have hcleared := hinUse.cleared_of_remove hname hworld hremove
    have hdirectory := hmade.unmentioned hbears hcleared (.inl rfl)
    have harchived := hmade.unmentioned hbears hcleared (.inr rfl)
    -- nothing with one of the names has any contents, neither before nor after that
    have hnone {name : String} (hnew : IsNew before root name)
        (hgone : after.tree.mentions name = false) {q : List String} (hq : place ++ [name] <+: q) :
        after.tree.contentsAt? q = before.tree.contentsAt? q := by
      have hmem : name ∈ q := hq.subset (List.mem_append_right _ (List.mem_singleton_self name))
      rw [contentsAt?_eq_none, contentsAt?_eq_none]
      · rw [(mentions_eq_false_iff hproper).mp hnew.unmentioned q hmem]
        decide
      · rw [(mentions_eq_false_iff hcleared.proper).mp hgone q hmem]
        decide
    refine ⟨hdirectory, harchived, fun q => ?_, fun other q hreaches hapart hapart' => ?_⟩
    · by_cases hq : place ++ [stem] <+: q
      · exact hnone hstem hdirectory hq
      by_cases hq' : place ++ [stem ++ ".zip"] <+: q
      · exact hnone harchive harchived hq'
      rw [hcleared.contents q hq hq', hmade.contents]
    obtain rfl := hbears.reaches.unique (hreaches.mono hmade.here hmade.within)
    rw [hcleared.elsewhere q hapart hapart']
    exact hmade.elsewhere other q hreaches hapart

/-! ### All in all -/

/-- The path of the work root leads to a place, whatever becomes of the workspaces of a project in it. -/
structure IsDirect (root slug : String) (world : World) (place : List String) : Prop where
  reaches : world.Reaches root place
  stays : ∀ other : World, other.here = world.here →
    (∀ q, (∀ name, isWorkspaceName name slug → ¬ place ++ [name] <+: q) →
      other.tree.kindAt q = world.tree.kindAt q) → other.Reaches root place

/-- What an export leaves behind: nothing has the name of its directory or of its archive, every file and
every other entry of the work root is as before unless it was left behind by another export of the
project, and nothing at all is different if there is no skeleton or no app. -/
structure Traceless (project : Design.Project) (options : Options) (world : World)
    (result : Except Failure Summary) (after : World) : Prop where
  directory : after.tree.mentions (stemOf project (idText world.issued)) = false
  archive : after.tree.mentions (stemOf project (idText world.issued) ++ ".zip") = false
  contents : ∀ q, after.tree.contentsAt? q = world.tree.contentsAt? q ∨
    after.tree.contentsAt? q = none ∧ ∃ place name, world.Reaches options.workRoot place ∧
      IsLeftover world (slug project) options.staleAfter place name ∧ place ++ [name] <+: q
  entries : ∀ place, IsDirect options.workRoot (slug project) world place → ∀ name,
    name ≠ stemOf project (idText world.issued) →
    name ≠ stemOf project (idText world.issued) ++ ".zip" →
      after.tree.at? (place ++ [name]) = world.tree.at? (place ++ [name]) ∨
        after.tree.at? (place ++ [name]) = none ∧
          IsLeftover world (slug project) options.staleAfter place name
  untouched : (result = .error (.missingSkeleton options.skeleton) ∨
    ∃ failure, App.generate project = .error failure) → after = world

/-- The work root is where it was after the sweep. -/
theorem Swept.reaches {slug : String} {age : Nat} {place : List String}
    (h : Swept root slug age before world) (hdirect : IsDirect root slug before place) :
    world.Reaches root place := by
  refine hdirect.stays world h.here_eq fun q hq => ?_
  rcases h.kinds q with hsame | ⟨other, name, hother, ⟨tree, -, hname, -⟩, hbelow⟩
  · exact hsame
  · obtain rfl := hdirect.reaches.unique hother
    exact absurd hbelow (hq name hname)

/-- Sweeping the work root leaves a new name new, whichever number is the next one. -/
theorem Swept.isNew {slug name : String} {age : Nat} (h : Swept root slug age before world)
    (hproper : before.tree.isProper) (hname : IsNew before root name) (issued : Nat) :
    IsNew { world with issued } root name where
  unmentioned := h.within.mentions h.proper hproper hname.unmentioned
  beside := hname.beside

/-- What an export of code does one after the other: it sweeps the work root, makes and fills the
workspace that has the next number, and removes it, whatever has come of it. -/
theorem exists_swept_of_runs {project : Design.Project} {sources : App.Sources} {options : Options}
    {result : Except Failure Summary} (hproper : world.tree.isProper)
    (hrun : Runs (exportSources archiver project sources options) world result after) :
    ∃ swept filled reply,
      Swept options.workRoot (slug project) options.staleAfter world swept ∧
      Runs (fill archiver project sources options
        (.of options.workRoot (slug project) (idText world.issued))).run
        { swept with issued := world.issued + 1 } result filled ∧
      Runs (Workspace.remove (.of options.workRoot (slug project) (idText world.issued)))
        filled reply after := by
  obtain ⟨count, swept, hsweep, hrest⟩ := runs_bind_iff.mp hrun
  obtain ⟨id, started, hid, hwork⟩ := runs_bind_iff.mp hrest
  obtain ⟨_, filled, hfill, hend⟩ := runs_bind_iff.mp hwork
  obtain ⟨reply, cleared, hremove, hdone⟩ := runs_bind_iff.mp hend
  obtain ⟨rfl, rfl⟩ := runs_done_iff.mp hdone
  have hswept := swept_of_runs hproper hsweep
  obtain ⟨rfl, rfl⟩ := (runs_request_iff.mp hid).of_freshId
  -- the number is the next one, whatever has been swept away
  have hissued : swept.issued = world.issued := by
    rw [hswept.same]
  rw [hissued] at hfill hremove
  exact ⟨swept, filled, reply, hswept, hfill, hremove⟩

/-- An export for which there is a skeleton and an app: it sweeps, makes its workspace and removes it. -/
theorem traceless_of_runs_exportSources {project : Design.Project} {sources : App.Sources}
    {options : Options} {result : Except Failure Summary} (hproper : world.tree.isProper)
    (hstem : IsNew world options.workRoot (stemOf project (idText world.issued)))
    (harchive : IsNew world options.workRoot (stemOf project (idText world.issued) ++ ".zip"))
    (hgenerate : App.generate project = .ok sources)
    (hrun : Runs (exportSources archiver project sources options) world result after) :
    Traceless project options world result after := by
  have hname := isName_stemOf project world.issued
  have hfiles := isNested_of_generate hgenerate
  obtain ⟨swept, filled, reply, hswept, hfill, hremove⟩ := exists_swept_of_runs hproper hrun
  have hstarted : ({ swept with issued := world.issued + 1 } : World).tree.isProper := hswept.proper
  have hstem' := hswept.isNew hproper hstem (world.issued + 1)
  have harchive' := hswept.isNew hproper harchive (world.issued + 1)
  have hrestored := restored_of_runs hstarted hname hstem' harchive' hfiles hfill hremove
  have hfailure := (made_of_runs_fill hstarted hname hstem' harchive' hfiles hfill).1
  refine ⟨hrestored.directory, hrestored.archive, fun q => ?_, fun place hdirect name hne hne' => ?_,
    fun h => ?_⟩
  · rw [hrestored.contents q]
    exact hswept.contents q
  · rw [hrestored.elsewhere place _ ((hswept.reaches hdirect).mono rfl (Within.refl _))
      (apart_of_ne (Ne.symm hne)) (apart_of_ne (Ne.symm hne'))]
    exact hswept.entries place name hdirect.reaches
  · rcases h with rfl | ⟨failure, hfailed⟩
    · -- a skeleton that is missing is no matter of writing
      cases hfailure _ rfl
    · rw [hgenerate] at hfailed
      cases hfailed

/-- Whatever the system refuses, an export leaves no traces. -/
theorem traceless_of_runs {project : Design.Project} {options : Options}
    {result : Except Failure Summary} (hproper : world.tree.isProper)
    (hstem : IsNew world options.workRoot (stemOf project (idText world.issued)))
    (harchive : IsNew world options.workRoot (stemOf project (idText world.issued) ++ ".zip"))
    (hrun : Runs (exportProject archiver project options) world result after) :
    Traceless project options world result after := by
  -- A refusal before the workspace is made leaves the world as it was.
  have hunchanged : Traceless project options world result world :=
    ⟨hstem.unmentioned, harchive.unmentioned, fun _ => .inl rfl, fun _ _ _ _ _ => .inl rfl,
      fun _ => rfl⟩
  obtain ⟨isDirectory, first, hskeleton, hrest⟩ := runs_bind_iff.mp hrun
  obtain rfl := (runs_request_iff.mp hskeleton).eq_of_isQuestion rfl
  cases isDirectory with
  | false =>
      obtain ⟨-, rfl⟩ := runs_done_iff.mp hrest
      exact hunchanged
  | true =>
      cases hgenerate : App.generate project with
      | error failure =>
          simp only [hgenerate] at hrest
          obtain ⟨-, rfl⟩ := runs_done_iff.mp hrest
          exact hunchanged
      | ok sources =>
          simp only [hgenerate] at hrest
          exact traceless_of_runs_exportSources hproper hstem harchive hgenerate hrest

/-- A work root with a workspace that was left behind and something else, and a skeleton with a file in
the place of the directory for the code. -/
def busyDesk : World where
  tree := .directory [
    ("skeleton", .directory [("lib", .file [1] plainMode 0)] 0),
    ("work", .directory [
      ("notes", .file [2] plainMode 0),
      ("project-00000000-0000-4000-8000-00000000abcd", .directory [] 0)] 0)] 0
  clock := 4000

/-- A design with a single screen. -/
def singleScreen : Design.Project where
  screens := [{ id := "screen-home", name := "Home", elements := [] }]

theorem traceless_of_runs_busyDesk :
    busyDesk.tree.isProper ∧
    IsNew busyDesk "work" (stemOf singleScreen (idText 0)) ∧
    IsNew busyDesk "work" (stemOf singleScreen (idText 0) ++ ".zip") ∧
    (busyDesk.run (exportProject Archive.stored singleScreen ⟨"skeleton", "work", [], none, 3600⟩)).1.toOption = none ∧
    Traceless singleScreen ⟨"skeleton", "work", [], none, 3600⟩ busyDesk
      (busyDesk.run (exportProject Archive.stored singleScreen ⟨"skeleton", "work", [], none, 3600⟩)).1
      (busyDesk.run (exportProject Archive.stored singleScreen ⟨"skeleton", "work", [], none, 3600⟩)).2 := by
  have hproper : busyDesk.tree.isProper := by decide +kernel
  have hstem : IsNew busyDesk "work" (stemOf singleScreen (idText 0)) :=
    ⟨by decide +kernel, by decide +kernel⟩
  have harchive : IsNew busyDesk "work" (stemOf singleScreen (idText 0) ++ ".zip") :=
    ⟨by decide +kernel, by decide +kernel⟩
  exact ⟨hproper, hstem, harchive, by decide +kernel,
    traceless_of_runs hproper hstem harchive (runs_run _ _)⟩

end Traces

end Wireframe.Export
