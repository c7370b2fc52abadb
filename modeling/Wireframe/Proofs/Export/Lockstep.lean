/-
Filling a workspace beside others.

Step by step, an export that fills its workspace is replied the same as if there were nobody else, and in
the end it has the same result.

* `Stands` — a skeleton that stays where it is;
* `Lockstep` — a script that does the same whatever others do;
* `lockstep_copySkeleton`, `lockstep_writeSources`, `lockstep_writeArchive` — the steps;
* `lockstep_pack` — all of them.
-/
import Wireframe.Proofs.Export.Filling
import Wireframe.Proofs.Export.TwinReplies

namespace Wireframe.Export

open Files World Tree

/-- A skeleton that is at a place whatever becomes of workspaces, and of which no part is in one of
them. -/
structure Stands (site : Site) (source : String) (origin : List String) : Prop where
  reaches : ∀ world : World, world.here = site.here → site.Varies world.tree →
    world.Reaches source origin
  apart : ∀ names name, site.IsOurs name → Apart (site.place ++ [name]) (origin ++ names)

/-- Whatever others do, the script does what it does in a world in which there is nobody else. -/
def Lockstep {α : Type} (site : Site) (stem : String) (others : List String) (quiet : World → Prop)
    (script : Script α) : Prop :=
  ∀ alone among, Twin site stem alone among →
    Sound (Relies site (namesOf stem) others quiet) (Guarantees site (namesOf stem) others)
      (fun a later => a = (alone.run script).1 ∧ Twin site stem (alone.run script).2 later) script among

section Lockstep

variable {α β : Type} {site : Site} {stem source path : String} {others origin names : List String}
  {quiet : World → Prop} {alone among : World}

/-! ### Scripts and jobs -/

namespace Lockstep

theorem done (a : α) : Lockstep site stem others quiet (.done a) :=
  fun _ _ htwin _ hlater => ⟨rfl, htwin.relies hlater⟩

theorem request {request : Request}
    (h : ∀ alone among, Twin site stem alone among → Agree site stem others alone among request) :
    Lockstep site stem others quiet (Script.request request) := by
  refine fun alone among htwin => .request fun later hlater => ?_
  obtain ⟨hreply, hafter, hguarantees⟩ := h alone later (htwin.relies hlater)
  exact ⟨hguarantees, fun last hlast => ⟨hreply, hafter.relies hlast⟩⟩

/-- One script after the other; what has come of the first one has come of it where there is nobody
else. -/
theorem bind {script : Script β} {f : β → Script α} (h : Lockstep site stem others quiet script)
    (hf : ∀ alone among, Twin site stem alone among →
      Lockstep site stem others quiet (f (alone.run script).1)) :
    Lockstep site stem others quiet (script.bind f) := by
  intro alone among htwin
  rw [run_bind]
  refine (h alone among htwin).bind (isRely_relies quiet) ?_
  rintro b later ⟨rfl, hlater⟩
  exact hf alone among htwin _ _ hlater

end Lockstep

/-- The job does what it does where there is nobody else. -/
def LockstepJob (site : Site) (stem : String) (others : List String) (quiet : World → Prop)
    (job : Job α) : Prop := Lockstep site stem others quiet job.run

namespace LockstepJob

variable {job : Job α}

theorem pure (a : α) : LockstepJob site stem others quiet (pure a : Job α) := .done _

theorem throw (failure : Failure) : LockstepJob site stem others quiet (throw failure : Job α) := .done _

theorem settle (result : Except Failure α) : LockstepJob site stem others quiet (Job.settle result) :=
  .done _

/-- What comes after a step is done if the step has had a result. -/
theorem bind {f : α → Job β} (hjob : LockstepJob site stem others quiet job)
    (hf : ∀ alone among a, Twin site stem alone among → (alone.run job.run).1 = .ok a →
      LockstepJob site stem others quiet (f a)) :
    LockstepJob site stem others quiet (job >>= f) := by
  refine Lockstep.bind hjob fun alone among htwin => ?_
  have hcont : Lockstep site stem others quiet (ExceptT.bindCont f (alone.run job.run).1) := by
    cases hresult : (alone.run job.run).1 with
    | ok a => exact hf alone among a htwin hresult
    | error failure => exact .done _
  exact hcont

theorem attempt {script : Script (Except Fault α)} {failure : String → Failure}
    (h : Lockstep site stem others quiet script) :
    LockstepJob site stem others quiet (attempt script failure) := by
  refine Lockstep.bind h fun alone among _ => ?_
  cases (alone.run script).1 with
  | ok a => exact .done _
  | error fault => exact .done _

theorem obtain {script : Script α} (h : Lockstep site stem others quiet script) :
    LockstepJob site stem others quiet (obtain script) := by
  refine Lockstep.bind h fun alone among _ => ?_
  exact .done _

end LockstepJob

/-- A step that may be refused has the result of its script. -/
theorem run_attempt {world : World} {script : Script (Except Fault α)} {failure : String → Failure}
    {a : α} (h : (world.run (attempt script failure).run).1 = .ok a) :
    (world.run script).1 = .ok a := by
  have hbind : world.run (attempt script failure).run = _ := run_bind script _ world
  rw [hbind] at h
  cases hscript : (world.run script).1 with
  | ok b =>
      rw [hscript] at h
      exact congrArg Except.ok (Except.ok.inj h)
  | error fault =>
      rw [hscript] at h
      cases h

/-! ### The skeleton -/

namespace Stands

/-- What is in the skeleton is the same in both worlds but for times. -/
theorem at?_same (h : Stands site source origin) (htwin : Twin site stem alone among)
    (names : List String) : (among.tree.at? (origin ++ names)).map timeless =
      (alone.tree.at? (origin ++ names)).map timeless := by
  rw [htwin.varies.trees _ (h.apart names), htwin.variesAmong.trees _ (h.apart names)]

theorem found_eq (h : Stands site source origin) (htwin : Twin site stem alone among) :
    among.found source = alone.found source := by
  by_cases hempty : source = ""
  · subst hempty
    rfl
  · have hlocate {world : World} (hreaches : world.Reaches source origin) :
        world.locate? true source = some origin := ((reaches_iff hempty).mp hreaches).1
    have hsame := h.at?_same htwin []
    rw [List.append_nil] at hsame
    rw [found_of_locate? (hlocate (h.reaches among htwin.here_among htwin.variesAmong)),
      found_of_locate? (hlocate (h.reaches alone htwin.here htwin.varies)), hsame]

/-- The path of a file of the skeleton leads to the file. -/
theorem found_file_eq (h : Stands site source origin) (htwin : Twin site stem alone among)
    (hnames : AreNames names) (hfile : alone.tree.kindAt (origin ++ names) = some .file) :
    among.found (join source (relative names)) = alone.found (join source (relative names)) := by
  have hlocate {world : World} (hreaches : world.Reaches source origin)
      (hfile : world.tree.kindAt (origin ++ names) = some .file) :
      world.locate? true (join source (relative names)) = some (origin ++ names) := by
    obtain ⟨left, hleads⟩ := hreaches.leads
    refine (locate?_join_iff (isAbsolute_relative hnames)).mpr ⟨left, origin, hleads, ?_⟩
    rw [pieces_relative hnames]
    exact walk_to_file hnames.ne_nil (fun name hname => notMem_of_isName (hnames.names name hname))
      hfile
  have hsame := h.at?_same htwin names
  have hfile' : among.tree.kindAt (origin ++ names) = some .file := by
    rw [htwin.variesAmong.kinds _ fun name hname => (h.apart names name hname).not_below,
      ← htwin.varies.kinds _ fun name hname => (h.apart names name hname).not_below, hfile]
  rw [found_of_locate? (hlocate (h.reaches among htwin.here_among htwin.variesAmong) hfile'),
    found_of_locate? (hlocate (h.reaches alone htwin.here htwin.varies) hfile), hsame]

end Stands

/-! ### Copying -/

section Steps

variable (hfirm : site.IsFirm) (howner : IsOwner site stem others)

include hfirm howner

/-- What is copied is in the skeleton. -/
theorem lockstep_copyItem (hstands : Stands site source origin) {item : Item}
    (hitem : AreNames item.names)
    (hfile : ∀ names, item = .file names → site.made.kindAt (origin ++ names) = some .file) :
    LockstepJob site stem others quiet (copyItem source (join site.root stem) item) := by
  cases item with
  | directory names =>
      refine .bind (.attempt (.request fun alone among htwin => ?_)) fun _ _ _ _ _ => .pure _
      exact htwin.agree_makeDirectory hfirm howner hitem
  | file names =>
      refine .bind (.attempt (.request fun alone among htwin => ?_)) fun _ _ _ _ _ => .pure _
      refine htwin.agree_copy hfirm howner (.inside hitem) (.inl ⟨names, hitem, rfl⟩)
        (hstands.found_file_eq htwin hitem ?_)
      rw [htwin.varies.kinds _ fun name hname => (hstands.apart names name hname).not_below]
      exact hfile names rfl

theorem lockstep_copyItems (hstands : Stands site source origin) {items : List Item}
    (hitems : ∀ item ∈ items, AreNames item.names ∧
      ∀ names, item = .file names → site.made.kindAt (origin ++ names) = some .file) :
    LockstepJob site stem others quiet (copyItems source (join site.root stem) items) := by
  induction items with
  | nil => exact .pure _
  | cons item items ih =>
      obtain ⟨⟨hitem, hfile⟩, hrest⟩ := List.forall_mem_cons.mp hitems
      refine .bind (lockstep_copyItem hfirm howner hstands hitem hfile) fun _ _ _ _ _ => ?_
      exact .bind (ih hrest) fun _ _ _ _ _ => .pure _

theorem lockstep_copySkeleton (hstands : Stands site source origin) (deny : List String) :
    LockstepJob site stem others quiet (copySkeleton source (join site.root stem) deny) := by
  refine .bind (.attempt (.request fun alone among htwin => ?_)) fun alone among shape htwin hrun => ?_
  -- Both worlds see the same skeleton, which is apart from the workspace.
  · exact htwin.agree_survey (hstands.found_eq htwin) (enters deny)
  · have hsurvey : alone.survey source (enters deny) = .ok shape := run_attempt hrun
    obtain ⟨hempty, place, tree, hlocate, hat, rfl⟩ := exists_of_survey hsurvey
    have hreaches := hstands.reaches alone htwin.here htwin.varies
    obtain rfl := Option.some.inj (((reaches_iff hempty).mp hreaches).1.symm.trans hlocate)
    have hproper := (isProper_at? htwin.varies.proper hat).1
    have hdirectory : tree.isDirectory = true := by
      have hkind := World.isDirectory_iff.mpr hreaches.directory
      rw [hat] at hkind
      exact hkind
    rw [plan_seen_enters]
    -- All files of the plan are files in the world that was surveyed, and stay so.
    refine lockstep_copyItems hfirm howner hstands fun item hitem =>
      ⟨areNames_of_mem_plan hproper item hitem, ?_⟩
    rintro names rfl
    have hmem : names ∈ (plan deny tree.shape).filterMap Item.file? :=
      List.mem_filterMap.mpr ⟨_, hitem, rfl⟩
    rw [files_plan hproper hdirectory] at hmem
    obtain ⟨⟨found, contents⟩, hfound, rfl⟩ := List.mem_map.mp (List.mem_filter.mp hmem).1
    have hcontents := (mem_files_iff tree hproper).mp hfound
    rw [List.nil_append, ← htwin.varies.kinds _ fun name hname =>
      (hstands.apart found name hname).not_below, kindAt, at?_append, hat]
    exact kindAt_of_contentsAt? hcontents

/-! ### Writing generated code -/

theorem lockstep_writeFile (hpath : IsPathTo site.root stem path names)
    (hnames : IsOwnPlace stem names) (contents : Bytes) :
    Lockstep site stem others quiet (writeFile path contents) := by
  refine .bind (.request fun alone among htwin => htwin.agree_create hfirm howner hpath hnames)
    fun alone among _ => ?_
  cases (alone.run (Script.request (.create path))).1 with
  | error fault => exact .done _
  | ok => exact .request fun alone among htwin => htwin.agree_append hfirm howner hpath hnames contents

theorem lockstep_writeSource {file : App.SourceFile} (hfile : IsNested file.path) :
    LockstepJob site stem others quiet (writeSource (join site.root stem) file) := by
  obtain ⟨names, name, hnames, hname, hpath⟩ := hfile.split
  have hall : AreNames (names ++ [name]) := hnames.append (List.forall_mem_singleton.mpr hname)
  unfold writeSource
  simp only [hfile.relative, Bool.not_true, Bool.false_eq_true, if_false]
  rw [hpath, parent_join hnames hname]
  refine .bind (.attempt (.request fun alone among htwin => ?_)) fun _ _ _ _ _ => ?_
  · exact htwin.agree_makeDirectory hfirm howner hnames
  · exact .attempt (lockstep_writeFile hfirm howner (.inside hall) (.inl ⟨_, hall, rfl⟩) _)

theorem lockstep_writeSources {files : List App.SourceFile}
    (hfiles : ∀ file ∈ files, IsNested file.path) :
    LockstepJob site stem others quiet (writeSources (join site.root stem) files) := by
  induction files with
  | nil => exact .pure _
  | cons file files ih =>
      obtain ⟨hfile, hrest⟩ := List.forall_mem_cons.mp hfiles
      refine .bind (lockstep_writeSource hfirm howner hfile) fun _ _ _ _ _ => ?_
      exact .bind (ih hrest) fun _ _ _ _ _ => .pure _

/-! ### The archive -/

omit hfirm howner in
theorem lockstep_addEntry (archiver : Archiver) (added : List Archive.Entry) (entry : Archive.Entry) :
    LockstepJob site stem others quiet (addEntry archiver added entry) :=
  .bind (.settle _) fun _ _ _ _ _ => .bind (.settle _) fun _ _ _ _ _ => .pure _

theorem lockstep_archiveEntry (archiver : Archiver) (added : List Archive.Entry)
    (hnames : AreNames names) : LockstepJob site stem others quiet
      (archiveEntry archiver (join site.root stem) added (relative names)) := by
  unfold archiveEntry
  refine .bind (.attempt (.request fun alone among htwin => ?_)) fun _ _ contents _ _ => ?_
  · exact htwin.agree_read hfirm howner (.inside hnames)
  refine .bind (.obtain (.request fun alone among htwin => ?_)) fun _ _ executable _ _ => ?_
  · exact htwin.agree_isExecutable hfirm howner (.inside hnames)
  by_cases hescapes : escapes (relative names)
  · simp only [hescapes, if_true]
    exact .bind (.throw _) fun _ _ _ _ _ => lockstep_addEntry archiver added _
  · simp only [hescapes]
    exact lockstep_addEntry archiver added _

theorem lockstep_archiveEntries (archiver : Archiver) (added : List Archive.Entry)
    {files : List String} (hfiles : ∀ file ∈ files, ∃ names, AreNames names ∧ file = relative names) :
    LockstepJob site stem others quiet
      (archiveEntries archiver (join site.root stem) added files) := by
  induction files generalizing added with
  | nil => exact .pure _
  | cons file files ih =>
      obtain ⟨⟨names, hnames, rfl⟩, hrest⟩ := List.forall_mem_cons.mp hfiles
      exact .bind (lockstep_archiveEntry hfirm howner archiver added hnames)
        fun _ _ _ _ _ => ih _ hrest

theorem lockstep_writeArchive (archiver : Archiver) :
    LockstepJob site stem others quiet
      (writeArchive archiver (join site.root stem) (join site.root (stem ++ ".zip"))) := by
  refine .bind (.attempt (.request fun alone among htwin => ?_)) fun alone among shape htwin hrun => ?_
  · exact htwin.agree_survey (htwin.found_eq hfirm howner .directory) (enters [])
  have hsurvey : alone.survey (join site.root stem) (enters []) = .ok shape := run_attempt hrun
  obtain ⟨-, place, tree, -, hat, rfl⟩ := exists_of_survey hsurvey
  have hfiles : ∀ file ∈ fileNames (tree.shape.seen (enters [])),
      ∃ names, AreNames names ∧ file = relative names := by
    intro file hfile
    rw [fileNames, plan_seen_enters] at hfile
    obtain ⟨item, hitem, hname⟩ := List.mem_filterMap.mp (List.mem_mergeSort.mp hfile)
    have hnames := areNames_of_mem_plan (isProper_at? htwin.varies.proper hat).1 item hitem
    cases item with
    | file names => exact ⟨names, hnames, (Option.some.inj hname).symm⟩
    | directory => cases hname
  refine .bind (.attempt (.request fun alone among htwin => ?_)) fun _ _ _ _ _ => ?_
  · exact htwin.agree_create hfirm howner .archive (.inr rfl)
  refine .bind (lockstep_archiveEntries hfirm howner archiver [] hfiles) fun _ _ _ _ _ => ?_
  refine .bind (.settle _) fun _ _ _ _ _ => ?_
  refine .bind (.attempt (.request fun alone among htwin => ?_)) fun _ _ _ _ _ => .pure _
  exact htwin.agree_append hfirm howner .archive (.inr rfl) _

/-! ### All steps -/

/-- Whatever others do, what is packed and handed out is what is packed and handed out where there is
nobody else. -/
theorem lockstep_pack (archiver : Archiver) {project : Design.Project} {sources : App.Sources}
    {options : Options} (hstands : Stands site options.skeleton origin)
    (hfiles : ∀ file ∈ sources.files, IsNested file.path) :
    LockstepJob site stem others quiet (pack archiver project sources options
      ⟨join site.root stem, join site.root (stem ++ ".zip")⟩) := by
  unfold pack
  refine .bind (lockstep_copySkeleton hfirm howner hstands _) fun _ _ _ _ _ => ?_
  refine .bind (lockstep_writeSources hfirm howner hfiles) fun _ _ _ _ _ => ?_
  refine .bind (lockstep_writeArchive hfirm howner archiver) fun _ _ _ _ _ => ?_
  refine .bind (.attempt (.request fun alone among htwin => ?_)) fun _ _ _ _ _ => ?_
  · exact htwin.agree_read hfirm howner .archive
  refine .bind (.attempt (.request fun alone among htwin => htwin.agree_send _)) fun _ _ _ _ _ => ?_
  exact .pure _

end Steps

end Lockstep

end Wireframe.Export
