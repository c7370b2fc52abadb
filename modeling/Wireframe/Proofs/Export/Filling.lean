/-
Filling a workspace.

Whatever the system refuses on the way, an export writes in its workspace only, and a step that fails
does so because something could not be written.

* `IsNested`, `isNested_of_generate` — files in directories of their own;
* `keeps_copySkeleton`, `keeps_writeSources`, `keeps_writeArchive` — the steps;
* `keeps_pack` — all of them.
-/
import Wireframe.Export.Project
import Wireframe.Proofs.App.Paths
import Wireframe.Proofs.Export.InUse

namespace Wireframe.Export

open Files World Tree

section Filling

variable {root stem : String} {place : List String} {before : World}

theorem keeps_write {request : Request} {path : String} {reply : request.Reply}
    {world after : World} (hstem : isName stem) (hpath : InUse.IsOwnPath root stem path)
    (htarget : request.target? = some path) (h : InUse root stem place before world)
    (hrun : Runs (Script.request request) world reply after) : InUse root stem place before after :=
  h.write hstem hpath htarget (runs_request_iff.mp hrun)

/-! ### Copying -/

theorem keeps_copyItem (hstem : isName stem) (source : String) {item : Item}
    (hitem : AreNames item.names) :
    Keeps (InUse root stem place before) (copyItem source (join root stem) item) := by
  cases item with
  | directory names =>
      refine .bind (.attempt (fun _ => rfl) fun world reply after h hrun => ?_) fun _ _ _ _ _ => .pure _
      exact h.make hstem hitem rfl (runs_request_iff.mp hrun)
  | file names =>
      refine .bind (.attempt (fun _ => rfl) fun world reply after h hrun => ?_) fun _ _ _ _ _ => .pure _
      exact h.write hstem (.inl ⟨names, hitem, rfl⟩) rfl (runs_request_iff.mp hrun)

theorem keeps_copyItems (hstem : isName stem) (source : String) {items : List Item}
    (hitems : ∀ item ∈ items, AreNames item.names) :
    Keeps (InUse root stem place before) (copyItems source (join root stem) items) := by
  induction items with
  | nil => exact .pure _
  | cons item items ih =>
      obtain ⟨hitem, hrest⟩ := List.forall_mem_cons.mp hitems
      refine .bind (keeps_copyItem hstem source hitem) fun _ _ _ _ _ => ?_
      exact .bind (ih hrest) fun _ _ _ _ _ => .pure _

theorem keeps_copySkeleton (hstem : isName stem) (source : String) (deny : List String) :
    Keeps (InUse root stem place before) (copySkeleton source (join root stem) deny) := by
  refine .bind (.attempt (fun _ => rfl) fun world reply after h hrun => ?_) ?_
  · exact h.look rfl (runs_request_iff.mp hrun)
  · intro world shape after h hrun
    obtain ⟨found, hfound, hrun⟩ | ⟨fault, hfault, -⟩ := hrun.of_attempt
    · obtain rfl := Except.ok.inj hfound
      obtain ⟨-, origin, tree, -, hat, rfl⟩ :=
        exists_of_survey (runs_request_iff.mp hrun).of_survey
      rw [plan_seen_enters]
      exact keeps_copyItems hstem source (areNames_of_mem_plan (isProper_at? h.proper hat).1)
    · cases hfault

/-! ### Writing generated code -/

/-- The path of a file in a directory of its own. -/
structure IsNested (path : String) : Prop where
  relative : isPlainRelative path = true
  split : ∃ names name, AreNames names ∧ isName name ∧ path = Export.relative (names ++ [name])

theorem isNested_of_pieces {path : String} (names : List String) (name : String)
    (h : App.IsPlainPath path) (hpieces : pieces path = names ++ [name]) (hnames : names ≠ []) :
    IsNested path where
  relative := App.isPlainRelative_of_isPlainPath h
  split := by
    have hall : ∀ piece ∈ names ++ [name], isName piece := fun piece hpiece =>
      isName_of_mem_pieces (hpieces ▸ hpiece) (h.names piece (hpieces ▸ hpiece))
    obtain ⟨hbefore, hlast⟩ := List.forall_mem_append.mp hall
    refine ⟨names, name, ⟨hnames, hbefore⟩, hlast name (List.mem_singleton_self name), ?_⟩
    rw [← hpieces, relative_pieces]

/-- The files of an app are in directories of their own. -/
theorem isNested_of_mem_files {project : Design.Project} {file : App.SourceFile}
    (h : file ∈ (App.sourcesOf project).files) : IsNested file.path := by
  have hpath : file.path ∈ (App.sourcesOf project).files.map (·.path) :=
    List.mem_map.mpr ⟨file, h, rfl⟩
  have hplain := App.isPlainPath_of_mem_files h
  rw [App.paths_files] at hpath
  rcases List.mem_cons.mp hpath with hentry | hunit
  · have hpieces : pieces App.Entry.path = ["lib"] ++ ["main.dart"] := by decide +kernel
    exact isNested_of_pieces ["lib"] "main.dart" hplain (hentry ▸ hpieces) (List.cons_ne_nil _ _)
  · obtain ⟨screen, -, hunit⟩ := List.mem_map.mp hunit
    have hpieces : pieces file.path = ["lib", "screens"] ++ [App.fileName screen.name] := by
      rw [← hunit]
      exact App.pieces_unitPath screen.name
    exact isNested_of_pieces _ _ hplain hpieces (List.cons_ne_nil _ _)

theorem isNested_of_generate {project : Design.Project} {sources : App.Sources}
    (h : App.generate project = .ok sources) : ∀ file ∈ sources.files, IsNested file.path := by
  rw [App.eq_sourcesOf_of_generate h]
  exact fun file hfile => isNested_of_mem_files hfile

theorem keeps_writeFile (hstem : isName stem) {path : String}
    (hpath : InUse.IsOwnPath root stem path) (contents : Bytes) {world after : World}
    {reply : Except Fault Unit} (h : InUse root stem place before world)
    (hrun : Runs (writeFile path contents) world reply after) :
    InUse root stem place before after := by
  obtain ⟨created, between, hcreate, hrest⟩ := runs_bind_iff.mp hrun
  have hbetween := keeps_write hstem hpath rfl h hcreate
  cases created with
  | error fault =>
      obtain ⟨-, rfl⟩ := runs_done_iff.mp hrest
      exact hbetween
  | ok => exact keeps_write hstem hpath rfl hbetween hrest

theorem keeps_writeSource (hstem : isName stem) {file : App.SourceFile} (hfile : IsNested file.path) :
    Keeps (InUse root stem place before) (writeSource (join root stem) file) := by
  obtain ⟨names, name, hnames, hname, hpath⟩ := hfile.split
  unfold writeSource
  simp only [hfile.relative, Bool.not_true, Bool.false_eq_true, if_false]
  rw [hpath, parent_join hnames hname]
  refine .bind (.attempt (fun _ => rfl) fun world reply after h hrun => ?_) fun _ _ _ _ _ => ?_
  · exact h.make hstem hnames rfl (runs_request_iff.mp hrun)
  · refine .attempt (fun _ => rfl) fun world reply after h hrun => ?_
    exact keeps_writeFile hstem
      (.inl ⟨_, hnames.append (List.forall_mem_singleton.mpr hname), rfl⟩) _ h hrun

theorem keeps_writeSources (hstem : isName stem) {files : List App.SourceFile}
    (hfiles : ∀ file ∈ files, IsNested file.path) :
    Keeps (InUse root stem place before) (writeSources (join root stem) files) := by
  induction files with
  | nil => exact .pure _
  | cons file files ih =>
      obtain ⟨hfile, hrest⟩ := List.forall_mem_cons.mp hfiles
      refine .bind (keeps_writeSource hstem hfile) fun _ _ _ _ _ => ?_
      exact .bind (ih hrest) fun _ _ _ _ _ => .pure _

/-! ### The archive -/

theorem keeps_addEntry (archiver : Archiver) (added : List Archive.Entry) (entry : Archive.Entry) :
    Keeps (InUse root stem place before) (addEntry archiver added entry) :=
  .bind (.settle fun _ => rfl) fun _ _ _ _ _ => .bind (.settle fun _ => rfl) fun _ _ _ _ _ => .pure _

theorem keeps_archiveEntry (archiver : Archiver) (directory : String)
    (added : List Archive.Entry) (name : String) :
    Keeps (InUse root stem place before) (archiveEntry archiver directory added name) := by
  unfold archiveEntry
  refine .bind (.attempt (fun _ => rfl) fun world reply after h hrun => ?_) fun _ contents _ _ _ => ?_
  · exact h.look rfl (runs_request_iff.mp hrun)
  refine .bind (.obtain fun world reply after h hrun => ?_) fun _ executable _ _ _ => ?_
  · exact h.look rfl (runs_request_iff.mp hrun)
  by_cases hescapes : escapes name
  · simp only [hescapes, if_true]
    exact .bind (.throw rfl) fun _ _ _ _ _ => keeps_addEntry archiver added _
  · simp only [hescapes]
    exact keeps_addEntry archiver added _

theorem keeps_archiveEntries (archiver : Archiver) (directory : String)
    (added : List Archive.Entry) (names : List String) :
    Keeps (InUse root stem place before) (archiveEntries archiver directory added names) := by
  induction names generalizing added with
  | nil => exact .pure _
  | cons name names ih =>
      exact .bind (keeps_archiveEntry archiver directory added name) fun _ _ _ _ _ => ih _

theorem keeps_writeArchive (hstem : isName stem) (archiver : Archiver) (directory : String) :
    Keeps (InUse root stem place before)
      (writeArchive archiver directory (join root (stem ++ ".zip"))) := by
  refine .bind (.attempt (fun _ => rfl) fun world reply after h hrun => ?_) fun _ _ _ _ _ => ?_
  · exact h.look rfl (runs_request_iff.mp hrun)
  refine .bind (.attempt (fun _ => rfl) fun world reply after h hrun => ?_) fun _ _ _ _ _ => ?_
  · exact keeps_write hstem (.inr rfl) rfl h hrun
  refine .bind (keeps_archiveEntries archiver directory _ _) fun _ _ _ _ _ => ?_
  refine .bind (.settle fun _ => rfl) fun _ _ _ _ _ => ?_
  refine .bind (.attempt (fun _ => rfl) fun world reply after h hrun => ?_) fun _ _ _ _ _ => .pure _
  exact keeps_write hstem (.inr rfl) rfl h hrun

/-! ### All steps -/

theorem keeps_pack (hstem : isName stem) (archiver : Archiver) {project : Design.Project}
    {sources : App.Sources} (options : Options) (hfiles : ∀ file ∈ sources.files, IsNested file.path) :
    Keeps (InUse root stem place before)
      (pack archiver project sources options ⟨join root stem, join root (stem ++ ".zip")⟩) := by
  unfold pack
  refine .bind (keeps_copySkeleton hstem _ _) fun _ _ _ _ _ => ?_
  refine .bind (keeps_writeSources hstem hfiles) fun _ _ _ _ _ => ?_
  refine .bind (keeps_writeArchive hstem archiver _) fun _ _ _ _ _ => ?_
  refine .bind (.attempt (fun _ => rfl) fun world reply after h hrun => ?_) fun _ _ _ _ _ => ?_
  · exact h.look rfl (runs_request_iff.mp hrun)
  refine .bind (.attempt (fun _ => rfl) fun world reply after h hrun => ?_) fun _ _ _ _ _ => .pure _
  exact h.look rfl (runs_request_iff.mp hrun)

end Filling

end Wireframe.Export
