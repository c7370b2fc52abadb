/-
What is packed.

The archive of a workspace holds its files, each of them once, in the order of their names, whatever the
order in which they were found.

* `pairwise_fileNames`, `mem_fileNames_iff` — the names of the files of a tree;
* `Packs` — the entries of an archive are the files of a workspace;
* `Holds.packs_of_writeArchive` — writing an archive packs the files;
* `Holds.received_of_pack` — from a skeleton and code to what is handed out.
-/
import Mathlib.Data.List.Sort
import Wireframe.Proofs.Export.Holding

namespace Wireframe.Export

open Files World Tree

/-! ### Names of files -/

section FileNames

variable {tree : Tree} {name : String}

theorem isDenied_nil (path : String) : isDenied path [] = false := rfl

/-- Nothing is left out of an archive. -/
theorem kept_nil (files : List (List String × Bytes)) : kept [] [] files = files.map Prod.fst := by
  simp [kept, isDenied_nil]

/-- In a workspace every directory is entered. -/
theorem fileNames_seen (shape : Shape) : fileNames (shape.seen (enters [])) = fileNames shape := by
  rw [fileNames, fileNames, plan_seen_enters]

theorem fileNames_eq (hproper : tree.isProper) (hdirectory : tree.isDirectory) :
    fileNames tree.shape =
      (tree.files.map fun file => relative file.1).mergeSort fun a b => a ≤ b := by
  have hfiles : tree.files.map (fun file => relative file.1) =
      ((plan [] tree.shape).filterMap Item.file?).map relative := by
    rw [files_plan hproper hdirectory, kept_nil, List.map_map]
    rfl
  rw [hfiles, List.map_filterMap]
  refine congrArg (List.mergeSort · _) (List.filterMap_congr fun item _ => ?_)
  cases item <;> rfl

/-- The names in order, sorted in a way that can be evaluated. -/
theorem fileNames_eq_insertionSort (shape : Shape) : fileNames shape =
    ((plan [] shape).filterMap fun
      | .file names => some (relative names)
      | .directory _ => none).insertionSort (· ≤ ·) :=
  List.mergeSort_eq_insertionSort _ _

theorem areNames_of_mem_files (hproper : tree.isProper) (hdirectory : tree.isDirectory)
    {file : List String × Bytes} (hfile : file ∈ tree.files) : AreNames file.1 where
  ne_nil := by
    intro hnil
    have hcontents := (mem_files_iff tree hproper).mp hfile
    rw [hnil] at hcontents
    cases tree with
    | directory => cases hcontents
    | _ => cases hdirectory
  names := isName_of_mem_files hproper hfile

/-- A path leads to a file of a tree if its pieces are the names along which the file is found. -/
theorem areNames_of_contentsAt? (hproper : tree.isProper) (hdirectory : tree.isDirectory)
    {names : List String} {contents : Bytes} (h : tree.contentsAt? names = some contents) :
    AreNames names :=
  areNames_of_mem_files hproper hdirectory ((mem_files_iff tree hproper).mpr h)

theorem mem_fileNames_iff (hproper : tree.isProper) (hdirectory : tree.isDirectory) :
    name ∈ fileNames tree.shape ↔ ∃ contents, tree.contentsAt? (pieces name) = some contents := by
  rw [fileNames_eq hproper hdirectory, List.mem_mergeSort, List.mem_map]
  constructor
  · rintro ⟨⟨names, contents⟩, hfile, rfl⟩
    refine ⟨contents, ?_⟩
    rw [pieces_relative (areNames_of_mem_files hproper hdirectory hfile)]
    exact (mem_files_iff tree hproper).mp hfile
  · rintro ⟨contents, hcontents⟩
    exact ⟨(pieces name, contents), (mem_files_iff tree hproper).mpr hcontents, relative_pieces name⟩

/-- The names of the files are in order, none of them twice. -/
theorem pairwise_fileNames (hproper : tree.isProper) (hdirectory : tree.isDirectory) :
    (fileNames tree.shape).Pairwise (· < ·) := by
  have hnodup : (tree.files.map fun file => relative file.1).Nodup := by
    refine List.Nodup.map_on ?_ (List.Nodup.of_map Prod.fst (nodup_files tree hproper))
    rintro ⟨names, contents⟩ hfile ⟨others, held⟩ hother heq
    obtain rfl := relative_injective (areNames_of_mem_files hproper hdirectory hfile)
      (areNames_of_mem_files hproper hdirectory hother) heq
    have hsame := ((mem_files_iff tree hproper).mp hfile).symm.trans
      ((mem_files_iff tree hproper).mp hother)
    rw [Option.some.inj hsame]
  rw [fileNames_eq hproper hdirectory]
  exact (List.sortedLE_mergeSort.sortedLT_of_nodup (List.nodup_mergeSort.mpr hnodup)).pairwise

end FileNames

/-! ### Entries -/

/-- The entries of an archive are the files of a workspace, in the order of their names. -/
structure Packs (files : List String → Option Bytes) (entries : List Archive.Entry) : Prop where
  names : (entries.map (·.name)).Pairwise (· < ·)
  entry : ∀ name contents, (∃ entry ∈ entries, entry.name = name ∧ entry.contents = contents) ↔
    files (pieces name) = some contents

section Packing

variable {α : Type} {archiver : Archiver} {root stem source : String} {place origin : List String}
  {before world after : World} {files : List String → Option Bytes}

theorem runs_settle {result : Except String α} {failure : String → Failure} {a : α}
    (h : Runs (Job.settle (result.mapError failure)).run world (.ok a) after) :
    after = world ∧ result = .ok a := by
  obtain ⟨hresult, rfl⟩ := runs_done_iff.mp h
  cases result with
  | error reason => cases hresult
  | ok b => exact ⟨rfl, congrArg Except.ok (Except.ok.inj hresult).symm⟩

/-- The archiver has taken a file that is added. -/
theorem of_addEntry {added entries : List Archive.Entry} {entry : Archive.Entry}
    (htakes : archiver.Takes added)
    (h : Runs (addEntry archiver added entry).run world (.ok entries) after) :
    after = world ∧ archiver.Takes entries ∧ entries = added ++ [entry] := by
  obtain ⟨_, first, hstart, hrest⟩ := h.of_bind_ok
  obtain ⟨rfl, hstarted⟩ := runs_settle hstart
  obtain ⟨_, second, hwrite, hend⟩ := hrest.of_bind_ok
  obtain ⟨rfl, hwritten⟩ := runs_settle hwrite
  obtain ⟨rfl, rfl⟩ := runs_pure_iff.mp hend
  exact ⟨rfl, htakes.concat hstarted hwritten, rfl⟩

/-- A file that is added is the one that is read under its name, and the archiver has taken it. -/
theorem of_archiveEntry {directory name : String} {added entries : List Archive.Entry}
    (htakes : archiver.Takes added)
    (h : Runs (archiveEntry archiver directory added name).run world (.ok entries) after) :
    after = world ∧ archiver.Takes entries ∧ ∃ entry, entries = added ++ [entry] ∧
      entry.name = name ∧ world.readFile (join directory name) = .ok entry.contents := by
  unfold archiveEntry at h
  obtain ⟨contents, first, hread, hrest⟩ := h.of_bind_ok
  have hreply := runs_request_iff.mp hread.of_attempt_ok
  obtain rfl := hreply.eq_of_isQuestion rfl
  obtain ⟨executable, second, hmode, hend⟩ := hrest.of_bind_ok
  obtain ⟨answer, -, hanswer⟩ := hmode.of_obtain
  obtain rfl := (runs_request_iff.mp hanswer).eq_of_isQuestion rfl
  by_cases hescapes : escapes name
  · simp only [hescapes, if_true] at hend
    obtain ⟨hfailure, -⟩ := runs_done_iff.mp hend
    cases hfailure
  · simp only [hescapes] at hend
    obtain ⟨rfl, hall, rfl⟩ := of_addEntry htakes hend
    exact ⟨rfl, hall, _, rfl, rfl, hreply.of_read⟩

/-- The files that are added have the given names and hold what is read there. -/
theorem of_archiveEntries {directory : String} {names : List String}
    {added entries : List Archive.Entry} (htakes : archiver.Takes added)
    (h : Runs (archiveEntries archiver directory added names).run world (.ok entries) after) :
    after = world ∧ archiver.Takes entries ∧ ∃ more, entries = added ++ more ∧
      more.map (·.name) = names ∧
      ∀ entry ∈ more, world.readFile (join directory entry.name) = .ok entry.contents := by
  induction names generalizing world added after with
  | nil =>
      obtain ⟨rfl, rfl⟩ := runs_pure_iff.mp h
      exact ⟨rfl, htakes, [], (List.append_nil _).symm, rfl, List.forall_mem_nil _⟩
  | cons name names ih =>
      obtain ⟨next, first, hfirst, hothers⟩ := h.of_bind_ok
      obtain ⟨rfl, hnext, entry, rfl, rfl, hread⟩ := of_archiveEntry htakes hfirst
      obtain ⟨rfl, hall, more, rfl, rfl, hreads⟩ := ih hnext hothers
      exact ⟨rfl, hall, entry :: more, (List.append_cons _ _ _).symm, rfl,
        List.forall_mem_cons.mpr ⟨hread, hreads⟩⟩

namespace Holds

/-- The archive beside the files does not change them. -/
theorem putsArchive (h : Holds root stem place before files world) (hstem : isName stem)
    {contents : Bytes} (hallowed : allowed (join root (stem ++ ".zip")) = .ok ())
    (hputs : Puts world (place ++ [stem ++ ".zip"]) contents after) :
    Holds root stem place before files after where
  toInUse := h.toInUse.puts hstem hputs (.inr rfl) fun _ => hallowed
  holds := by
    intro names
    rw [← h.holds names]
    refine hputs.contentsAt?_of_ne fun heq => ?_
    exact (apart_of_ne (ne_archive stem)).not_below (heq ▸ List.prefix_append _ names)
  received := hputs.received_eq.trans h.received

/-- What lies in the workspace. -/
theorem exists_of_survey (h : Holds root stem place before files world) (hstem : isName stem)
    {enters : List String → Bool} {shape : Shape}
    (hsurvey : world.survey (join root stem) enters = .ok shape) :
    ∃ tree : Tree, tree.isProper ∧ tree.isDirectory ∧ shape = tree.shape.seen enters ∧
      ∀ names, tree.contentsAt? names = files names := by
  obtain ⟨hempty, target, tree, hlocate, hat, rfl⟩ := World.exists_of_survey hsurvey
  obtain ⟨hsame, hkind⟩ := (reaches_iff hempty).mp (h.reaches_directory hstem)
  obtain rfl := Option.some.inj (hlocate.symm.trans hsame)
  refine ⟨tree, (isProper_at? h.proper hat).1, ?_, rfl, fun names => ?_⟩
  · have hdirectory := kindAt_eq_directory_iff.mp hkind
    rwa [hat] at hdirectory
  · rw [← h.holds names, contentsAt?, contentsAt?, at?_append, hat, Option.bind_some]

/-- What is read in the workspace is what it holds. -/
theorem of_readFile (h : Holds root stem place before files world) (hstem : isName stem)
    {names : List String} (hnames : AreNames names) {contents : Bytes}
    (hread : world.readFile (join (join root stem) (relative names)) = .ok contents) :
    files names = some contents := by
  obtain ⟨target, hlocate, hcontents⟩ := exists_of_readFile hread
  obtain rfl := h.locate?_join hstem hnames hlocate
  rw [← h.holds names, hcontents]

/-- Writing an archive packs the files of the workspace. -/
theorem packs_of_writeArchive (h : Holds root stem place before files world) (hstem : isName stem)
    {count : Nat}
    (hrun : Runs (writeArchive archiver (join root stem) (join root (stem ++ ".zip"))).run world
      (.ok count) after) :
    ∃ entries bytes, Packs files entries ∧ archiver.Takes entries ∧
      archiver.finish entries = .ok bytes ∧ count = entries.length ∧
      Holds root stem place before files after ∧
      after.tree.contentsAt? (place ++ [stem ++ ".zip"]) = some bytes := by
  unfold writeArchive at hrun
  obtain ⟨shape, first, hsurvey, hwriting⟩ := hrun.of_bind_ok
  have hsurveyed := runs_request_iff.mp hsurvey.of_attempt_ok
  obtain rfl := hsurveyed.eq_of_isQuestion rfl
  obtain ⟨tree, hproper, hdirectory, rfl, htree⟩ := h.exists_of_survey hstem hsurveyed.of_survey
  obtain ⟨_, second, hcreate, hreading⟩ := hwriting.of_bind_ok
  obtain ⟨hallowed, target, hlocate, hempty⟩ :=
    puts_createFile (runs_request_iff.mp hcreate.of_attempt_ok).of_create
  obtain rfl := h.locate?_archive hstem hlocate
  have hcreated := h.putsArchive hstem hallowed hempty
  obtain ⟨entries, third, hentries, hadding⟩ := hreading.of_bind_ok
  obtain ⟨rfl, htakes, more, hmore, hnames, hreads⟩ := of_archiveEntries .nil hentries
  obtain rfl : entries = more := hmore
  obtain ⟨bytes, fourth, hfinish, hputting⟩ := hadding.of_bind_ok
  obtain ⟨rfl, hbytes⟩ := runs_settle hfinish
  obtain ⟨_, fifth, happend, hend⟩ := hputting.of_bind_ok
  obtain ⟨rfl, rfl⟩ := runs_pure_iff.mp hend
  rw [fileNames_seen] at hnames
  obtain ⟨-, again, held, hagain, hheld, hputs⟩ :=
    puts_appendFile (runs_request_iff.mp happend.of_attempt_ok).of_append
  obtain rfl := hcreated.locate?_archive hstem hagain
  obtain rfl := Option.some.inj (hempty.contentsAt?_self.symm.trans hheld)
  -- every entry holds what is found under its name
  have hentry : ∀ entry ∈ entries, files (pieces entry.name) = some entry.contents := by
    intro entry hmem
    have hname : entry.name ∈ fileNames tree.shape := hnames ▸ List.mem_map_of_mem hmem
    obtain ⟨contents, hcontents⟩ := (mem_fileNames_iff hproper hdirectory).mp hname
    have hread := hreads entry hmem
    rw [← relative_pieces entry.name] at hread
    exact hcreated.of_readFile hstem (areNames_of_contentsAt? hproper hdirectory hcontents) hread
  refine ⟨entries, bytes, ⟨hnames ▸ pairwise_fileNames hproper hdirectory, fun name contents => ?_⟩,
    htakes, hbytes, ?_, hcreated.putsArchive hstem hallowed hputs, hputs.contentsAt?_self⟩
  · constructor
    · rintro ⟨entry, hmem, rfl, rfl⟩
      exact hentry entry hmem
    · intro hfile
      have hname : name ∈ entries.map (·.name) :=
        hnames ▸ (mem_fileNames_iff hproper hdirectory).mpr ⟨contents, (htree _).trans hfile⟩
      obtain ⟨entry, hmem, rfl⟩ := List.mem_map.mp hname
      exact ⟨entry, hmem, rfl, Option.some.inj ((hentry entry hmem).symm.trans hfile)⟩
  · rw [fileNames_seen, ← hnames, List.length_map]

/-- From a skeleton and code to what is handed out: the archive packs the files of the skeleton that are
not left out, and the code in the place of some of them. -/
theorem received_of_pack (h : Holds root stem place before (fun _ => none) before)
    (hstem : isName stem) {project : Design.Project} {sources : App.Sources} {options : Options}
    (hreaches : ∀ shape, before.survey options.skeleton (enters options.denyList) = .ok shape →
      before.Reaches options.skeleton origin)
    (hbeside : IsBeside stem place origin)
    (hsources : ∀ file ∈ sources.files, IsNested file.path)
    (hnodup : (sources.files.map (·.path)).Nodup) {summary : Summary}
    (hrun : Runs (pack archiver project sources options
      ⟨join root stem, join root (stem ++ ".zip")⟩).run before (.ok summary) after) :
    ∃ skeleton entries bytes, before.tree.at? origin = some skeleton ∧ skeleton.isDirectory ∧
      before.survey options.skeleton (enters options.denyList) =
        .ok (skeleton.shape.seen (enters options.denyList)) ∧
      Packs (writtenTo (copiedTo (fun _ => none) skeleton.contentsAt?
        (kept options.denyList [] skeleton.files)) sources.files) entries ∧
      archiver.Takes entries ∧ archiver.finish entries = .ok bytes ∧
      after.received = before.received ++ bytes ∧
      summary = ⟨offeredName project options, (kept options.denyList [] skeleton.files).length,
        sources.files.length, entries.length, bytes.length⟩ := by
  -- The five steps of packing, each of which has succeeded.
  unfold pack at hrun
  obtain ⟨copied, first, hcopy, hrest⟩ := hrun.of_bind_ok
  obtain ⟨written, second, hwrite, hrest⟩ := hrest.of_bind_ok
  obtain ⟨packed, third, harchive, hrest⟩ := hrest.of_bind_ok
  obtain ⟨bytes, fourth, hread, hrest⟩ := hrest.of_bind_ok
  obtain ⟨_, fifth, hsend, hend⟩ := hrest.of_bind_ok
  obtain ⟨rfl, rfl⟩ := runs_pure_iff.mp hend
  -- What is held goes from nothing to the copies, to the sources over them, to the entries of the
  -- archive.
  obtain ⟨skeleton, hat, hdirectory, hsurvey, rfl, hcopied⟩ :=
    of_copySkeleton hstem hreaches hbeside h hcopy
  obtain ⟨rfl, hwritten⟩ := hcopied.of_writeSources hstem hsources hnodup hwrite
  obtain ⟨entries, finished, hpacks, htakes, hfinish, rfl, hpacked, hheld⟩ :=
    hwritten.packs_of_writeArchive hstem harchive
  -- The bytes that are read are those that were just written, at the place where the archive is.
  have hreply := runs_request_iff.mp hread.of_attempt_ok
  obtain rfl := hreply.eq_of_isQuestion rfl
  obtain ⟨target, hwhere, hbytes⟩ := exists_of_readFile hreply.of_read
  obtain rfl := hpacked.locate?_archive hstem hwhere
  obtain rfl := Option.some.inj (hbytes.symm.trans hheld)
  have hreceived := (received_of_sendBytes (runs_request_iff.mp hsend.of_attempt_ok).of_send).2
  refine ⟨skeleton, entries, bytes, hat, hdirectory, hsurvey, hpacks, htakes, hfinish, ?_, rfl⟩
  rw [hreceived, hpacked.received]

end Holds

end Packing

end Wireframe.Export
