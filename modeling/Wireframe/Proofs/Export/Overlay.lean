/-
What an archive holds.

The archive of an app holds the skeleton, as far as it is not left out, overlaid by the code: a file of
the skeleton in the place of which there is code is not in the archive, and nothing else is missing.

* `copiedPaths`, `generatedPaths` — the files of the skeleton and of the code, by their paths;
* `Overlays` — an archive is a skeleton overlaid by code;
* `overlays_of_packs` — what is packed is an overlay;
* `IsOutside`, `isOutside_of_isDirect` — a work root that is not in the skeleton;
* `Archives`, `archives_of_runs` — what an export hands out.

Design notes:
* what writes an archive is not known, only that a reader finds in an archive what was added to it, if
  it was all taken; what an archive holds is what such a reader finds.
-/
import Mathlib.Data.Set.Card
import Wireframe.Proofs.Export.Packing
import Wireframe.Proofs.Export.StoredArchive
import Wireframe.Proofs.Export.Traces
import Wireframe.Proofs.Files.TextBytes

namespace Wireframe.Export

open Files World Tree

/-- The paths of the files of a skeleton that are not left out; no link is followed on the way. -/
def copiedPaths (deny : List String) (skeleton : Tree) : Set String :=
  {path | (∃ contents, skeleton.contentsAt? (pieces path) = some contents) ∧
    isDenied path deny = false}

/-- The paths of the files of an app. -/
def generatedPaths (sources : App.Sources) : Set String :=
  {path | path ∈ sources.files.map (·.path)}

/-- The entries of an archive are the files of a skeleton that are not left out, overlaid by code, in
the order of the bytes of their names. -/
structure Overlays (skeleton : Tree) (deny : List String) (sources : App.Sources)
    (entries : List Archive.Entry) : Prop where
  order : (entries.map fun entry => textBytes entry.name).Pairwise (· < ·)
  names : ∀ name, (∃ entry ∈ entries, entry.name = name) ↔
    name ∈ generatedPaths sources ∪ copiedPaths deny skeleton
  generated : ∀ entry ∈ entries, ∀ file ∈ sources.files, entry.name = file.path →
    entry.contents = textBytes file.contents
  copied : ∀ entry ∈ entries, entry.name ∉ generatedPaths sources →
    skeleton.contentsAt? (pieces entry.name) = some entry.contents
  denied : ∀ entry ∈ entries, isDenied entry.name deny = true →
    entry.name ∈ generatedPaths sources

/-! ### Files by their paths -/

section Paths

variable {deny : List String} {skeleton : Tree} {sources : App.Sources}
  {files : List String → Option Bytes} {path : String} {contents : Bytes}

theorem mem_kept_iff (hproper : skeleton.isProper) {names : List String} :
    names ∈ kept deny [] skeleton.files ↔
      (∃ contents, skeleton.contentsAt? names = some contents) ∧
        isDenied (relative names) deny = false := by
  simp [kept, mem_files_iff skeleton hproper]

theorem pieces_mem_kept_iff (hproper : skeleton.isProper) :
    pieces path ∈ kept deny [] skeleton.files ↔ path ∈ copiedPaths deny skeleton := by
  rw [mem_kept_iff hproper, relative_pieces]
  rfl

/-- What is at a path after code has been written: the code, or else what has been there before. -/
theorem writtenTo_eq_some_iff (hnodup : (sources.files.map (·.path)).Nodup) :
    writtenTo files sources.files (pieces path) = some contents ↔
      (∃ file ∈ sources.files, file.path = path ∧ textBytes file.contents = contents) ∨
        path ∉ generatedPaths sources ∧ files (pieces path) = some contents := by
  -- The path of a generated file is told from its names.
  have hpath (file : App.SourceFile) : pieces file.path = pieces path ↔ file.path = path := by
    refine ⟨fun heq => ?_, fun heq => heq ▸ rfl⟩
    rw [← relative_pieces file.path, heq, relative_pieces]
  rw [writtenTo]
  cases hfind : sources.files.find? fun file => decide (pieces file.path = pieces path) with
  -- No generated file has the path, so what was copied is left.
  | none =>
      have hnot : path ∉ generatedPaths sources := by
        intro hmem
        obtain ⟨file, hfile, heq⟩ := List.mem_map.mp hmem
        exact List.find?_eq_none.mp hfind file hfile (by simpa using (hpath file).mpr heq)
      have hnone : ¬ ∃ file ∈ sources.files, file.path = path ∧
          textBytes file.contents = contents := by
        rintro ⟨found, hfound, heq, -⟩
        exact hnot (List.mem_map.mpr ⟨found, hfound, heq⟩)
      simp [hnot, hnone]
  | some found =>
      -- One has it, and as no path is twice, it is the only one.
      have hfound := List.mem_of_find?_eq_some hfind
      have heq : found.path = path := (hpath found).mp (by simpa using List.find?_some hfind)
      have hmem : path ∈ generatedPaths sources := List.mem_map.mpr ⟨found, hfound, heq⟩
      simp only [Option.map_some, Option.some_or, Option.some.injEq, hmem, not_true, false_and, or_false]
      constructor
      · exact fun hcontents => ⟨found, hfound, heq, hcontents⟩
      · rintro ⟨other, hother, hsame, hcontents⟩
        rwa [List.inj_on_of_nodup_map hnodup hfound hother (heq.trans hsame.symm)]

/-- The files of a skeleton that are copied, by their paths, and those of them that are overlaid. -/
theorem copiedTo_eq_some_iff (hproper : skeleton.isProper) :
    copiedTo (fun _ => none) skeleton.contentsAt? (kept deny [] skeleton.files) (pieces path) =
      some contents ↔
    path ∈ copiedPaths deny skeleton ∧ skeleton.contentsAt? (pieces path) = some contents := by
  rw [copiedTo]
  by_cases hmem : path ∈ copiedPaths deny skeleton
  · simp [pieces_mem_kept_iff hproper, hmem]
  · simp [pieces_mem_kept_iff hproper, hmem]

/-- What is packed is an overlay. -/
theorem overlays_of_packs (hproper : skeleton.isProper)
    (hnodup : (sources.files.map (·.path)).Nodup) {entries : List Archive.Entry}
    (h : Packs (writtenTo (copiedTo (fun _ => none) skeleton.contentsAt?
      (kept deny [] skeleton.files)) sources.files) entries) :
    Overlays skeleton deny sources entries := by
  -- An entry is a generated file, or one of the skeleton at a path that is not generated.
  have hentry (name : String) (contents : Bytes) :
      (∃ entry ∈ entries, entry.name = name ∧ entry.contents = contents) ↔
        (∃ file ∈ sources.files, file.path = name ∧ textBytes file.contents = contents) ∨
          name ∉ generatedPaths sources ∧ name ∈ copiedPaths deny skeleton ∧
            skeleton.contentsAt? (pieces name) = some contents := by
    rw [h.entry, writtenTo_eq_some_iff hnodup, copiedTo_eq_some_iff hproper]
  have hcases (entry : Archive.Entry) (hmem : entry ∈ entries) :=
    (hentry entry.name entry.contents).mp ⟨entry, hmem, rfl, rfl⟩
  have hcopied (entry : Archive.Entry) (hmem : entry ∈ entries)
      (hname : entry.name ∉ generatedPaths sources) : entry.name ∈ copiedPaths deny skeleton ∧
        skeleton.contentsAt? (pieces entry.name) = some entry.contents := by
    rcases hcases entry hmem with ⟨file, hfile, hpath, -⟩ | ⟨-, hcopied⟩
    · exact absurd (List.mem_map.mpr ⟨file, hfile, hpath⟩) hname
    · exact hcopied
  refine ⟨?_, fun name => ⟨?_, ?_⟩, fun entry hmem file hfile hname => ?_,
    fun entry hmem hname => (hcopied entry hmem hname).2, fun entry hmem hdenied => ?_⟩
  -- In the order of the fields: order, paths, generated contents, copied contents, denied paths.
  · have horder := h.names.map textBytes fun _ _ => textBytes_lt
    rwa [List.map_map] at horder
  · rintro ⟨entry, hmem, rfl⟩
    by_cases hname : entry.name ∈ generatedPaths sources
    · exact .inl hname
    · exact .inr (hcopied entry hmem hname).1
  · intro hname
    obtain ⟨contents, hcontents⟩ : ∃ contents,
        ∃ entry ∈ entries, entry.name = name ∧ entry.contents = contents := by
      -- A generated file goes over a copied one of the same path.
      by_cases hgenerated : name ∈ generatedPaths sources
      · obtain ⟨file, hfile, hpath⟩ := List.mem_map.mp hgenerated
        exact ⟨_, (hentry _ _).mpr (.inl ⟨file, hfile, hpath, rfl⟩)⟩
      · have hmem := hname.resolve_left hgenerated
        obtain ⟨contents, hcontents⟩ := hmem.1
        exact ⟨contents, (hentry _ _).mpr (.inr ⟨hgenerated, hmem, hcontents⟩)⟩
    obtain ⟨entry, hmem, heq, -⟩ := hcontents
    exact ⟨entry, hmem, heq⟩
  · rcases hcases entry hmem with ⟨other, hother, hpath, hcontents⟩ | ⟨hnot, -⟩
    · rw [← hcontents, List.inj_on_of_nodup_map hnodup hother hfile (hpath.trans hname)]
    · exact absurd (List.mem_map.mpr ⟨file, hfile, hname.symm⟩) hnot
  · by_contra hname
    rw [(hcopied entry hmem hname).1.2] at hdenied
    cases hdenied

/-! ### Numbers of files -/

theorem ncard_setOf_mem {α : Type} {list : List α} (h : list.Nodup) :
    {a | a ∈ list}.ncard = list.length := by
  classical
  rw [← List.coe_toFinset, Set.ncard_coe_finset, List.toFinset_card_of_nodup h]

theorem nodup_kept (hproper : skeleton.isProper) : (kept deny [] skeleton.files).Nodup :=
  (nodup_files skeleton hproper).filter _

theorem ncard_copiedPaths (hproper : skeleton.isProper) (hdirectory : skeleton.isDirectory) :
    (copiedPaths deny skeleton).ncard = (kept deny [] skeleton.files).length := by
  have hnodup : ((kept deny [] skeleton.files).map relative).Nodup := by
    refine List.Nodup.map_on (fun names hnames others hothers heq => ?_) (nodup_kept hproper)
    obtain ⟨⟨_, hcontents⟩, -⟩ := (mem_kept_iff hproper).mp hnames
    obtain ⟨⟨_, hcontents'⟩, -⟩ := (mem_kept_iff hproper).mp hothers
    exact relative_injective (areNames_of_contentsAt? hproper hdirectory hcontents)
      (areNames_of_contentsAt? hproper hdirectory hcontents') heq
  have hset : copiedPaths deny skeleton =
      {path | path ∈ (kept deny [] skeleton.files).map relative} := by
    ext path
    rw [← pieces_mem_kept_iff hproper, Set.mem_ofPred_eq, List.mem_map]
    constructor
    · exact fun hmem => ⟨_, hmem, relative_pieces path⟩
    · rintro ⟨names, hmem, rfl⟩
      obtain ⟨⟨_, hcontents⟩, -⟩ := (mem_kept_iff hproper).mp hmem
      rwa [pieces_relative (areNames_of_contentsAt? hproper hdirectory hcontents)]
  rw [hset, ncard_setOf_mem hnodup, List.length_map]

theorem Overlays.ncard_names {entries : List Archive.Entry}
    (h : Overlays skeleton deny sources entries) :
    (generatedPaths sources ∪ copiedPaths deny skeleton).ncard = entries.length := by
  have hnodup : (entries.map (·.name)).Nodup := by
    refine List.pairwise_map.mpr ((List.pairwise_map.mp h.order).imp fun hlt heq => ?_)
    rw [heq] at hlt
    exact List.lt_irrefl _ hlt
  have hset : generatedPaths sources ∪ copiedPaths deny skeleton =
      {name | name ∈ entries.map (·.name)} := by
    ext name
    rw [← h.names, Set.mem_ofPred_eq, List.mem_map]
  rw [hset, ncard_setOf_mem hnodup, List.length_map]

end Paths

/-! ### Work roots -/

/-- The work root is not in the skeleton, neither as it is nor as it is when what was left behind in it
has been swept away and a workspace has been made; and no skeleton comes into being on the way to it. -/
structure IsOutside (project : Design.Project) (options : Options) (world : World) : Prop where
  before : ∀ place origin, world.Reaches options.workRoot place →
    world.Reaches options.skeleton origin → ¬ origin <+: place
  after : ∀ swept made place origin,
    Swept options.workRoot (slug project) options.staleAfter world swept →
    Made options.workRoot (stemOf project (idText world.issued)) swept made →
    made.Reaches options.workRoot place → world.Reaches options.skeleton origin → ¬ origin <+: place
  skeleton : ∀ swept made shape,
    Swept options.workRoot (slug project) options.staleAfter world swept →
    Made options.workRoot (stemOf project (idText world.issued)) swept made →
    made.survey options.skeleton (enters options.denyList) = .ok shape → ∃ origin, swept.Reaches options.skeleton origin

section Outside

variable {project : Design.Project} {options : Options} {world swept made after : World}
  {place origin : List String}

/-- A work root that stays where it is, outside of a skeleton that stays where it is. -/
theorem isOutside_of_isDirect (hdirect : IsDirect options.workRoot (slug project) world place)
    (horigin : ∀ swept, Swept options.workRoot (slug project) options.staleAfter world swept →
      swept.Reaches options.skeleton origin)
    (hproper : world.tree.isProper) (hplace : ¬ origin <+: place) :
    IsOutside project options world where
  before := by
    intro other found hother hfound
    obtain rfl := hdirect.reaches.unique hother
    obtain rfl := (horigin world (.refl hproper)).unique hfound
    exact hplace
  after := by
    intro swept made other found hswept hmade hother hfound
    obtain rfl := ((hswept.reaches hdirect).mono hmade.here hmade.within).unique hother
    obtain rfl := (horigin world (.refl hproper)).unique hfound
    exact hplace
  skeleton := fun swept _ _ hswept _ _ => ⟨origin, horigin swept hswept⟩

/-- A skeleton that is found after the sweep is the one there was before. -/
theorem Swept.contents_skeleton
    (h : Swept options.workRoot (slug project) options.staleAfter world swept)
    (houtside : IsOutside project options world) (hswept : swept.Reaches options.skeleton origin)
    (names : List String) :
    swept.tree.contentsAt? (origin ++ names) = world.tree.contentsAt? (origin ++ names) := by
  obtain hsame | ⟨-, place, name, hplace, hleftover, hbelow⟩ := h.contents (origin ++ names)
  · exact hsame
  have hworld : world.Reaches options.skeleton origin := hswept.mono h.here_eq.symm h.within
  rcases prefix_append_cases hbelow with ⟨more, rfl⟩ | ⟨rest, hrest, -, hlast⟩
  · -- what holds the skeleton is still there
    obtain hsame | ⟨hnone, -⟩ := h.entries place name hplace
    · simp only [contentsAt?, List.append_assoc _ more names, at?_append _ (more ++ names), hsame]
    · have hdirectory := hswept.directory
      rw [kindAt, at?_append, hnone] at hdirectory
      cases hdirectory
  · -- what is swept away is in the work root, which is not in the skeleton
    exact absurd (above_of_concat hrest hlast) (houtside.before place origin hplace hworld)

/-- A skeleton outside of which a new workspace is made is beside the workspace. -/
theorem isBeside_of_isNew {root stem : String} (hproper : world.tree.isProper)
    (hstem : IsNew world root stem) (harchive : IsNew world root (stem ++ ".zip"))
    (hdirectory : world.tree.kindAt origin = some .directory) (hplace : ¬ origin <+: place) :
    IsBeside stem place origin := by
  have hnot {name : String} (hname : IsNew world root name) (names : List String) :
      ¬ place ++ [name] <+: origin ++ names := by
    intro hbelow
    rcases prefix_append_cases hbelow with habove | ⟨rest, hrest, -, hlast⟩
    · have hmem := habove.subset (List.mem_append_right _ (List.mem_singleton_self name))
      rw [(mentions_eq_false_iff hproper).mp hname.unmentioned origin hmem] at hdirectory
      cases hdirectory
    · exact hplace (above_of_concat hrest hlast)
  exact fun names => ⟨hnot hstem names, fun heq => hnot harchive names (heq ▸ List.prefix_rfl)⟩

/-- A workspace that has been made holds no files. -/
theorem Made.holds {root stem : String} (h : Made root stem swept made)
    (hproper : swept.tree.isProper) (hstem : IsNew swept root stem)
    (hinUse : InUse root stem place made made) :
    Holds root stem place made (fun _ => none) made where
  toInUse := hinUse
  holds := by
    intro names
    have hmem : stem ∈ place ++ [stem] ++ names :=
      List.mem_append_left _ (List.mem_append_right _ (List.mem_singleton_self stem))
    rw [h.contents, contentsAt?_eq_none]
    rw [(mentions_eq_false_iff hproper).mp hstem.unmentioned _ hmem]
    decide
  received := rfl

end Outside

/-! ### Exports -/

/-- An export hands out an archive in which a reader finds a skeleton, the one at its path, overlaid by
code, that of the project; and it tells how many files there are of each sort. -/
structure Archives (read? : Bytes → Option (List Archive.Entry)) (project : Design.Project)
    (options : Options) (world : World) (skeleton : Tree) (sources : App.Sources) (bytes : Bytes)
    (entries : List Archive.Entry) (summary : Summary) (after : World) : Prop where
  found : ∃ origin, world.Reaches options.skeleton origin ∧
    world.tree.at? origin = some skeleton
  generated : App.generate project = .ok sources
  received : after.received = world.received ++ bytes
  opens : read? bytes = some entries
  overlays : Overlays skeleton options.denyList sources entries
  counts : summary = {
    archiveName := offeredName project options
    skeletonFiles := (copiedPaths options.denyList skeleton).ncard
    generatedFiles := project.screens.length + 1
    entries := (generatedPaths sources ∪ copiedPaths options.denyList skeleton).ncard
    bytes := bytes.length }

section Exports

variable {archiver : Archiver} {read? : Bytes → Option (List Archive.Entry)}
  {project : Design.Project} {options : Options} {world after : World}

theorem copiedPaths_congr {deny : List String} {a b : Tree} (h : a.contentsAt? = b.contentsAt?) :
    copiedPaths deny a = copiedPaths deny b := by
  rw [copiedPaths, copiedPaths, h]

theorem Overlays.congr {deny : List String} {sources : App.Sources} {entries : List Archive.Entry}
    {a b : Tree} (h : Overlays a deny sources entries) (hsame : a.contentsAt? = b.contentsAt?) :
    Overlays b deny sources entries where
  order := h.order
  names := copiedPaths_congr hsame ▸ h.names
  generated := h.generated
  copied := hsame ▸ h.copied
  denied := h.denied

theorem Made.congr {root stem : String} {before other : World} (h : Made root stem before world)
    (htree : other.tree = before.tree) (hhere : other.here = before.here) :
    Made root stem other world where
  proper := h.proper
  here := h.here.trans hhere.symm
  kinds := htree ▸ h.kinds
  contents := htree ▸ h.contents
  bare := h.bare
  own := h.own
  elsewhere := by
    intro place q hreaches hapart
    rw [htree]
    exact h.elsewhere place q (hreaches.mono hhere.symm (htree ▸ .refl _)) hapart

theorem Workspace.received_of_remove {workspace : Workspace} {reply : Unit}
    (hrun : Runs workspace.remove world reply after) : after.received = world.received := by
  obtain ⟨first, middle, second, hdirectory, harchive⟩ := replies_of_remove hrun
  have hmiddle : middle.received = world.received :=
    hdirectory.received_eq fun _ hsend => nomatch hsend
  have hlast : after.received = middle.received :=
    harchive.received_eq fun _ hsend => nomatch hsend
  exact hlast.trans hmiddle

/-- Making a workspace and filling it: what is handed out has been packed, and the skeleton is what it was
before the workspace was made. -/
theorem exists_packs_of_runs_fill {root stem : String} {sources : App.Sources} {summary : Summary}
    (origin : List String) (hproper : world.tree.isProper) (hname : isName stem)
    (hstem : IsNew world root stem) (harchive : IsNew world root (stem ++ ".zip"))
    (hnested : ∀ file ∈ sources.files, IsNested file.path)
    (hnodup : (sources.files.map (·.path)).Nodup)
    (hbeside : ∀ made place, Made root stem world made → made.Reaches root place →
      IsBeside stem place origin)
    (hreaches : ∀ made shape, Made root stem world made →
      made.survey options.skeleton (enters options.denyList) = .ok shape →
        world.Reaches options.skeleton origin)
    (hrun : Runs (fill archiver project sources options
      ⟨join root stem, join root (stem ++ ".zip")⟩).run world (.ok summary) after) :
    world.Reaches options.skeleton origin ∧
      ∃ (skeleton : Tree) (entries : List Archive.Entry) (bytes : Bytes), skeleton.isProper ∧ skeleton.isDirectory ∧
      (∀ names, skeleton.contentsAt? names = world.tree.contentsAt? (origin ++ names)) ∧
      Packs (writtenTo (copiedTo (fun _ => none) skeleton.contentsAt?
        (kept options.denyList [] skeleton.files)) sources.files) entries ∧
      archiver.Takes entries ∧ archiver.finish entries = .ok bytes ∧
      after.received = world.received ++ bytes ∧
      summary = ⟨offeredName project options, (kept options.denyList [] skeleton.files).length,
        sources.files.length, entries.length, bytes.length⟩ := by
  -- The workspace is made first, and the reserved directory is where everything is put.
  obtain ⟨_, made, hcreate, hpack⟩ := hrun.of_bind_ok
  have hreply := runs_request_iff.mp hcreate.of_attempt_ok
  have hmade : Made root stem world made := .of_replies hproper hname hstem harchive rfl hreply
  obtain ⟨place, hplace⟩ := exists_of_makeDirectory hname hreply.of_makeDirectory
  obtain ⟨hbears, hinUse⟩ := hmade.inUse hplace
  -- Making the workspace does not change where the skeleton is.
  have hfound (shape : Shape)
      (hsurvey : made.survey options.skeleton (enters options.denyList) = .ok shape) :
      made.Reaches options.skeleton origin :=
    (hreaches made shape hmade hsurvey).mono hmade.here hmade.within
  obtain ⟨skeleton, entries, bytes, hat, hdirectory, hsurvey, hpacks, htakes, hfinish, hreceived,
    hsummary⟩ :=
    (hmade.holds hproper hstem hinUse).received_of_pack hname hfound
      (hbeside made place hmade hbears.reaches) hnested hnodup hpack
  have hsame : made.received = world.received :=
    hreply.received_eq fun _ hsend => nomatch hsend
  refine ⟨hreaches made _ hmade hsurvey, skeleton, entries, bytes, (isProper_at? hmade.proper hat).1,
    hdirectory, fun names => ?_, hpacks, htakes, hfinish, hsame ▸ hreceived, hsummary⟩
  -- Neither does it change what is in the files of the skeleton.
  rw [← hmade.contents, contentsAt?, contentsAt?, at?_append, hat, Option.bind_some]

/-- Sweeping, making a workspace, filling it and removing it. -/
theorem archives_of_runs_exportSources {sources : App.Sources} {summary : Summary}
    {origin : List String} (hreads : archiver.IsReadBy read?) (hproper : world.tree.isProper)
    (hstem : IsNew world options.workRoot (stemOf project (idText world.issued)))
    (harchive : IsNew world options.workRoot (stemOf project (idText world.issued) ++ ".zip"))
    (houtside : IsOutside project options world)
    (horigin : world.Reaches options.skeleton origin)
    (hgenerate : App.generate project = .ok sources)
    (hrun : Runs (exportSources archiver project sources options) world (.ok summary) after) :
    ∃ skeleton bytes entries,
      Archives read? project options world skeleton sources bytes entries summary after := by
  have hname := isName_stemOf project world.issued
  have hsources := App.eq_sourcesOf_of_generate hgenerate
  have hnested := isNested_of_generate hgenerate
  have hnodup : (sources.files.map (·.path)).Nodup :=
    hsources ▸ App.nodup_paths (App.generates_iff.mp ⟨sources, hgenerate⟩)
  have hscreens : sources.files.length = project.screens.length + 1 := by
    rw [hsources, ← List.length_map (·.path), App.paths_files, List.length_cons, List.length_map]
  obtain ⟨swept, filled, reply, hswept, hfill, hremove⟩ := exists_swept_of_runs hproper hrun
  have hstarted : ({ swept with issued := world.issued + 1 } : World).tree.isProper := hswept.proper
  obtain ⟨hreaches, skeleton, entries, bytes, hskeleton, hdirectory, hcontents, hpacks, htakes, hfinish,
    hreceived, rfl⟩ :=
    exists_packs_of_runs_fill origin hstarted hname (hswept.isNew hproper hstem _)
      (hswept.isNew hproper harchive _) hnested hnodup
      (fun made place hmade hplace => isBeside_of_isNew hproper hstem harchive horigin.directory
        (houtside.after swept made place origin hswept (hmade.congr rfl rfl) hplace horigin))
      (fun made shape hmade hsurvey => by
        obtain ⟨found, hfound⟩ :=
          houtside.skeleton swept made shape hswept (hmade.congr rfl rfl) hsurvey
        obtain rfl := horigin.unique (hfound.mono hswept.here_eq.symm hswept.within)
        exact hfound.mono rfl (.refl _)) hfill
  -- the skeleton that is copied holds what the one that is given holds
  obtain ⟨given, hgiven, -⟩ := Option.map_eq_some_iff.mp horigin.directory
  have hsame : skeleton.contentsAt? = given.contentsAt? := by
    funext names
    rw [hcontents]
    refine (hswept.contents_skeleton houtside (hreaches.mono rfl (.refl _)) names).trans ?_
    rw [contentsAt?, contentsAt?, at?_append, hgiven, Option.bind_some]
  have hoverlays : Overlays given options.denyList sources entries :=
    (overlays_of_packs hskeleton hnodup hpacks).congr hsame
  exact ⟨given, bytes, entries, {
    found := ⟨origin, horigin, hgiven⟩
    generated := hgenerate
    received := by
      have hbefore : swept.received = world.received := by
        rw [hswept.same]
      rw [Workspace.received_of_remove hremove, hreceived, ← hbefore]
    opens := hreads entries bytes htakes hfinish
    overlays := hoverlays
    counts := by
      rw [hoverlays.ncard_names, ← hscreens, ← copiedPaths_congr hsame,
        ncard_copiedPaths hskeleton hdirectory] }⟩

/-- Whatever the system refuses on the way, an export that has a result hands out an archive in which
there is the skeleton overlaid by the code of the app. -/
theorem archives_of_runs {summary : Summary} (hreads : archiver.IsReadBy read?)
    (hproper : world.tree.isProper)
    (hstem : IsNew world options.workRoot (stemOf project (idText world.issued)))
    (harchive : IsNew world options.workRoot (stemOf project (idText world.issued) ++ ".zip"))
    (houtside : IsOutside project options world)
    (hrun : Runs (exportProject archiver project options) world (.ok summary) after) :
    ∃ skeleton sources bytes entries,
      Archives read? project options world skeleton sources bytes entries summary after := by
  -- An export that succeeds has found its skeleton and generated its code.
  obtain ⟨isDirectory, first, hskeleton, hrest⟩ := runs_bind_iff.mp hrun
  have hreply := runs_request_iff.mp hskeleton
  obtain rfl := hreply.eq_of_isQuestion rfl
  cases isDirectory with
  | false =>
      obtain ⟨hfailure, -⟩ := runs_done_iff.mp hrest
      cases hfailure
  | true =>
      have hdirectory : first.isDirectory options.skeleton = true :=
        (Prod.mk.inj (hreply.granted Bool.noConfusion)).1.symm
      obtain ⟨hempty, origin, hlocate, hkind⟩ := exists_of_isDirectory hdirectory
      cases hgenerate : App.generate project with
      | error failure =>
          simp only [hgenerate] at hrest
          obtain ⟨hfailure, -⟩ := runs_done_iff.mp hrest
          cases hfailure
      | ok sources =>
          simp only [hgenerate] at hrest
          obtain ⟨skeleton, bytes, entries, harchives⟩ := archives_of_runs_exportSources hreads hproper
            hstem harchive houtside ((reaches_iff hempty).mpr ⟨hlocate, hkind⟩) hgenerate hrest
          exact ⟨skeleton, sources, bytes, entries, harchives⟩

/-- A skeleton in which a file and a directory that are left out are in the place of code, the names of
its files are not in the order in which they are found, and there are links; in the work root there is
a workspace that was left behind. -/
def clutteredDesk : World where
  tree := .directory [
    ("skeleton", .directory [
      (".idea", .directory [("workspace", .file [1] plainMode 0)] 0),
      ("lib", .directory [
        ("main.dart", .file [2] plainMode 0),
        ("screens", .directory [("über.dart", .file [3] plainMode 0)] 0)] 0),
      ("lib-x", .file [4] plainMode 0),
      ("linked", .link "lib" 0)] 0),
    ("work", .directory [
      ("project-00000000-0000-4000-8000-00000000abcd", .directory [] 0)] 0)] 0
  clock := 4000

/-- How to export from that desk. -/
def clutteredOptions : Options where
  skeleton := "skeleton"
  workRoot := "work"
  denyList := [".idea/", "lib/screens"]

theorem isOutside_clutteredDesk : IsOutside singleScreen clutteredOptions clutteredDesk := by
  have hreaches {name : String} (hname : isName name) (other : World) (hhere : other.here = [])
      (hkind : other.tree.kindAt [name] = some .directory) : other.Reaches name [name] := by
    have hother := reaches_of_isName other hname (by rwa [hhere])
    rwa [hhere] at hother
  have hwork : clutteredDesk.Reaches "work" ["work"] :=
    hreaches (by decide) _ rfl (by decide)
  have hshort (name other : String) : ¬ ["work"] ++ [name] <+: [other] := fun hbelow =>
    absurd hbelow.length_le (by simp)
  have hdirect : IsDirect "work" (slug singleScreen) clutteredDesk ["work"] := by
    refine ⟨hwork, fun other hhere hkinds => hreaches (by decide) other hhere ?_⟩
    rw [hkinds _ fun name _ => hshort name "work"]
    decide
  have hskeleton (swept : World)
      (hswept : Swept "work" (slug singleScreen) staleAge clutteredDesk swept) :
      swept.Reaches "skeleton" ["skeleton"] := by
    refine hreaches (by decide) swept hswept.here_eq ?_
    obtain hsame | ⟨place, name, hplace, -, hbelow⟩ := hswept.kinds ["skeleton"]
    · rw [hsame]
      decide
    · obtain rfl := hwork.unique hplace
      exact absurd hbelow (hshort name "skeleton")
  exact isOutside_of_isDirect hdirect hskeleton (by decide +kernel) (by decide)

/-- The code of the app, in a form in which its bytes can be evaluated. -/
theorem textBytes_fileText (outline : List Dart.Outline) : textBytes (App.fileText outline) =
    (Dart.Outline.writeAll 0 outline).flatMap String.utf8EncodeChar := by
  rw [textBytes_eq, App.fileText, String.toList_ofList]

theorem isSome_run_clutteredDesk : (clutteredDesk.run
    (exportProject Archive.stored singleScreen clutteredOptions)).1.toOption.isSome := by
  obtain ⟨sources, hgenerate⟩ : ∃ sources, App.generate singleScreen = .ok sources :=
    App.generates_iff.mpr ⟨by decide, by decide +kernel, by decide +kernel⟩
  obtain rfl := App.eq_sourcesOf_of_generate hgenerate
  obtain ⟨unit, hunits⟩ : ∃ unit, (App.sourcesOf singleScreen).units = [unit] := ⟨_, rfl⟩
  have hfiles : (App.sourcesOf singleScreen).files = [
      ⟨App.Entry.path, App.fileText (App.sourcesOf singleScreen).entry.outline⟩,
      ⟨unit.path, App.fileText (App.screenFile unit.classes)⟩] := by
    rw [App.Sources.files, hunits]
    rfl
  unfold exportProject exportSources fill pack writeArchive
  simp only [hgenerate, hfiles, writeSources, writeSource, textBytes_fileText,
    fileNames_eq_insertionSort]
  obtain rfl := List.singleton_inj.mp hunits
  decide +kernel

theorem archives_of_runs_clutteredDesk :
    Archive.stored.IsReadBy Archive.decode? ∧
    clutteredDesk.tree.isProper ∧
    IsNew clutteredDesk "work" (stemOf singleScreen (idText 0)) ∧
    IsNew clutteredDesk "work" (stemOf singleScreen (idText 0) ++ ".zip") ∧
    IsOutside singleScreen clutteredOptions clutteredDesk ∧
    ∃ summary after, Runs (exportProject Archive.stored singleScreen clutteredOptions) clutteredDesk
      (.ok summary) after ∧ ∃ skeleton sources bytes entries,
        Archives Archive.decode? singleScreen clutteredOptions clutteredDesk skeleton sources bytes
          entries summary after := by
  have hreads : Archive.stored.IsReadBy Archive.decode? := Archive.isReadBy_stored
  have hproper : clutteredDesk.tree.isProper := by decide +kernel
  have hstem : IsNew clutteredDesk "work" (stemOf singleScreen (idText 0)) :=
    ⟨by decide +kernel, by decide +kernel⟩
  have harchive : IsNew clutteredDesk "work" (stemOf singleScreen (idText 0) ++ ".zip") :=
    ⟨by decide +kernel, by decide +kernel⟩
  have hruns := runs_run (exportProject Archive.stored singleScreen clutteredOptions) clutteredDesk
  obtain ⟨summary, hsummary⟩ := exists_eq_ok isSome_run_clutteredDesk
  rw [hsummary] at hruns
  exact ⟨hreads, hproper, hstem, harchive, isOutside_clutteredDesk, summary, _, hruns,
    archives_of_runs hreads hproper hstem harchive isOutside_clutteredDesk hruns⟩

end Exports

end Wireframe.Export
