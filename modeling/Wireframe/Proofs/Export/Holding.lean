/-
What a workspace holds.

Files that are copied into a workspace are there with the contents that they had when the workspace was
made, since nothing outside of it changes; code that is written after that takes the place of what was
copied to the same path.

* `Holds` — the files in a workspace;
* `IsBeside` — a place of which no part is in the workspace;
* `Holds.copy`, `Holds.writeFile` — one file more;
* `copiedTo`, `Holds.of_copyItems`, `Holds.of_copySkeleton` — files after some have been copied;
* `writtenTo`, `Holds.of_writeSources` — files after code has been written.
-/
import Wireframe.Proofs.Export.Filling
import Wireframe.Proofs.Files.Success

namespace Wireframe.Export

open Files World Tree

/-- A workspace is in use, `files` tells what names in it lead to, and nothing has been handed out since
it was made. -/
structure Holds (root stem : String) (place : List String) (before : World)
    (files : List String → Option Bytes) (world : World) : Prop
    extends InUse root stem place before world where
  holds : ∀ names, world.tree.contentsAt? (place ++ [stem] ++ names) = files names
  received : world.received = before.received

/-- Nothing at a place or below is part of a workspace. -/
def IsBeside (stem : String) (place origin : List String) : Prop :=
  ∀ names, ¬ place ++ [stem] <+: origin ++ names ∧ origin ++ names ≠ place ++ [stem ++ ".zip"]

section Holding

variable {root stem source : String} {place origin names : List String} {before world after : World}
  {files : List String → Option Bytes} {contents : Bytes}

/-! ### Where the skeleton is -/

namespace InUse

theorem contents_of_isBeside (h : InUse root stem place before world)
    (hbeside : IsBeside stem place origin) (names : List String) :
    world.tree.contentsAt? (origin ++ names) = before.tree.contentsAt? (origin ++ names) :=
  h.contents _ (hbeside names).1 (hbeside names).2

/-- The path of a file beside the workspace leads to it. -/
theorem locate?_source (h : InUse root stem place before world)
    (hreaches : before.Reaches source origin) (hbeside : IsBeside stem place origin)
    (hnames : AreNames names)
    (hfile : before.tree.contentsAt? (origin ++ names) = some contents) :
    world.locate? true (join source (relative names)) = some (origin ++ names) := by
  obtain ⟨left, hleads⟩ := (hreaches.mono h.here h.within).leads
  have hkind : world.tree.kindAt (origin ++ names) = some .file := by
    rw [← h.contents_of_isBeside hbeside] at hfile
    exact kindAt_of_contentsAt? hfile
  refine (locate?_join_iff (isAbsolute_relative hnames)).mpr ⟨left, origin, hleads, ?_⟩
  rw [pieces_relative hnames]
  exact walk_to_file hnames.ne_nil (fun name hname => notMem_of_isName (hnames.names name hname)) hkind

end InUse

/-! ### Single files -/

namespace Holds

/-- One file more, or another in its place. -/
theorem puts (h : Holds root stem place before files world) (hstem : isName stem)
    (hnames : AreNames names) (hputs : Puts world (place ++ [stem] ++ names) contents after) :
    Holds root stem place before (Function.update files names (some contents)) after where
  toInUse := by
    refine h.toInUse.puts hstem hputs (.inl ⟨names, hnames, rfl⟩) fun harchive => ?_
    exact absurd (harchive ▸ List.prefix_append _ names) (apart_of_ne (ne_archive stem)).not_below
  holds := by
    intro others
    by_cases hothers : others = names
    · subst hothers
      rw [hputs.contentsAt?_self, Function.update_self]
    · rw [Function.update_of_ne hothers, ← h.holds others]
      exact hputs.contentsAt?_of_ne fun heq => hothers (List.append_cancel_left heq)
  received := hputs.received_eq.trans h.received

/-- Directories hold nothing by themselves. -/
theorem make (h : Holds root stem place before files world) (hstem : isName stem)
    (hnames : AreNames names) {reply : Except Fault Unit}
    (hreply : Replies world (.makeDirectory (join (join root stem) (relative names))) reply after) :
    Holds root stem place before files after where
  toInUse := h.toInUse.make hstem hnames rfl hreply
  holds := by
    have hsame : ∀ q, after.tree.contentsAt? q = world.tree.contentsAt? q :=
      hreply.directory_induction
        (P := fun other => ∀ q, other.tree.contentsAt? q = world.tree.contentsAt? q) rfl
        (fun _ _ _ _ _ _ _ _ hbefore _ hadds q => (hadds.contentsAt?_eq q).trans (hbefore q))
        fun _ => rfl
    exact fun others => (hsame _).trans (h.holds others)
  received := (hreply.received_eq fun _ hsend => nomatch hsend).trans h.received

/-- A file that is copied is there with the contents it had when the workspace was made. -/
theorem copy (h : Holds root stem place before files world) (hstem : isName stem)
    (hreaches : before.Reaches source origin) (hbeside : IsBeside stem place origin)
    (hnames : AreNames names)
    (hfile : before.tree.contentsAt? (origin ++ names) = some contents)
    (hcopy : world.copyFile (join source (relative names))
      (join (join root stem) (relative names)) = .ok after) :
    Holds root stem place before (Function.update files names (some contents)) after := by
  obtain ⟨-, from_, target, held, hfrom, hheld, htarget, hputs⟩ := puts_copyFile hcopy
  obtain rfl := h.locate?_join hstem hnames htarget
  have hsame := h.toInUse.locate?_source hreaches hbeside hnames hfile
  obtain rfl := Option.some.inj (hsame.symm.trans hfrom)
  rw [h.toInUse.contents_of_isBeside hbeside, hfile] at hheld
  obtain rfl := Option.some.inj hheld
  exact h.puts hstem hnames hputs

/-- A file that is written is there with what was to be written. -/
theorem writeFile (h : Holds root stem place before files world) (hstem : isName stem)
    (hnames : AreNames names)
    (hrun : Runs (Files.writeFile (join (join root stem) (relative names)) contents) world (.ok ())
      after) : Holds root stem place before (Function.update files names (some contents)) after := by
  obtain ⟨reply, made, hcreate, hrest⟩ := runs_bind_iff.mp hrun
  cases reply with
  | error fault =>
      obtain ⟨hresult, -⟩ := runs_done_iff.mp hrest
      cases hresult
  | ok created =>
      obtain ⟨-, target, hlocate, hempty⟩ := puts_createFile (runs_request_iff.mp hcreate).of_create
      obtain rfl := h.locate?_join hstem hnames hlocate
      have hmade := h.puts hstem hnames hempty
      obtain ⟨-, again, held, hagain, hheld, hputs⟩ :=
        puts_appendFile (runs_request_iff.mp hrest).of_append
      obtain rfl := hmade.locate?_join hstem hnames hagain
      obtain rfl := Option.some.inj (hempty.contentsAt?_self.symm.trans hheld)
      have hwritten := hmade.puts hstem hnames hputs
      rwa [Function.update_idem] at hwritten

end Holds

/-! ### Copying -/

/-- The files of a workspace after some have been copied. -/
def copiedTo (files : List String → Option Bytes) (origin : List String → Option Bytes)
    (copied : List (List String)) (names : List String) : Option Bytes :=
  if names ∈ copied then origin names else files names

theorem copiedTo_nil (origin : List String → Option Bytes) : copiedTo files origin [] = files := by
  funext names
  simp [copiedTo]

theorem copiedTo_singleton (origin : List String → Option Bytes) (names : List String) :
    copiedTo files origin [names] = Function.update files names (origin names) := by
  funext others
  by_cases hothers : others = names <;> simp [copiedTo, hothers]

/-- Copying some files and then others. -/
theorem copiedTo_append (origin : List String → Option Bytes) (copied others : List (List String)) :
    copiedTo files origin (copied ++ others) =
      copiedTo (copiedTo files origin copied) origin others := by
  funext names
  by_cases hothers : names ∈ others <;> simp [copiedTo, hothers]

namespace Holds

theorem of_copyItem (hstem : isName stem) (hreaches : before.Reaches source origin)
    (hbeside : IsBeside stem place origin) {item : Item} (hitem : AreNames item.names)
    (hfiles : ∀ names ∈ item.file?, ∃ contents,
      before.tree.contentsAt? (origin ++ names) = some contents)
    (h : Holds root stem place before files world) {count : Nat}
    (hrun : Runs (copyItem source (join root stem) item).run world (.ok count) after) :
    count = item.file?.toList.length ∧
      Holds root stem place before (copiedTo files (fun names =>
        before.tree.contentsAt? (origin ++ names)) item.file?.toList) after := by
  -- A directory is made and counts for nothing; a file is copied and counts as one.
  cases item with
  | directory names =>
      obtain ⟨_, between, hdone, hcopied⟩ := hrun.of_bind_ok
      obtain ⟨rfl, rfl⟩ := runs_pure_iff.mp hcopied
      refine ⟨rfl, ?_⟩
      rw [Item.file?, Option.toList_none, copiedTo_nil]
      exact h.make hstem hitem (runs_request_iff.mp hdone.of_attempt_ok)
  | file names =>
      obtain ⟨_, between, hdone, hcopied⟩ := hrun.of_bind_ok
      obtain ⟨rfl, rfl⟩ := runs_pure_iff.mp hcopied
      obtain ⟨contents, hfile⟩ := hfiles names rfl
      refine ⟨rfl, ?_⟩
      rw [Item.file?, Option.toList_some, copiedTo_singleton, hfile]
      exact h.copy hstem hreaches hbeside hitem hfile
        (runs_request_iff.mp hdone.of_attempt_ok).of_copy

theorem of_copyItems (hstem : isName stem) (hreaches : before.Reaches source origin)
    (hbeside : IsBeside stem place origin) {items : List Item}
    (hitems : ∀ item ∈ items, AreNames item.names ∧ ∀ names ∈ item.file?, ∃ contents,
      before.tree.contentsAt? (origin ++ names) = some contents)
    (h : Holds root stem place before files world) {count : Nat}
    (hrun : Runs (copyItems source (join root stem) items).run world (.ok count) after) :
    count = (items.filterMap Item.file?).length ∧
      Holds root stem place before (copiedTo files (fun names =>
        before.tree.contentsAt? (origin ++ names)) (items.filterMap Item.file?)) after := by
  induction items generalizing files world count after with
  | nil =>
      obtain ⟨rfl, rfl⟩ := runs_pure_iff.mp hrun
      exact ⟨rfl, (copiedTo_nil _).symm ▸ h⟩
  | cons item items ih =>
      obtain ⟨⟨hitem, hfile⟩, hrest⟩ := List.forall_mem_cons.mp hitems
      obtain ⟨copied, first, hfirst, hothers⟩ := hrun.of_bind_ok
      obtain ⟨others, second, hsecond, hend⟩ := hothers.of_bind_ok
      obtain ⟨rfl, rfl⟩ := runs_pure_iff.mp hend
      obtain ⟨rfl, hnext⟩ := of_copyItem hstem hreaches hbeside hitem hfile h hfirst
      obtain ⟨rfl, hall⟩ := ih hrest hnext hsecond
      rw [Item.files_cons, List.length_append, copiedTo_append]
      exact ⟨rfl, hall⟩

/-- The files of a skeleton that are not left out are there after it has been copied. -/
theorem of_copySkeleton (hstem : isName stem) {deny : List String}
    (hreaches : ∀ shape, before.survey source (enters deny) = .ok shape →
      before.Reaches source origin)
    (hbeside : IsBeside stem place origin) (h : Holds root stem place before files before)
    {count : Nat} (hrun : Runs (copySkeleton source (join root stem) deny).run before (.ok count)
      after) :
    ∃ skeleton, before.tree.at? origin = some skeleton ∧ skeleton.isDirectory ∧
      before.survey source (enters deny) = .ok (skeleton.shape.seen (enters deny)) ∧
      count = (kept deny [] skeleton.files).length ∧
      Holds root stem place before
        (copiedTo files skeleton.contentsAt? (kept deny [] skeleton.files)) after := by
  -- Looking at the skeleton changes nothing, so what was surveyed is what is copied.
  obtain ⟨shape, surveyed, hsurvey, hcopies⟩ := hrun.of_bind_ok
  have hsurveyed := runs_request_iff.mp hsurvey.of_attempt_ok
  obtain rfl := hsurveyed.eq_of_isQuestion rfl
  have hfound := hreaches _ hsurveyed.of_survey
  obtain ⟨hempty, found, skeleton, hlocate, hat, rfl⟩ :=
    World.exists_of_survey hsurveyed.of_survey
  obtain ⟨hsame, hkind⟩ := (reaches_iff hempty).mp hfound
  obtain rfl := Option.some.inj (hlocate.symm.trans hsame)
  have hproper : skeleton.isProper := (isProper_at? h.proper hat).1
  have hdirectory : skeleton.isDirectory := by
    have hany := kindAt_eq_directory_iff.mp hkind
    rwa [hat] at hany
  have hcontents (names : List String) :
      surveyed.tree.contentsAt? (found ++ names) = skeleton.contentsAt? names := by
    rw [contentsAt?, contentsAt?, at?_append, hat, Option.bind_some]
  -- The files of the plan are those that are kept, in the same order.
  have hfiles : (plan deny skeleton.shape).filterMap Item.file? = kept deny [] skeleton.files :=
    files_plan hproper hdirectory
  have hitems : ∀ item ∈ plan deny skeleton.shape, AreNames item.names ∧
      ∀ names ∈ item.file?, ∃ contents,
        surveyed.tree.contentsAt? (found ++ names) = some contents := by
    -- Each of them is a file of the tree, so there is something to copy.
    refine fun item hitem => ⟨areNames_of_mem_plan hproper item hitem, fun names hnames => ?_⟩
    have hmem : names ∈ kept deny [] skeleton.files :=
      hfiles ▸ List.mem_filterMap.mpr ⟨item, hitem, hnames⟩
    obtain ⟨⟨others, contents⟩, hfile, rfl⟩ := List.mem_map.mp (List.mem_filter.mp hmem).1
    exact ⟨contents, (hcontents _).trans ((mem_files_iff skeleton hproper).mp hfile)⟩
  rw [plan_seen_enters] at hcopies
  obtain ⟨rfl, hcopied⟩ := of_copyItems hstem hfound hbeside hitems h hcopies
  simp only [hfiles, hcontents] at hcopied ⊢
  exact ⟨skeleton, hat, hdirectory, hsurveyed.of_survey, rfl, hcopied⟩

end Holds

/-! ### Writing code -/

/-- The files of a workspace after code has been written. -/
def writtenTo (files : List String → Option Bytes) (sources : List App.SourceFile)
    (names : List String) : Option Bytes :=
  ((sources.find? fun file => pieces file.path = names).map fun file =>
    textBytes file.contents).or (files names)

theorem writtenTo_nil : writtenTo files [] = files := by
  funext names
  simp [writtenTo]

/-- Files with paths of their own can be written one after the other. -/
theorem writtenTo_cons {file : App.SourceFile} {sources : List App.SourceFile}
    (hfile : file.path ∉ sources.map (·.path)) : writtenTo files (file :: sources) =
      writtenTo (Function.update files (pieces file.path) (some (textBytes file.contents)))
        sources := by
  funext names
  by_cases hnames : pieces file.path = names
  · have hother : sources.find? (fun other => pieces other.path = names) = none := by
      refine List.find?_eq_none.mpr fun other hmem heq => hfile ?_
      have hpath : other.path = file.path := by
        rw [← relative_pieces other.path, of_decide_eq_true heq, ← hnames, relative_pieces]
      exact List.mem_map.mpr ⟨other, hmem, hpath⟩
    simp [writtenTo, hnames, hother]
  · have hupdate : names ≠ pieces file.path := fun heq => hnames heq.symm
    simp [writtenTo, hnames, hupdate]

namespace Holds

theorem of_writeSource (hstem : isName stem) {file : App.SourceFile} (hfile : IsNested file.path)
    (h : Holds root stem place before files world)
    (hrun : Runs (writeSource (join root stem) file).run world (.ok ()) after) :
    Holds root stem place before
      (Function.update files (pieces file.path) (some (textBytes file.contents))) after := by
  obtain ⟨names, name, hnames, hname, hpath⟩ := hfile.split
  have hall : AreNames (names ++ [name]) := hnames.append (List.forall_mem_singleton.mpr hname)
  unfold writeSource at hrun
  simp only [hfile.relative, Bool.not_true, Bool.false_eq_true, if_false] at hrun
  rw [hpath, parent_join hnames hname] at hrun
  obtain ⟨_, made, hmake, hwrite⟩ := hrun.of_bind_ok
  rw [hpath, pieces_relative hall]
  exact (h.make hstem hnames (runs_request_iff.mp hmake.of_attempt_ok)).writeFile hstem hall
    hwrite.of_attempt_ok

theorem of_writeSources (hstem : isName stem) {sources : List App.SourceFile}
    (hsources : ∀ file ∈ sources, IsNested file.path) (hnodup : (sources.map (·.path)).Nodup)
    (h : Holds root stem place before files world) {count : Nat}
    (hrun : Runs (writeSources (join root stem) sources).run world (.ok count) after) :
    count = sources.length ∧ Holds root stem place before (writtenTo files sources) after := by
  induction sources generalizing files world count after with
  | nil =>
      obtain ⟨rfl, rfl⟩ := runs_pure_iff.mp hrun
      exact ⟨rfl, writtenTo_nil.symm ▸ h⟩
  | cons file sources ih =>
      obtain ⟨hfile, hrest⟩ := List.forall_mem_cons.mp hsources
      rw [List.map_cons, List.nodup_cons] at hnodup
      obtain ⟨_, first, hfirst, hothers⟩ := hrun.of_bind_ok
      obtain ⟨others, second, hsecond, hend⟩ := hothers.of_bind_ok
      obtain ⟨rfl, rfl⟩ := runs_pure_iff.mp hend
      have hnext := h.of_writeSource hstem hfile hfirst
      obtain ⟨rfl, hall⟩ := ih hrest hnodup.2 hnext hsecond
      rw [writtenTo_cons hnodup.1]
      exact ⟨rfl, hall⟩

end Holds

end Holding

end Wireframe.Export
