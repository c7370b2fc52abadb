/-
A workspace in two worlds.

What an export does in its workspace does not depend on what others do beside it.  So it can be followed
in a world of its own, in which there is nobody else: whatever it asks for, the replies are the same in
both worlds, and the workspace is the same again but for times.

* `Tidy` — a workspace without links in it;
* `Twin` — the same workspace in two worlds;
* `Tidy.change`, `Twin.change` — something is put into it, in both worlds.
-/
import Wireframe.Proofs.Export.Site
import Wireframe.Proofs.Files.Finding

namespace Wireframe.Export

open Files World Tree

/-- The names of a workspace. -/
def namesOf (stem : String) : List String := [stem, stem ++ ".zip"]

/-- The workspace is one of a project of the work root, and not one of others. -/
structure IsOwner (ground : Ground) (stem : String) (others : List String) : Prop where
  isName : isName stem
  ours : ∀ name ∈ namesOf stem, ground.IsOurs name
  spared : ∀ name ∈ namesOf stem, name ∉ others

/-- There is the directory of a workspace, no links are in it, and the archive is a file if there is
one. -/
structure Tidy (ground : Ground) (stem : String) (tree : Tree) : Prop where
  directory : tree.kindAt (ground.place ++ [stem]) = some .directory
  unlinked : ∀ names path, tree.kindAt (ground.place ++ [stem] ++ names) ≠ some (.link path)
  archive : tree.kindAt (ground.place ++ [stem ++ ".zip"]) = none ∨
    tree.kindAt (ground.place ++ [stem ++ ".zip"]) = some .file

/-- The workspace is the same in two worlds but for times, and so is all that only its export knows. -/
structure Twin (site : Site) (stem : String) (alone among : World) : Prop where
  sees : among = alone.sees among
  here : alone.here = site.here
  varies : site.Varies alone.tree
  variesAmong : site.Varies among.tree
  tidy : Tidy site stem alone.tree
  same : ∀ name ∈ namesOf stem, (among.tree.at? (site.place ++ [name])).map timeless =
    (alone.tree.at? (site.place ++ [name])).map timeless
  allowed : World.allowed (join site.root stem) = .ok ()
  allowedArchive : alone.tree.kindAt (site.place ++ [stem ++ ".zip"]) ≠ none →
    World.allowed (join site.root (stem ++ ".zip")) = .ok ()

section Twins

variable {site : Site} {stem : String} {others : List String} {alone among world after : World}
  {names : List String} {name path : String}

theorem mem_namesOf : name ∈ namesOf stem ↔ name = stem ∨ name = stem ++ ".zip" := by
  simp [namesOf]

namespace Twin

theorem here_among (h : Twin site stem alone among) : among.here = site.here := by
  rw [h.sees]
  exact h.here

/-- What is in the workspace is the same but for times. -/
theorem at?_same (h : Twin site stem alone among) (hname : name ∈ namesOf stem)
    (names : List String) : (among.tree.at? (site.place ++ name :: names)).map timeless =
      (alone.tree.at? (site.place ++ name :: names)).map timeless := by
  have hbind (tree : Tree) : (tree.at? (site.place ++ name :: names)).map timeless =
      ((tree.at? (site.place ++ [name])).map timeless).bind (at? names) := by
    rw [List.append_cons, at?_append]
    cases tree.at? (site.place ++ [name]) with
    | none => rfl
    | some inner => exact (at?_timeless inner names).symm
  rw [hbind, hbind, h.same name hname]

theorem kindAt_same (h : Twin site stem alone among) (hname : name ∈ namesOf stem)
    (names : List String) : among.tree.kindAt (site.place ++ name :: names) =
      alone.tree.kindAt (site.place ++ name :: names) := by
  have hkind (tree : Tree) (q : List String) :
      tree.kindAt q = ((tree.at? q).map timeless).map kind := by
    rw [kindAt, Option.map_map]
    exact congrArg (fun f => Option.map f (tree.at? q)) (funext fun inner => (kind_timeless inner).symm)
  rw [hkind, hkind, h.at?_same hname]

theorem tidy_among (h : Twin site stem alone among) : Tidy site stem among.tree where
  directory := by
    rw [h.kindAt_same (mem_namesOf.mpr (.inl rfl)) []]
    exact h.tidy.directory
  unlinked := by
    intro names path
    have hkind := h.kindAt_same (mem_namesOf.mpr (.inl rfl)) names
    rw [List.append_cons] at hkind
    rw [hkind]
    exact h.tidy.unlinked names path
  archive := by
    rw [h.kindAt_same (mem_namesOf.mpr (.inr rfl)) []]
    exact h.tidy.archive

/-- Others leave the workspace as it is. -/
theorem relies {quiet : World → Prop} (h : Twin site stem alone among)
    (hrelies : Relies site (namesOf stem) others quiet among after) : Twin site stem alone after where
  sees := by
    rw [hrelies.sees, h.sees]
    rfl
  here := h.here
  varies := h.varies
  variesAmong := hrelies.step.varies h.variesAmong
  tidy := h.tidy
  same := by
    intro name hname
    rw [hrelies.own_eq hname]
    exact h.same name hname
  allowed := h.allowed
  allowedArchive := h.allowedArchive

/-- A world is compared with one in which there is nobody else. -/
theorem congr (h : Twin site stem alone among) {alone' among' : World}
    (htree : alone'.tree = alone.tree) (htree' : among'.tree = among.tree)
    (hhere : alone'.here = alone.here) (hsees : among' = alone'.sees among') :
    Twin site stem alone' among' where
  sees := hsees
  here := hhere.trans h.here
  varies := htree ▸ h.varies
  variesAmong := htree' ▸ h.variesAmong
  tidy := htree ▸ h.tidy
  same := by
    rw [htree, htree']
    exact h.same
  allowed := h.allowed
  allowedArchive := htree ▸ h.allowedArchive

end Twin

/-! ### What is put into a workspace -/

/-- A file, or a directory in which there is nothing. -/
structure IsLeaf (time : Int) (tree : Tree) : Prop where
  modified : tree.modified = time
  proper : tree.isProper
  below : ∀ names inner, tree.at? names = some inner → inner = tree
  unlinked : ∀ path, tree.kind ≠ .link path

theorem isLeaf_file (contents : Bytes) (mode : Nat) (time : Int) :
    IsLeaf time (.file contents mode time) where
  modified := rfl
  proper := rfl
  below := by
    intro names inner h
    cases names with
    | nil => exact (Option.some.inj h).symm
    | cons => cases h
  unlinked := nofun

theorem isLeaf_directory (time : Int) : IsLeaf time (.directory [] time) where
  modified := rfl
  proper := rfl
  below := by
    intro names inner h
    cases names with
    | nil => exact (Option.some.inj h).symm
    | cons => cases h
  unlinked := nofun

/-- The place of something in a workspace, by names: it is in the directory, or it is the archive. -/
def IsOwnPlace (stem : String) (names : List String) : Prop :=
  (∃ more, AreNames more ∧ names = stem :: more) ∨ names = [stem ++ ".zip"]

theorem IsOwnPlace.cases (h : IsOwnPlace stem names) :
    ∃ name more, name ∈ namesOf stem ∧ names = name :: more := by
  rcases h with ⟨more, -, rfl⟩ | rfl
  · exact ⟨stem, more, mem_namesOf.mpr (.inl rfl), rfl⟩
  · exact ⟨stem ++ ".zip", [], mem_namesOf.mpr (.inr rfl), rfl⟩

theorem IsOwnPlace.isName (h : IsOwnPlace stem names) (hstem : isName stem) :
    ∀ name ∈ names, isName name := by
  rcases h with ⟨more, hmore, rfl⟩ | rfl
  · exact List.forall_mem_cons.mpr ⟨hstem, hmore.names⟩
  · exact List.forall_mem_singleton.mpr (isName_archive hstem)

/-- The workspace stays tidy when something is put into it. -/
theorem Tidy.change {tree changed inner : Tree} {time : Int} (h : Tidy site stem tree)
    (hnames : IsOwnPlace stem names) (hleaf : IsLeaf time inner)
    (hfile : names = [stem ++ ".zip"] → inner.kind = .file)
    (hchange : tree.change? time (some inner) (site.place ++ names) = some changed) :
    Tidy site stem changed := by
  have hapart : Apart (site.place ++ [stem]) (site.place ++ [stem ++ ".zip"]) :=
    apart_of_ne (ne_archive stem)
  -- At the changed place and below it there is only what was put.
  have hkind {q : List String} (hq : site.place ++ names <+: q) {kind : Kind}
      (hkind : changed.kindAt q = some kind) : kind = inner.kind := by
    obtain ⟨more, rfl⟩ := hq
    rw [kindAt, at?_change_append hchange, Option.bind_some] at hkind
    obtain ⟨found, hfound, rfl⟩ := Option.map_eq_some_iff.mp hkind
    rw [hleaf.below more found hfound]
  -- What is put is below the directory, or it is the archive.
  rcases hnames with ⟨more, hmore, rfl⟩ | rfl
  · have hplace : site.place ++ stem :: more = site.place ++ [stem] ++ more := List.append_cons ..
    -- It is not the directory itself, as there are names below it.
    have hdirectory : ¬ site.place ++ stem :: more <+: site.place ++ [stem] := by
      intro hbelow
      have hlength := hbelow.length_le
      have hmore := List.length_pos_iff.mpr hmore.ne_nil
      simp only [List.length_append, List.length_cons, List.length_nil] at hlength
      omega
    have harchive : ¬ site.place ++ stem :: more <+: site.place ++ [stem ++ ".zip"] :=
      (apart_below hapart more).not_below
    refine ⟨?_, fun names path hlink => ?_, ?_⟩
    · rw [kindAt_change hchange hdirectory]
      exact h.directory
    · by_cases hbelow : site.place ++ stem :: more <+: site.place ++ [stem] ++ names
      · exact hleaf.unlinked path (hkind hbelow hlink).symm
      · rw [kindAt_change hchange hbelow] at hlink
        exact h.unlinked names path hlink
    · rw [kindAt_change hchange harchive]
      exact h.archive
  · refine ⟨?_, fun names path => ?_, .inr ?_⟩
    · rw [kindAt_change hchange hapart.not_above]
      exact h.directory
    · rw [kindAt_change hchange (hapart.append names).not_above]
      exact h.unlinked names path
    · have hat := at?_change_append hchange []
      rw [List.append_nil, Option.bind_some, at?_nil] at hat
      rw [kindAt, hat, Option.map_some, hfile rfl]

/-- After the same change workspaces are the same but for times. -/
theorem Twin.same_change (h : Twin site stem alone among) {put put' : Option Tree}
    (hput : put'.map timeless = put.map timeless) (hname : name ∈ namesOf stem) {time time' : Int}
    {changed changed' : Tree}
    (hchange : alone.tree.change? time put (site.place ++ name :: names) = some changed)
    (hchange' : among.tree.change? time' put' (site.place ++ name :: names) = some changed') :
    ∀ other ∈ namesOf stem, (changed'.at? (site.place ++ [other])).map timeless =
      (changed.at? (site.place ++ [other])).map timeless := by
  intro other hother
  -- The change is at this name, or at another one, which leaves this one alone.
  by_cases heq : other = name
  · subst heq
    rw [List.append_cons] at hchange hchange'
    -- At the name itself both have what was put; further down both are changed in the same way.
    by_cases hnil : names = []
    · subst hnil
      have hat := at?_change_append hchange []
      have hat' := at?_change_append hchange' []
      simp only [List.append_nil] at hat hat'
      have hself (put : Option Tree) : put.bind (at? []) = put := by
        cases put with
        | none => rfl
        | some inner => exact at?_nil inner
      rw [hat, hat', hself, hself, hput]
    -- A change commutes with leaving times aside.
    · have hbind (tree : Option Tree) (time : Int) (put : Option Tree) :
          (tree.bind (change? time put names)).map timeless =
            (tree.map timeless).bind (change? 0 (put.map timeless) names) := by
        cases tree with
        | none => rfl
        | some inner => exact change?_timeless time put names inner
      rw [at?_change_above hchange hnil, at?_change_above hchange' hnil, hbind, hbind, hput,
        h.same other hother]
  · have hapart : Apart (site.place ++ name :: names) (site.place ++ [other]) :=
      apart_below (apart_of_ne (Ne.symm heq)) names
    rw [at?_change_of_apart hchange hapart.not_below hapart.not_above,
      at?_change_of_apart hchange' hapart.not_below hapart.not_above]
    exact h.same other hother

section Owner

variable (hfirm : site.IsFirm) (howner : IsOwner site stem others)

include hfirm howner

/-- What is put into the workspace can be put there in both worlds. -/
theorem Twin.change (h : Twin site stem alone among) (hnames : IsOwnPlace stem names)
    {inner inner' : Tree} (hleaf : IsLeaf alone.clock inner) (hleaf' : IsLeaf among.clock inner')
    (hsame : inner'.timeless = inner.timeless)
    (hfile : names = [stem ++ ".zip"] → inner.kind = .file ∧
      World.allowed (join site.root (stem ++ ".zip")) = .ok ())
    (hparent : alone.tree.kindAt (site.place ++ names.dropLast) = some .directory)
    (hparent' : among.tree.kindAt (site.place ++ names.dropLast) = some .directory) :
    ∃ next next', alone.change (site.place ++ names) (some inner) = .ok next ∧
      among.change (site.place ++ names) (some inner') = .ok next' ∧ Twin site stem next next' ∧
      Guarantees site (namesOf stem) others among next' := by
  have hne : names ≠ [] := by
    rcases hnames with ⟨more, -, rfl⟩ | rfl <;> exact List.cons_ne_nil _ _
  have hplace : site.place ++ names = site.place ++ names.dropLast ++ [names.getLast hne] := by
    rw [List.append_assoc, List.dropLast_concat_getLast]
  have hdone (world : World) (put : Tree)
      (hdirectory : world.tree.kindAt (site.place ++ names.dropLast) = some .directory) :
      ∃ next : World, world.tree.change? world.clock (some put) (site.place ++ names) = some next.tree ∧
        world.change (site.place ++ names) (some put) = .ok next ∧
        next = { world with tree := next.tree } := by
    obtain ⟨changed, hchanged⟩ : ∃ changed, world.tree.change? world.clock (some put)
        (site.place ++ names.dropLast ++ [names.getLast hne]) = some changed :=
      exists_change (World.isDirectory_iff.mpr hdirectory)
    rw [← hplace] at hchanged
    exact ⟨{ world with tree := changed }, hchanged, change_eq_ok_iff.mpr ⟨hchanged, rfl⟩, rfl⟩
  obtain ⟨next, htree, hchange, hnext⟩ := hdone alone inner hparent
  obtain ⟨next', htree', hchange', hnext'⟩ := hdone among inner' hparent'
  obtain ⟨name, more, hname, rfl⟩ := hnames.cases
  have hisName : ∀ other ∈ site.place ++ name :: more, isName other :=
    List.forall_mem_append.mpr ⟨hfirm.isName_place, hnames.isName howner.isName⟩
  have hproper (put : Tree) (hput : put.isProper) : ∀ inner, some put = some inner → inner.isProper := by
    rintro inner ⟨⟩
    exact hput
  have hput : (some inner').map timeless = (some inner).map timeless := congrArg some hsame
  refine ⟨next, next', hchange, hchange', ?_, ?_⟩
  · refine ⟨?_, ?_, h.varies.change (howner.ours name hname) hisName (hproper _ hleaf.proper) htree,
      h.variesAmong.change (howner.ours name hname) hisName (hproper _ hleaf'.proper) htree',
      h.tidy.change hnames hleaf (fun harchive => (hfile harchive).1) htree,
      h.same_change hput hname htree htree', h.allowed, fun hthere => ?_⟩
    · rw [hnext', hnext, h.sees]
      rfl
    · rw [hnext]
      exact h.here
    · by_cases harchive : name :: more = [stem ++ ".zip"]
      · exact (hfile harchive).2
      · refine h.allowedArchive fun hnone => hthere ?_
        -- only the archive itself is put in its place
        have hbelow : ¬ site.place ++ name :: more <+: site.place ++ [stem ++ ".zip"] := by
          obtain ⟨others, -, hcons⟩ := hnames.resolve_right harchive
          rw [hcons]
          exact (apart_below (apart_of_ne (ne_archive stem)) others).not_below
        rw [kindAt_change htree hbelow, hnone]
  · refine .of_change h.variesAmong (howner.ours name hname) (howner.spared name hname) hisName
      (hproper _ hleaf'.proper) (fun names found hfound => ?_) hchange'
    rw [hleaf'.below names found hfound, hleaf'.modified]

end Owner

end Twins

end Wireframe.Export
