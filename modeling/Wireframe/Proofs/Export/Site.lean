/-
Work roots that are shared.

Exports that share a work root change nothing but their own workspaces, and sweep away workspaces of
their own projects.  So outside of workspaces all files are as they were when the work root was made.

* `Ground`, `Ground.Varies` — a work root, and files that differ in workspaces only;
* `Site`, `Site.IsFirm` — a path that leads there and stays where it is;
* `Step` — what an export may do to files, and what it spares;
* `Step.of_change` — a change in a workspace;
* `Guarantees`, `Relies` — what an export does, and what it takes for granted.
-/
import Wireframe.Proofs.Export.InUse
import Wireframe.Proofs.Files.Company
import Wireframe.Proofs.Files.Making
import Wireframe.Proofs.Files.Removal

namespace Wireframe.Export

open Files World Tree

/-- A directory that projects share as their work root: its place, and all files, as they are before
anything is done and when the directory has been made. -/
structure Ground where
  place : List String
  slugs : List String
  start : Tree
  made : Tree

namespace Ground

/-- The name of a workspace of one of the projects. -/
def IsOurs (ground : Ground) (name : String) : Prop :=
  ∃ slug ∈ ground.slugs, isWorkspaceName name slug = true

/-- All files are as they were when the work root was made, but for workspaces and times. -/
structure Varies (ground : Ground) (tree : Tree) : Prop where
  proper : tree.isProper
  kinds : ∀ q, (∀ name, ground.IsOurs name → ¬ ground.place ++ [name] <+: q) →
    tree.kindAt q = ground.made.kindAt q
  trees : ∀ q, (∀ name, ground.IsOurs name → Apart (ground.place ++ [name]) q) →
    (tree.at? q).map timeless = (ground.made.at? q).map timeless

/-- Nothing has been done yet, or the work root has been made. -/
def Allows (ground : Ground) (tree : Tree) : Prop := tree = ground.start ∨ ground.Varies tree

end Ground

/-- How an export comes to a work root that is shared: by a path, which is taken from a directory. -/
structure Site extends Ground where
  root : String
  here : List String

instance : Coe Site Ground := ⟨Site.toGround⟩

/-- The work root can be made, and then it leads to its place whatever becomes of the workspaces. -/
structure Site.IsFirm (site : Site) : Prop where
  proper : site.start.isProper
  makes : ∀ world : World, world.here = site.here → world.tree = site.start →
    ∃ after, world.makeAlong (world.startOf site.root) [] (below site.root) = (.ok (), after) ∧
      after.tree.timeless = site.made.timeless
  varies : site.Varies site.made
  reaches : ∀ world : World, world.here = site.here → site.Varies world.tree →
    world.Reaches site.root site.place

section Sites

variable {ground : Ground} {world after : World} {tree changed : Tree} {place names : List String}
  {name : String} {put : Option Tree}

/-- What is apart from a name in a directory is apart from everything below the name. -/
theorem apart_below {q : List String} (h : Apart (place ++ [name]) q) (names : List String) :
    Apart (place ++ name :: names) q := by
  rw [List.append_cons]
  exact h.append names

namespace Ground

theorem Varies.congr (h : ground.Varies tree) (hproper : changed.isProper)
    (htimeless : changed.timeless = tree.timeless) : ground.Varies changed where
  proper := hproper
  kinds := fun q hq => by rw [← kindAt_timeless, htimeless, kindAt_timeless, h.kinds q hq]
  trees := fun q hq => by rw [← at?_timeless, htimeless, at?_timeless, h.trees q hq]

/-- Changes in workspaces are no others than are allowed. -/
theorem Varies.change (h : ground.Varies tree) (hname : ground.IsOurs name)
    (hnames : ∀ other ∈ ground.place ++ name :: names, isName other)
    (hput : ∀ inner, put = some inner → inner.isProper) {time : Int}
    (hchange : tree.change? time put (ground.place ++ name :: names) = some changed) :
    ground.Varies changed where
  proper := isProper_change hchange h.proper hnames hput
  kinds := by
    intro q hq
    have hbelow : ¬ ground.place ++ name :: names <+: q := by
      rw [List.append_cons]
      exact fun hbelow => hq name hname ((List.prefix_append _ _).trans hbelow)
    rw [kindAt_change hchange hbelow, h.kinds q hq]
  trees := by
    intro q hq
    have hapart := apart_below (hq name hname) names
    rw [at?_change_of_apart hchange hapart.not_below hapart.not_above, h.trees q hq]

end Ground

/-- Directories that are made along a path keep a tree proper. -/
theorem isProper_makeAlong (hproper : world.tree.isProper) {start : List String} {path : String}
    (hnames : ∀ piece ∈ names, piece ∈ pieces path) :
    (world.makeAlong start [] names).2.tree.isProper := by
  refine makeAlong_induction (P := fun world => world.tree.isProper)
    (fun before after front place hfront hbegins _ hbefore hwalk hadds => ?_) hproper
  obtain ⟨first, name, rfl⟩ := (List.eq_nil_or_concat' front).resolve_left hfront
  obtain ⟨left, parent, -, hlast⟩ := (walk_append_iff (List.cons_ne_nil _ _)).mp hwalk
  obtain ⟨hname, rfl⟩ := eq_append_of_walk_last hlast (kindAt_eq_none_iff.mpr hadds.free)
  have hisName : isName name := isName_of_mem_pieces
    (hnames name (hbegins.subset (List.mem_append_right _ (List.mem_singleton_self name)))) hname
  obtain ⟨inner, hinner, -⟩ := Option.map_eq_some_iff.mp ((walk_name_iff hname).mp hlast).1
  exact hadds.isProper hbefore (List.forall_mem_append.mpr
    ⟨(isProper_at? hbefore hinner).2, List.forall_mem_singleton.mpr hisName⟩)

namespace Site.IsFirm

variable {site : Site}

/-- The work root leads nowhere else, and if it leads there it need not be made. -/
theorem varies_of_reaches (h : site.IsFirm) (hhere : world.here = site.here)
    (hallows : site.Allows world.tree) (hreaches : world.Reaches site.root place) :
    place = site.place ∧ site.Varies world.tree := by
  have hvaries : site.Varies world.tree := by
    rcases hallows with hstart | hvaries
    · obtain ⟨after, hmakes, htimeless⟩ := h.makes world hhere hstart
      obtain ⟨left, hleads⟩ := hreaches.leads
      have hleads : Leads world.tree linkLimit (world.startOf site.root) ([] ++ below site.root) left
        place := hleads
      have hsame := makeAlong_of_leads hleads hreaches.directory (isShort_of_makeAlong hmakes)
      obtain rfl := (Prod.mk.inj (hsame.symm.trans hmakes)).2
      exact h.varies.congr (hstart ▸ h.proper) htimeless
    · exact hvaries
  exact ⟨(h.reaches world hhere hvaries).unique hreaches, hvaries⟩

theorem isShort_below (h : site.IsFirm) : ∀ name ∈ below site.root, isShort name := by
  obtain ⟨after, hmakes, -⟩ := h.makes { tree := site.start, here := site.here } rfl rfl
  exact isShort_of_makeAlong hmakes

theorem isName_place (h : site.IsFirm) : ∀ name ∈ site.place, isName name := by
  have hreaches : ({ tree := site.made, here := site.here } : World).Reaches site.root site.place :=
    h.reaches _ rfl h.varies
  obtain ⟨inner, hinner, -⟩ := Option.map_eq_some_iff.mp hreaches.directory
  exact (isProper_at? h.varies.proper hinner).2

end Site.IsFirm

end Sites

/-! ### Steps -/

/-- What an export does to files in one step or several: entries of the work root with some names are
not touched, and its own are as old as before or have been changed in the meantime. -/
structure Step (ground : Ground) (own others : List String) (before after : World) : Prop where
  clock : before.clock ≤ after.clock
  allows : ground.Allows after.tree
  varies : ground.Varies before.tree → ground.Varies after.tree
  spares : ∀ name ∈ others,
    after.tree.at? (ground.place ++ [name]) = before.tree.at? (ground.place ++ [name])
  dates : ∀ name ∈ own, ∀ inner, after.tree.at? (ground.place ++ [name]) = some inner →
    (∃ old, before.tree.at? (ground.place ++ [name]) = some old ∧ old.modified = inner.modified) ∨
      before.clock ≤ inner.modified

section Steps

variable {ground : Ground} {own others names : List String} {before world after : World} {name : String}
  {put : Option Tree}

namespace Step

theorem refl (hallows : ground.Allows world.tree) : Step ground own others world world where
  clock := Int.le_refl _
  allows := hallows
  varies := id
  spares := fun _ _ => rfl
  dates := fun _ _ inner hinner => .inl ⟨inner, hinner, rfl⟩

theorem trans (h : Step ground own others before world) (h' : Step ground own others world after) :
    Step ground own others before after where
  clock := h.clock.trans h'.clock
  allows := h'.allows
  varies := h'.varies ∘ h.varies
  spares := fun name hname => (h'.spares name hname).trans (h.spares name hname)
  dates := by
    intro name hname inner hinner
    obtain ⟨old, hold, hdate⟩ | hlate := h'.dates name hname inner hinner
    · obtain ⟨older, holder, hsame⟩ | hlate := h.dates name hname old hold
      · exact .inl ⟨older, holder, hsame.trans hdate⟩
      · exact .inr (hdate ▸ hlate)
    · exact .inr (h.clock.trans hlate)

/-- A step is one of files and time. -/
theorem congr (h : Step ground own others before world) {before' world' : World}
    (htree : before'.tree = before.tree) (hclock : before'.clock = before.clock)
    (htree' : world'.tree = world.tree) (hclock' : world'.clock = world.clock) :
    Step ground own others before' world' where
  clock := by
    rw [hclock, hclock']
    exact h.clock
  allows := htree' ▸ h.allows
  varies := by
    rw [htree, htree']
    exact h.varies
  spares := by
    rw [htree, htree']
    exact h.spares
  dates := by
    rw [htree, htree', hclock]
    exact h.dates

/-- A change in a workspace is a step that spares all others. -/
theorem of_change (hvaries : ground.Varies world.tree) (hours : ground.IsOurs name)
    (hothers : name ∉ others) (hnames : ∀ other ∈ ground.place ++ name :: names, isName other)
    (hput : ∀ inner, put = some inner → inner.isProper)
    (hdate : ∀ names inner, put.bind (at? names) = some inner → inner.modified = world.clock)
    (h : world.change (ground.place ++ name :: names) put = .ok after) :
    Step ground own others world after := by
  obtain ⟨htree, heq⟩ := change_eq_ok_iff.mp h
  have hclock : after.clock = world.clock := by
    rw [heq]
  have hafter := hvaries.change hours hnames hput htree
  refine ⟨hclock.ge, .inr hafter, fun _ => hafter, fun other hother => ?_,
    fun other _ inner hinner => ?_⟩
  · have hne : name ≠ other := by
      rintro rfl
      exact hothers hother
    have hapart : Apart (ground.place ++ name :: names) (ground.place ++ [other]) :=
      apart_below (apart_of_ne hne) names
    exact at?_change_of_apart htree hapart.not_below hapart.not_above
  · exact (modified_change htree hdate hinner).imp_right fun hlate => hlate.ge

end Step

/-- What an export does. -/
structure Guarantees (ground : Ground) (own others : List String) (before after : World) : Prop where
  here : after.here = before.here
  step : Step ground own others before after

/-- What an export takes for granted about others. -/
structure Relies (ground : Ground) (own others : List String) (quiet : World → Prop)
    (before after : World) : Prop where
  sees : after = before.sees after
  step : Step ground others own before after
  quiet : quiet after

theorem isRely_relies (quiet : World → Prop) : IsRely (Relies ground own others quiet) where
  refl := fun _ _ h => ⟨rfl, .refl h.step.allows, h.quiet⟩
  trans := by
    intro first second third h h'
    refine ⟨?_, h.step.trans h'.step, h'.quiet⟩
    rw [h'.sees, h.sees]
    rfl

namespace Relies

variable {quiet : World → Prop}

theorem here_eq (h : Relies ground own others quiet before after) : after.here = before.here := by
  rw [h.sees]
  rfl

theorem own_eq (h : Relies ground own others quiet before after) (hname : name ∈ own) :
    after.tree.at? (ground.place ++ [name]) = before.tree.at? (ground.place ++ [name]) :=
  h.step.spares name hname

end Relies

/-- Nothing is done by looking. -/
theorem Guarantees.of_same (hallows : ground.Allows world.tree) (htree : after.tree = world.tree)
    (hhere : after.here = world.here) (hclock : after.clock = world.clock) :
    Guarantees ground own others world after :=
  ⟨hhere, (Step.refl hallows).congr rfl rfl htree hclock⟩

theorem Guarantees.trans (h : Guarantees ground own others before world)
    (h' : Guarantees ground own others world after) : Guarantees ground own others before after :=
  ⟨h'.here.trans h.here, h.step.trans h'.step⟩

/-- A change in a workspace. -/
theorem Guarantees.of_change (hvaries : ground.Varies world.tree) (hours : ground.IsOurs name)
    (hothers : name ∉ others) (hnames : ∀ other ∈ ground.place ++ name :: names, isName other)
    (hput : ∀ inner, put = some inner → inner.isProper)
    (hdate : ∀ names inner, put.bind (at? names) = some inner → inner.modified = world.clock)
    (h : world.change (ground.place ++ name :: names) put = .ok after) :
    Guarantees ground own others world after := by
  refine ⟨?_, .of_change hvaries hours hothers hnames hput hdate h⟩
  rw [(change_eq_ok_iff.mp h).2]

end Steps

end Wireframe.Export
