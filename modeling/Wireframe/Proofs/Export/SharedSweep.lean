/-
Sweeping a work root that is shared.

Workspaces of other exports that are under way are found when a work root is swept, but they are too
young to be swept away.  They are listed first and removed later; what is listed then is no older than
the export that it belongs to, and that export is still young when something of it is to be removed.

* `Young` — workspaces of others are too young;
* `Idle` — an export has not made its workspace yet;
* `sound_sweep` — sweeping spares the workspaces of others.
-/
import Wireframe.Proofs.Export.Site

namespace Wireframe.Export

open Files World Tree

/-- Whatever others have in the work root under a name of workspaces of a project is not older than
`began`, and that is less than `age` seconds ago. -/
def Young (ground : Ground) (others : List String) (slug : String) (age : Nat) (began : Int)
    (world : World) : Prop :=
  ∀ name ∈ others, isWorkspaceName name slug = true → ∀ inner,
    world.tree.at? (ground.place ++ [name]) = some inner →
      began ≤ inner.modified ∧ world.clock < began + age

/-- An export has not made its workspace yet; nothing else is different for it but files and time. -/
structure Idle (ground : Ground) (own : List String) (before world : World) : Prop where
  sees : world = before.sees world
  allows : ground.Allows world.tree
  free : ∀ name ∈ own, world.tree.at? (ground.place ++ [name]) = none

section Sweeping

variable {site : Site} {own others : List String} {slug : String} {age : Nat} {began : Int}
  {before world later after : World} {quiet : World → Prop}

namespace Idle

theorem here_eq (h : Idle site own before world) : world.here = before.here := by
  rw [h.sees]
  rfl

theorem relies (h : Idle site own before world) (hrelies : Relies site own others quiet world later) :
    Idle site own before later where
  sees := by
    rw [hrelies.sees, h.sees]
    rfl
  allows := hrelies.step.allows
  free := fun name hname => (hrelies.own_eq hname).trans (h.free name hname)

/-- What is swept away is not the workspace that has not been made. -/
theorem loses {name : String} (h : Idle site own before world) (hallows : site.Allows after.tree)
    (hloses : Loses world (site.place ++ [name]) after) : Idle site own before after where
  sees := sees_of_change h.sees hloses.eq_with
  allows := hallows
  free := by
    intro other hother
    have hne : name ≠ other := by
      rintro rfl
      exact hloses.there (kindAt_eq_none_iff.mpr (h.free name hother))
    have hapart : Apart (site.place ++ [name]) (site.place ++ [other]) := apart_of_ne hne
    rw [hloses.at?_of_apart hapart.not_below hapart.not_above, h.free other hother]

end Idle

/-- An entry of the work root that is to be swept away. -/
structure IsSweepable (others : List String) (slug : String) (age : Nat) (began now : Int)
    (entry : DirEntry) : Prop where
  isName : isName entry.name
  ofProject : isWorkspaceName entry.name slug = true
  stale : isStale now age entry = true
  dated : entry.name ∈ others → began ≤ entry.modified

/-- Workspaces of others are too young. -/
theorem Young.notMem {now : Int} {entry : DirEntry} (h : Young site others slug age began world)
    (hentry : IsSweepable others slug age began now entry) (hnow : now ≤ world.clock)
    (hthere : world.tree.kindAt (site.place ++ [entry.name]) ≠ none) : entry.name ∉ others := by
  intro hmem
  obtain ⟨inner, hinner⟩ := Option.ne_none_iff_exists'.mp fun hnone =>
    hthere (kindAt_eq_none_iff.mpr hnone)
  obtain ⟨-, hclock⟩ := h entry.name hmem hentry.ofProject inner hinner
  have hdated := hentry.dated hmem
  have hstale := hentry.stale
  rw [isStale, Bool.and_eq_true, decide_eq_true_iff, decide_eq_true_iff] at hstale
  omega

/-- The workspaces of others are found to be no older than they are. -/
theorem isSweepable_of_mem (hfirm : site.IsFirm) (hhere : before.here = site.here) {now : Int}
    {found : List DirEntry} {entry : DirEntry}
    (hworld : Idle site own before world) (hyoung : Young site others slug age began world)
    (hfound : world.entries site.root = .ok found)
    (hentry : entry ∈ found.filter fun entry =>
      isWorkspaceName entry.name slug && isStale now age entry) :
    IsSweepable others slug age began now entry := by
  obtain ⟨place, entries, modified, hreaches, hat, rfl⟩ := (entries_eq_ok_iff.mp hfound).2
  obtain ⟨rfl, hvaries⟩ := hfirm.varies_of_reaches (hworld.here_eq.trans hhere) hworld.allows hreaches
  obtain ⟨hlist, hstale⟩ := List.mem_filter.mp hentry
  obtain ⟨⟨name, tree⟩, hmem, rfl⟩ := List.mem_map.mp hlist
  obtain ⟨hproject, hstale⟩ := Bool.and_eq_true_iff.mp hstale
  have hproper : areProper entries := by
    have hinner := (isProper_at? hvaries.proper hat).1
    rwa [isProper] at hinner
  refine ⟨((areProper_iff.mp hproper).2 (name, tree) hmem).1, hproject, hstale, fun hother => ?_⟩
  have hinner : world.tree.at? (site.place ++ [name]) = some tree := by
    rw [at?_append, hat, Option.bind_some, at?_directory_cons, (lookup_eq_some_iff hproper).mpr hmem]
    exact at?_nil tree
  exact (hyoung name hother hproject tree hinner).1

variable (hfirm : site.IsFirm) (hslug : slug ∈ site.slugs) (hhere : before.here = site.here)

include hfirm hslug hhere

/-- To remove an entry that is to be swept away is a step that spares the workspaces of others. -/
theorem sound_removeEntry {now : Int} {entry : DirEntry}
    (hentry : IsSweepable others slug age began now entry) (hworld : Idle site own before world)
    (hnow : now ≤ world.clock) :
    Sound (Relies site own others (Young site others slug age began)) (Guarantees site own others)
      (fun _ later => Idle site own before later ∧ now ≤ later.clock)
      (removeEntry site.root entry) world := by
  -- Whenever the request comes, the other side has left the workspace as it is.
  have hsettle (directory : Bool) (later : World)
      (hlater : Relies site own others (Young site others slug age began) world later) :
      Guarantees site own others later
          (later.settle (later.remove directory (join site.root entry.name))).2 ∧
        Idle site own before
          (later.settle (later.remove directory (join site.root entry.name))).2 := by
    have hidle := hworld.relies hlater
    rcases settle_remove_cases hentry.isName with ⟨heq, -⟩ | ⟨parent, hreaches, hloses⟩
    · rw [heq]
      exact ⟨.of_same hidle.allows rfl rfl rfl, hidle⟩
    · obtain ⟨rfl, hvaries⟩ :=
        hfirm.varies_of_reaches (hidle.here_eq.trans hhere) hidle.allows hreaches
      -- An entry that is there is none of the other side, as it is too old to be.
      have hothers := hlater.quiet.notMem hentry (hnow.trans hlater.step.clock) hloses.there
      have hnames : ∀ name ∈ site.place ++ [entry.name], isName name :=
        List.forall_mem_append.mpr ⟨hfirm.isName_place, List.forall_mem_singleton.mpr hentry.isName⟩
      have hguarantees : Guarantees site own others later _ :=
        .of_change hvaries ⟨slug, hslug, hentry.ofProject⟩ hothers hnames
          (by rintro inner ⟨⟩) (by rintro names inner ⟨⟩) hloses.change
      exact ⟨hguarantees, hidle.loses hguarantees.step.allows hloses⟩
  -- The clock only goes on, so what was old enough remains so.
  have hrequest (directory : Bool) (later : World)
      (hlater : Relies site own others (Young site others slug age began) world later) :=
    And.intro (hsettle directory later hlater).1 fun last
      (hlast : Relies site own others (Young site others slug age began)
        (later.settle (later.remove directory (join site.root entry.name))).2 last) =>
      And.intro ((hsettle directory later hlater).2.relies hlast)
        (hnow.trans (hlater.step.clock.trans
          ((hsettle directory later hlater).1.step.clock.trans hlast.step.clock)))
  unfold removeEntry
  split
  · exact .request (hrequest true)
  · exact .request (hrequest false)

theorem sound_removeEntries {now : Int} {entries : List DirEntry}
    (hentries : ∀ entry ∈ entries, IsSweepable others slug age began now entry)
    (hworld : Idle site own before world) (hnow : now ≤ world.clock) :
    Sound (Relies site own others (Young site others slug age began)) (Guarantees site own others)
      (fun _ later => Idle site own before later) (removeEntries site.root entries) world := by
  have hrely : IsRely (Relies site own others (Young site others slug age began)) := isRely_relies _
  induction entries generalizing world with
  | nil => exact fun later hlater => hworld.relies hlater
  | cons entry entries ih =>
      obtain ⟨hentry, hrest⟩ := List.forall_mem_cons.mp hentries
      refine (sound_removeEntry hfirm hslug hhere hentry hworld hnow).bind hrely
        fun result next hnext => ?_
      refine (ih hrest hnext.1 hnext.2).bind hrely fun removed last hlast => ?_
      cases result with
      | ok => exact fun later hlater => hlast.relies hlater
      | error => exact fun later hlater => hlast.relies hlater

/-- Sweeping spares the workspaces of others. -/
theorem sound_sweep (hworld : Idle site own before world) :
    Sound (Relies site own others (Young site others slug age began)) (Guarantees site own others)
      (fun _ later => Idle site own before later) (sweep site.root slug age) world := by
  have hrely : IsRely (Relies site own others (Young site others slug age began)) := isRely_relies _
  -- What is listed may be swept, at whatever time that is asked for later.
  have hlisted : Sound (Relies site own others (Young site others slug age began))
      (Guarantees site own others)
      (fun reply later => Idle site own before later ∧ ∀ found, reply = .ok found → ∀ now,
        ∀ entry ∈ found.filter fun entry => isWorkspaceName entry.name slug && isStale now age entry,
          IsSweepable others slug age began now entry)
      (Script.request (.entries site.root)) world := by
    refine .request fun later hlater => ⟨.of_same hlater.step.allows rfl rfl rfl,
      fun last hlast => ⟨(hworld.relies hlater).relies hlast, fun found hfound now entry hentry => ?_⟩⟩
    exact isSweepable_of_mem hfirm hhere (hworld.relies hlater) hlater.quiet hfound hentry
  refine hlisted.bind hrely fun reply next hnext => ?_
  obtain ⟨hidle, hfound⟩ := hnext
  cases reply with
  | error fault => exact fun later hlater => hidle.relies hlater
  | ok found =>
      -- The time that is told is not after the clock.
      have htime : Sound (Relies site own others (Young site others slug age began))
          (Guarantees site own others) (fun now later => Idle site own before later ∧ now ≤ later.clock)
          (Script.request .time) next :=
        .request fun later hlater => ⟨.of_same hlater.step.allows rfl rfl rfl,
          fun last hlast => ⟨(hidle.relies hlater).relies hlast, hlast.step.clock⟩⟩
      refine htime.bind hrely fun now last hlast => ?_
      exact sound_removeEntries hfirm hslug hhere (hfound found rfl now) hlast.1 hlast.2

end Sweeping

end Wireframe.Export
