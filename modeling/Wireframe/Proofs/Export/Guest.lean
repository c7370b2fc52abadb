/-
An export beside others.

An export that shares its work root sweeps it first, and then makes, fills and removes a workspace of its
own.  What comes of this, and what is handed out, is the same whatever others do beside it.

* `IsSteady` — a skeleton that stays where it is;
* `IsGuest` — an export that shares its work root;
* `sound_exportSources`, `sound_exportProject` — what comes of it.
-/
import Wireframe.Proofs.Export.Beside
import Wireframe.Proofs.Export.WorkspaceName

namespace Wireframe.Export

open Files World Tree

section Guests

variable {archiver : Archiver} {site : Site} {others : List String} {before world after : World}
  {source : String} {project : Design.Project} {options : Options}

/-! ### The skeleton -/

/-- Where the path of a skeleton leads does not depend on workspaces, and no part of the skeleton is in
one of them. -/
structure IsSteady (site : Site) (source : String) : Prop where
  stays : ∀ world other : World, world.here = site.here → other.here = site.here →
    site.Allows world.tree → site.Allows other.tree → ∀ origin, world.Reaches source origin →
      other.Reaches source origin
  apart : ∀ world : World, world.here = site.here → site.Allows world.tree → ∀ origin,
    world.Reaches source origin → ∀ names name, site.IsOurs name →
      Apart (site.place ++ [name]) (origin ++ names)

namespace IsSteady

/-- There is a skeleton in all worlds, or in none. -/
theorem isDirectory_eq (h : IsSteady site source) (hhere : world.here = site.here)
    (hhere' : after.here = site.here) (hallows : site.Allows world.tree)
    (hallows' : site.Allows after.tree) : after.isDirectory source = world.isDirectory source := by
  refine Bool.eq_iff_iff.mpr ?_
  rw [isDirectory_iff_reaches, isDirectory_iff_reaches]
  refine and_congr_right fun _ => exists_congr fun origin => ⟨?_, ?_⟩
  · exact h.stays after world hhere' hhere hallows' hallows origin
  · exact h.stays world after hhere hhere' hallows hallows' origin

theorem exists_stands (h : IsSteady site source) (hhere : world.here = site.here)
    (hallows : site.Allows world.tree) (hdirectory : world.isDirectory source = true) :
    ∃ origin, Stands site source origin := by
  obtain ⟨-, origin, hreaches⟩ := isDirectory_iff_reaches.mp hdirectory
  exact ⟨origin, fun other hother hvaries => h.stays world other hhere hother hallows (.inr hvaries)
    origin hreaches, h.apart world hhere hallows origin hreaches⟩

end IsSteady

/-! ### Exports -/

/-- The names of the workspace that an export of the project makes next. -/
def nextNames (project : Design.Project) (world : World) : List String :=
  namesOf (stemOf project (idText world.issued))

/-- An export of a project of the work root; the names of its workspace are new, and those of other
exports are too. -/
structure IsGuest (site : Site) (project : Design.Project) (options : Options) (others : List String)
    (before : World) : Prop where
  root : options.workRoot = site.root
  slug : slug project ∈ site.slugs
  here : before.here = site.here
  spared : ∀ name ∈ nextNames project before, name ∉ others
  fresh : ∀ name ∈ nextNames project before ++ others, site.made.at? (site.place ++ [name]) = none
  steady : IsSteady site options.skeleton

theorem IsGuest.owner (h : IsGuest site project options others before) :
    IsOwner site (stemOf project (idText before.issued)) others where
  isName := isName_stemOf project before.issued
  ours := by
    intro name hname
    obtain ⟨hstem, harchive⟩ := isWorkspaceName_stemOf project before.issued
    rcases mem_namesOf.mp hname with rfl | rfl
    · exact ⟨_, h.slug, hstem⟩
    · exact ⟨_, h.slug, harchive⟩
  spared := h.spared

/-- What is relied on by an export whose workspaces are swept away when they are too old. -/
abbrev GuestRelies (site : Site) (project : Design.Project) (options : Options) (others : List String)
    (before : World) (began : Int) : World → World → Prop :=
  Relies site (nextNames project before) others
    (Young site others (slug project) options.staleAfter began)

/-- An export for which there is a skeleton and an app: whatever others do, it has the result that it
has where there is nobody else, and its workspace is gone. -/
theorem sound_exportSources {sources : App.Sources} {origin : List String} (hfirm : site.IsFirm)
    (hguest : IsGuest site project options others before)
    (hstands : Stands site options.skeleton origin)
    (hfiles : ∀ file ∈ sources.files, IsNested file.path) :
    ∃ result last, ∀ began world, Idle site (nextNames project before) before world →
      Sound (GuestRelies site project options others before began)
        (Guarantees site (nextNames project before) others)
        (fun reply later => reply = result ∧ Idle site (nextNames project before) last later)
        (exportSources archiver project sources options) world := by
  -- The world that the export would be in alone, with its number given out.
  let alone : World := { before with tree := site.made, issued := before.issued + 1 }
  let workspace := Workspace.of site.root (slug project) (idText before.issued)
  let filling := (fill archiver project sources options workspace).run
  refine ⟨(alone.run filling).1, (alone.run filling).2, fun began world hidle => ?_⟩
  have hrely : IsRely (GuestRelies site project options others before began) := isRely_relies _
  unfold exportSources
  rw [hguest.root]
  -- Sweeping comes first and removes nothing of what is in use.
  refine (sound_sweep hfirm hguest.slug hguest.here hidle).bind hrely fun count swept hswept => ?_
  -- The number is the same in both, as the other side is given its own.
  have hid : Sound (GuestRelies site project options others before began)
      (Guarantees site (nextNames project before) others)
      (fun id later => id = idText before.issued ∧ Idle site (nextNames project before) alone later)
      (Script.request .freshId) swept := by
    refine .request fun later hlater => ?_
    have hidle := hswept.relies hlater
    have hissued : later.issued = before.issued := by
      rw [hidle.sees]
      rfl
    have hnumbered : Idle site (nextNames project before) alone (later.reply .freshId).2 := by
      refine ⟨?_, hidle.allows, hidle.free⟩
      rw [hidle.sees]
      rfl
    refine ⟨.of_same hlater.step.allows rfl rfl rfl, fun last hlast => ⟨?_, hnumbered.relies hlast⟩⟩
    exact congrArg idText hissued
  refine hid.bind hrely ?_
  rintro id started ⟨rfl, hstarted⟩
  -- The workspace is filled in step, and what it leaves is removed.
  have hhere : alone.here = site.here := hguest.here
  refine (sound_fill hfirm hguest.owner hguest.fresh hstands hfiles hhere rfl hstarted).bind hrely ?_
  rintro result filled ⟨hresult, hfilled⟩
  refine (sound_remove hfirm hguest.owner hfilled).bind hrely fun _ removed hremoved => ?_
  exact fun later hlater => ⟨hresult, hremoved.relies hlater⟩

/-- Whatever others do, an export has the result that it has where there is nobody else, and its
workspace is gone. -/
theorem sound_exportProject (hfirm : site.IsFirm)
    (hguest : IsGuest site project options others before) :
    ∃ result last, ∀ began world, Idle site (nextNames project before) before world →
      Sound (GuestRelies site project options others before began)
        (Guarantees site (nextNames project before) others)
        (fun reply later => reply = result ∧ Idle site (nextNames project before) last later)
        (exportProject archiver project options) world := by
  -- the skeleton is looked for in a world with the files of the beginning
  let start : World := { before with tree := site.start }
  have hhere : start.here = site.here := hguest.here
  have hrely (began : Int) : IsRely (GuestRelies site project options others before began) :=
    isRely_relies _
  have hfound (began : Int) (world : World) (hidle : Idle site (nextNames project before) before world) :
      Sound (GuestRelies site project options others before began)
        (Guarantees site (nextNames project before) others)
        (fun found later => found = start.isDirectory options.skeleton ∧
          Idle site (nextNames project before) before later)
        (Script.request (.isDirectory options.skeleton)) world := by
    refine .request fun later hlater => ?_
    have hlook := hidle.relies hlater
    refine ⟨.of_same hlater.step.allows rfl rfl rfl, fun last hlast => ⟨?_, hlook.relies hlast⟩⟩
    exact hguest.steady.isDirectory_eq hhere (hlook.here_eq.trans hguest.here) (.inl rfl)
      hlook.allows
  cases hdirectory : start.isDirectory options.skeleton with
  | false =>
      refine ⟨.error (.missingSkeleton options.skeleton), before, fun began world hidle => ?_⟩
      refine (hfound began world hidle).bind (hrely began) ?_
      rintro found looked ⟨rfl, hlooked⟩
      rw [hdirectory]
      exact fun later hlater => ⟨rfl, hlooked.relies hlater⟩
  | true =>
      obtain ⟨origin, hstands⟩ := hguest.steady.exists_stands hhere (.inl rfl) hdirectory
      cases hgenerate : App.generate project with
      | error failure =>
          refine ⟨.error failure, before, fun began world hidle => ?_⟩
          refine (hfound began world hidle).bind (hrely began) ?_
          rintro found looked ⟨rfl, hlooked⟩
          simp only [hdirectory, hgenerate]
          exact fun later hlater => ⟨rfl, hlooked.relies hlater⟩
      | ok sources =>
          obtain ⟨result, last, hsources⟩ :=
            sound_exportSources hfirm hguest hstands (isNested_of_generate hgenerate)
          refine ⟨result, last, fun began world hidle => ?_⟩
          refine (hfound began world hidle).bind (hrely began) ?_
          rintro found looked ⟨rfl, hlooked⟩
          simp only [hdirectory, hgenerate]
          exact hsources began looked hlooked

end Guests

end Wireframe.Export
