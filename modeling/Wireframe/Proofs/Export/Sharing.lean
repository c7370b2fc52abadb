/-
Two exports that share a work root.

Each of two exports sweeps the work root that they share, makes a workspace in it, fills the workspace,
hands out the archive and removes the workspace.  They may take turns as they like, one request at a
time.  Neither of them disturbs the other one as long as nobody takes longer than the other one allows
for; exports of projects with different names in their workspaces may take as long as they like.

* `Errand` — an export that is asked for in a world;
* `Shares` — two of them share a work root;
* `Undisturbed` — an export has come to the end that it comes to where there is nobody else;
* `undisturbed_of_play` — both of them do, whoever goes on when.
-/
import Wireframe.Proofs.Export.Guest
import Wireframe.Proofs.Export.Overlay
import Wireframe.Proofs.Export.Turns

namespace Wireframe.Export

open Files World Tree

/-- An export that is asked for in a world. -/
structure Errand where
  /-- What writes the archive. -/
  archiver : Archiver
  project : Design.Project
  options : Options
  world : World

namespace Errand

/-- All that there is to do. -/
def script (errand : Errand) : Script (Except Failure Summary) :=
  exportProject errand.archiver errand.project errand.options

/-- Nothing has been done yet. -/
def party (errand : Errand) : Party (Except Failure Summary) where
  script := errand.script
  world := errand.world

/-- The names of the workspace. -/
def names (errand : Errand) : List String := nextNames errand.project errand.world

/-- What comes of it where there is nobody else, and the world after that. -/
def alone (errand : Errand) : Except Failure Summary × World := errand.world.run errand.script

/-- How the export comes to a work root. -/
def site (errand : Errand) (ground : Ground) : Site where
  toGround := ground
  root := errand.options.workRoot
  here := errand.world.here

end Errand

/-- Two exports of which nothing has been done yet. -/
def company (left right : Errand) : Company (Except Failure Summary) := ⟨left.party, right.party⟩

/-- An export has a directory as its work root, which is there or can be made.  The path of the work root
leads there whatever becomes of workspaces, and the skeleton stays where it is, too. -/
structure WorksIn (errand : Errand) (ground : Ground) : Prop where
  tree : errand.world.tree = ground.start
  slug : slug errand.project ∈ ground.slugs
  makes : (errand.world.makeDirectory errand.options.workRoot).1 = .ok ()
  made : (errand.world.makeDirectory errand.options.workRoot).2.tree.timeless = ground.made.timeless
  reaches : ∀ world : World, world.here = errand.world.here → ground.Varies world.tree →
    world.Reaches errand.options.workRoot ground.place
  steady : IsSteady (errand.site ground) errand.options.skeleton

/-- Two exports have the same work root and the same time.  Their workspaces are to have different
numbers, and names that nothing has yet. -/
structure Shares (left right : Errand) (ground : Ground) : Prop where
  proper : ground.start.isProper
  clock : right.world.clock = left.world.clock
  numbers : idText left.world.issued ≠ idText right.world.issued
  fresh : ∀ name ∈ left.names ++ right.names, ground.made.at? (ground.place ++ [name]) = none
  left : WorksIn left ground
  right : WorksIn right ground

/-- An export has had the result that it has where there is nobody else, the same has been handed out,
and nothing in the work root has the name of its workspace. -/
structure Undisturbed (errand : Errand) (ground : Ground) (result : Except Failure Summary)
    (world : World) : Prop where
  result : result = errand.alone.1
  received : world.received = errand.alone.2.received
  directory : world.tree.at?
    (ground.place ++ [stemOf errand.project (idText errand.world.issued)]) = none
  archive : world.tree.at?
    (ground.place ++ [stemOf errand.project (idText errand.world.issued) ++ ".zip"]) = none

section Sharing

variable {left right errand : Errand} {ground : Ground} {turns : List Turn}

namespace WorksIn

theorem makeDirectory_eq (h : WorksIn errand ground) :
    errand.world.makeDirectory errand.options.workRoot =
      (.ok (), (errand.world.makeDirectory errand.options.workRoot).2) := by
  rw [← h.makes]

/-- The work root stays where it is. -/
theorem isFirm (h : WorksIn errand ground) (hproper : ground.start.isProper) :
    (errand.site ground).IsFirm := by
  have hroot := makeAlong_below h.makeDirectory_eq
  have hmade : (errand.world.makeAlong (errand.world.startOf errand.options.workRoot) []
      (below errand.options.workRoot)).2.tree.isProper :=
    isProper_makeAlong (h.tree ▸ hproper) fun piece hpiece => below_subset _ hpiece
  rw [hroot, ← isProper_timeless, h.made, isProper_timeless] at hmade
  refine ⟨hproper, fun world hhere htree => ?_, ⟨hmade, fun _ _ => rfl, fun _ _ => rfl⟩, h.reaches⟩
  -- the time does not matter when directories are made
  have halike : (world.makeAlong (errand.world.startOf errand.options.workRoot) []
        (below errand.options.workRoot)).1 =
      (errand.world.makeAlong (errand.world.startOf errand.options.workRoot) []
        (below errand.options.workRoot)).1 ∧
      (world.makeAlong (errand.world.startOf errand.options.workRoot) []
        (below errand.options.workRoot)).2.tree.timeless =
      (errand.world.makeAlong (errand.world.startOf errand.options.workRoot) []
        (below errand.options.workRoot)).2.tree.timeless :=
    makeAlong_alike (congrArg timeless (htree.trans h.tree.symm))
  rw [hroot] at halike
  have hstart : world.startOf errand.options.workRoot =
      errand.world.startOf errand.options.workRoot := by
    rw [startOf, startOf, hhere]
    rfl
  refine ⟨(world.makeAlong (errand.world.startOf errand.options.workRoot) []
    (below errand.options.workRoot)).2, ?_, halike.2.trans h.made⟩
  show world.makeAlong (world.startOf errand.options.workRoot) [] (below errand.options.workRoot) = _
  rw [hstart]
  exact congrArg (·, _) halike.1

/-- The export is a guest of the work root. -/
theorem isGuest (h : WorksIn errand ground) {others : List String}
    (hspared : ∀ name ∈ errand.names, name ∉ others)
    (hfresh : ∀ name ∈ errand.names ++ others, ground.made.at? (ground.place ++ [name]) = none) :
    IsGuest (errand.site ground) errand.project errand.options others errand.world where
  root := rfl
  slug := h.slug
  here := rfl
  spared := hspared
  fresh := hfresh
  steady := h.steady

/-- What has a name in the beginning has it when the work root has been made. -/
theorem at?_eq_none (h : WorksIn errand ground) {place : List String}
    (hplace : ground.made.at? place = none) : errand.world.tree.at? place = none := by
  have hmade : ((errand.world.makeDirectory errand.options.workRoot).2.tree.at? place).map timeless =
      none := by
    rw [← at?_timeless, h.made, at?_timeless, hplace]
    rfl
  exact (within_makeDirectory _ _).at?_eq_none (Option.map_eq_none_iff.mp hmade)

end WorksIn

namespace Shares

/-- The same from the other side. -/
theorem symm (h : Shares left right ground) : Shares right left ground where
  proper := h.proper
  clock := h.clock.symm
  numbers := h.numbers.symm
  fresh := fun name hname => h.fresh name (List.mem_append.mpr (List.mem_append.mp hname).symm)
  left := h.right
  right := h.left

theorem notMem_names (h : Shares left right ground) : ∀ name ∈ left.names, name ∉ right.names := by
  intro name hname hname'
  rcases mem_namesOf.mp hname with rfl | rfl <;> rcases mem_namesOf.mp hname' with heq | heq
  · exact h.numbers (stemOf_injective heq)
  · exact stemOf_ne_archive _ _ _ heq
  · exact stemOf_ne_archive _ _ _ heq.symm
  · exact h.numbers (stemOf_injective ((String.append_left_inj _).mp heq))

end Shares

/-! ### Where there is nobody else -/

/-- Whatever others do, what comes of an export is what comes of it where there is nobody else. -/
theorem sound_undisturbed {others : List String} (h : WorksIn errand ground)
    (hproper : ground.start.isProper) (hspared : ∀ name ∈ errand.names, name ∉ others)
    (hfresh : ∀ name ∈ errand.names ++ others, ground.made.at? (ground.place ++ [name]) = none)
    (began : Int) :
    Sound (Relies ground errand.names others
        (Young ground others (slug errand.project) errand.options.staleAfter began))
      (Guarantees ground errand.names others) (Undisturbed errand ground) errand.script
      errand.world := by
  obtain ⟨result, last, hsound⟩ :=
    sound_exportProject (h.isFirm hproper) (h.isGuest hspared hfresh)
  have hidle : Idle ground errand.names errand.world errand.world :=
    ⟨rfl, .inl h.tree, fun name hname => h.at?_eq_none (hfresh name (List.mem_append_left _ hname))⟩
  have halone : errand.alone.1 = result ∧ Idle ground errand.names last errand.alone.2 := by
    -- where there is nobody else there are no workspaces of others
    refine (hsound began errand.world hidle).run
      (fun world => ground.Allows world.tree ∧ IsFree ground others world) (fun world hworld => ?_)
      (fun world after hworld hguarantees => ?_) ⟨hidle.allows, fun name hname => ?_⟩
    · refine ⟨rfl, .refl hworld.1, fun name hname _ inner hinner => ?_⟩
      cases (hworld.2 name hname).symm.trans hinner
    · exact ⟨hguarantees.step.allows, fun name hname =>
        (hguarantees.step.spares name hname).trans (hworld.2 name hname)⟩
    · exact h.at?_eq_none (hfresh name (List.mem_append_right _ hname))
  refine (hsound began errand.world hidle).mono ?_
  rintro reply later ⟨rfl, hlater⟩
  refine ⟨halone.1.symm, ?_, hlater.free _ (mem_namesOf.mpr (.inl rfl)),
    hlater.free _ (mem_namesOf.mpr (.inr rfl))⟩
  rw [hlater.sees]
  exact (congrArg World.received halone.2.sees).symm

/-! ### Turn by turn -/

/-- The part of an export that is to be undisturbed. -/
def Errand.role (errand : Errand) (ground : Ground) : Role (Except Failure Summary) where
  names := errand.names
  slug := slug errand.project
  age := errand.options.staleAfter
  post := Undisturbed errand ground

theorem Undisturbed.isFree {result : Except Failure Summary} {world : World}
    (h : Undisturbed errand ground result world) : IsFree ground errand.names world := by
  intro name hname
  rcases mem_namesOf.mp hname with rfl | rfl
  · exact h.directory
  · exact h.archive

/-- The workspace of a project with another slug is not one of the project. -/
theorem not_isWorkspaceName_of_mem_names {project : Design.Project} {name : String}
    (hslug : slug errand.project ≠ slug project) (hname : name ∈ errand.names) :
    ¬ isWorkspaceName name (slug project) := by
  intro hproject
  rcases mem_namesOf.mp hname with rfl | rfl
  · exact hslug (slug_eq_of_isWorkspaceName (toList_stemOf _ _) hproject)
  · have hname : (stemOf errand.project (idText errand.world.issued) ++ ".zip").toList =
        (slug errand.project).toList ++
          '-' :: ((idText errand.world.issued).toList ++ archiveEnding) := by
      rw [toList_archive, toList_stemOf, List.append_assoc]
      rfl
    exact hslug (slug_eq_of_isWorkspaceName hname hproject)

namespace Shares

/-- In the beginning an export is ready to do its part. -/
theorem goes (h : Shares left right ground) :
    Goes ground (left.role ground) (right.role ground) left.party right.party := by
  have hfree : IsFree ground left.names left.world := fun name hname =>
    h.left.at?_eq_none (h.fresh name (List.mem_append_left _ hname))
  exact ⟨.inl h.left.tree, ⟨fun _ => hfree, nofun, fun _ => hfree⟩, fun began _ =>
    sound_undisturbed h.left h.proper h.notMem_names h.fresh began⟩

theorem both (h : Shares left right ground) :
    Both ground (left.role ground) (right.role ground) (company left right) :=
  ⟨⟨h.right.tree.trans h.left.tree.symm, h.clock⟩, h.goes, h.symm.goes⟩

end Shares

/-- Exports that share a work root do not disturb each other, whoever goes on when, if no export takes as
long as the other one takes to sweep its workspace away, or if their projects have different slugs. -/
theorem undisturbed_of_play (h : Shares left right ground)
    (hsafe : slug left.project ≠ slug right.project ∨ (company left right).InTime turns
      right.options.staleAfter left.options.staleAfter) :
    (∀ result, ((company left right).play turns).left.script = .done result →
      Undisturbed left ground result ((company left right).play turns).left.world) ∧
    ∀ result, ((company left right).play turns).right.script = .done result →
      Undisturbed right ground result ((company left right).play turns).right.world := by
  have hfronts : ∀ front, front <+: turns → AreSafe (left.role ground) (right.role ground)
      ((company left right).play front) := by
    intro front hfront
    rcases hsafe with hslug | htime
    · exact ⟨.inl fun name hname => not_isWorkspaceName_of_mem_names hslug hname,
        .inl fun name hname => not_isWorkspaceName_of_mem_names (Ne.symm hslug) hname⟩
    · exact ⟨.inr (htime front hfront).1, .inr (htime front hfront).2⟩
  have hboth := h.both.play (fun _ _ => Undisturbed.isFree) (fun _ _ => Undisturbed.isFree) hfronts
  have hlast := hfronts turns List.prefix_rfl
  exact ⟨fun result hdone => hboth.post_of_done hlast hdone,
    fun result hdone => hboth.swap.post_of_done hlast.symm hdone⟩

/-! ### Two exports of one project -/

/-- The work root of the desk, in which a workspace was left behind. -/
def clutteredGround : Ground where
  place := ["work"]
  slugs := [slug singleScreen]
  start := clutteredDesk.tree
  made := clutteredDesk.tree

/-- The first of two exports of the same project from the same desk. -/
def firstErrand : Errand := ⟨Archive.stored, singleScreen, clutteredOptions, clutteredDesk⟩

/-- The second one, by another path and from another directory. -/
def secondErrand : Errand where
  archiver := Archive.stored
  project := singleScreen
  options := { clutteredOptions with workRoot := "../work", skeleton := "../skeleton" }
  world := { clutteredDesk with here := ["skeleton"], issued := 1 }

/-- Whatever becomes of workspaces, directories beside the work root stay. -/
theorem kindAt_of_allows {tree : Tree} {name : String} (hallows : clutteredGround.Allows tree)
    (hkind : clutteredDesk.tree.kindAt [name] = some .directory) :
    tree.kindAt [name] = some .directory := by
  rcases hallows with rfl | hvaries
  · exact hkind
  · rw [hvaries.kinds [name] fun other _ hbelow => absurd hbelow.length_le (by simp [clutteredGround])]
    exact hkind

/-- A skeleton beside the work root stays where it is. -/
theorem isSteady_beside {errand : Errand} {source : String}
    (hreaches : ∀ world : World, world.here = errand.world.here →
      clutteredGround.Allows world.tree → world.Reaches source ["skeleton"]) :
    IsSteady (errand.site clutteredGround) source where
  stays := by
    intro world other hhere hhere' hallows hallows' origin horigin
    obtain rfl := (hreaches world hhere hallows).unique horigin
    exact hreaches other hhere' hallows'
  apart := by
    intro world hhere hallows origin horigin names name _
    obtain rfl := (hreaches world hhere hallows).unique horigin
    exact ⟨by simp [Errand.site, clutteredGround], by simp [Errand.site, clutteredGround]⟩

theorem worksIn_first : WorksIn firstErrand clutteredGround := by
  have hreaches {name : String} (hname : isName name)
      (hkind : clutteredDesk.tree.kindAt [name] = some .directory) (world : World)
      (hhere : world.here = []) (hallows : clutteredGround.Allows world.tree) :
      world.Reaches name [name] := by
    have hworld := reaches_of_isName world hname (by rw [hhere]; exact kindAt_of_allows hallows hkind)
    rwa [hhere] at hworld
  exact {
    tree := rfl
    slug := List.mem_singleton_self _
    makes := by decide +kernel
    made := rfl
    reaches := fun world hhere hvaries =>
      hreaches (by decide) (by decide) world hhere (.inr hvaries)
    steady := isSteady_beside (hreaches (by decide) (by decide)) }

theorem worksIn_second : WorksIn secondErrand clutteredGround := by
  have hreaches {name path : String} (hname : isName name) (hpath : below path = ["..", name])
      (hrelative : isAbsolute path = false)
      (hkind : clutteredDesk.tree.kindAt [name] = some .directory) (world : World)
      (hhere : world.here = ["skeleton"]) (hallows : clutteredGround.Allows world.tree) :
      world.Reaches path [name] := by
    refine ⟨kindAt_of_allows hallows hkind, linkLimit, ?_⟩
    rw [hpath, startOf, hrelative, if_neg Bool.false_ne_true, hhere]
    exact .up (kindAt_of_allows hallows (by decide))
      (.enter (notMem_of_isName hname) (kindAt_of_allows hallows hkind) (.done _ _))
  exact {
    tree := rfl
    slug := List.mem_singleton_self _
    makes := by decide +kernel
    made := rfl
    reaches := fun world hhere hvaries =>
      hreaches (by decide) (by decide) (by decide) (by decide) world hhere (.inr hvaries)
    steady := isSteady_beside (hreaches (by decide) (by decide) (by decide) (by decide)) }

theorem shares_clutteredGround : Shares firstErrand secondErrand clutteredGround where
  proper := by decide +kernel
  clock := rfl
  numbers := by decide +kernel
  fresh := by decide +kernel
  left := worksIn_first
  right := worksIn_second

/-- Two exports that take turns, and that wait for a minute after each of them. -/
def wearyTurns : List Turn := (List.replicate 10 [Turn.left, .right, .wait 60]).flatten

theorem undisturbed_of_play_clutteredGround :
    Shares firstErrand secondErrand clutteredGround ∧
    slug firstErrand.project = slug secondErrand.project ∧
    ∃ turns, wearyTurns <+: turns ∧
      (company firstErrand secondErrand).InTime turns staleAge staleAge ∧
      (∃ result, ((company firstErrand secondErrand).play turns).left.script = .done result ∧
        Undisturbed firstErrand clutteredGround result
          ((company firstErrand secondErrand).play turns).left.world) ∧
      ∃ result, ((company firstErrand secondErrand).play turns).right.script = .done result ∧
        Undisturbed secondErrand clutteredGround result
          ((company firstErrand secondErrand).play turns).right.world := by
  -- The first turns end nobody's export, so turns in which no time passes are added until both are
  -- done.
  obtain ⟨rest, hrest, hleft, hright⟩ :=
    ((company firstErrand secondErrand).play wearyTurns).exists_play_done
  have hplay : (company firstErrand secondErrand).play (wearyTurns ++ rest) =
      ((company firstErrand secondErrand).play wearyTurns).play rest := List.foldl_append
  rw [← hplay] at hleft hright
  -- The added turns wait for nothing, so that both are in time.
  have hwaiting : Company.waiting (wearyTurns ++ rest) < staleAge := by
    have hnone : Company.waiting rest = 0 := List.sum_eq_zero (List.forall_mem_map.mpr hrest)
    rw [Company.waiting_append, hnone]
    decide
  have htime : (company firstErrand secondErrand).InTime (wearyTurns ++ rest) staleAge staleAge :=
    Company.inTime_of_waiting ⟨rfl, rfl⟩ rfl rfl hwaiting hwaiting
  have hboth := undisturbed_of_play shares_clutteredGround (.inr htime)
  obtain ⟨first, hfirst⟩ := Party.isDone_iff.mp hleft
  obtain ⟨second, hsecond⟩ := Party.isDone_iff.mp hright
  exact ⟨shares_clutteredGround, rfl, _, List.prefix_append _ _, htime,
    ⟨first, hfirst, hboth.1 first hfirst⟩, ⟨second, hsecond, hboth.2 second hsecond⟩⟩

end Sharing

end Wireframe.Export
