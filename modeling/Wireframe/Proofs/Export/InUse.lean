/-
Workspaces in use.

While an export works, everything that it writes is in the directory of its workspace or in the archive
beside it, and there are no links that lead out of the directory.  So nothing else in the world
changes, whatever the system refuses.

* `InUse` — a workspace in use, compared with the world when it was made;
* `InUse.puts`, `InUse.adds` — it stays in use when something is written in it;
* `InUse.locate?_join`, `InUse.locate?_archive` — where paths into the workspace lead;
* `InUse.target`, `InUse.make` — requests to write in the workspace.
-/
import Wireframe.Export.Workspace
import Wireframe.Proofs.Export.Plan
import Wireframe.Proofs.Files.Refusal

namespace Wireframe.Export

open Files World Tree

/-! ### Places that are apart -/

/-- Neither of two places is the other or below it. -/
structure Apart (a b : List String) : Prop where
  not_below : ¬ a <+: b
  not_above : ¬ b <+: a

theorem Apart.append {a b : List String} (h : Apart a b) (names : List String) :
    Apart (a ++ names) b where
  not_below := fun hbegins => h.not_below ((List.prefix_append a names).trans hbegins)
  not_above := by
    intro hbegins
    rcases List.prefix_or_prefix_of_prefix hbegins (List.prefix_append a names) with hb | ha
    · exact h.not_above hb
    · exact h.not_below ha

/-- Entries of one directory with different names are apart. -/
theorem apart_of_ne {place : List String} {name other : String} (h : name ≠ other) :
    Apart (place ++ [name]) (place ++ [other]) := by
  constructor <;> simp [List.prefix_append_right_inj, h, h.symm]

theorem prefix_append_cases {a b front : List String} (h : front <+: a ++ b) :
    front <+: a ∨ ∃ rest, rest ≠ [] ∧ rest <+: b ∧ front = a ++ rest := by
  rcases List.prefix_or_prefix_of_prefix h (List.prefix_append a b) with ha | ⟨rest, rfl⟩
  · exact .inl ha
  · rcases eq_or_ne rest [] with rfl | hrest
    · exact .inl (by rw [List.append_nil])
    · exact .inr ⟨rest, hrest, (List.prefix_append_right_inj a).mp h, rfl⟩

theorem above_of_concat {place origin rest : List String} {name : String} (hrest : rest ≠ [])
    (h : place ++ [name] = origin ++ rest) : origin <+: place := by
  obtain ⟨front, last, rfl⟩ := (List.eq_nil_or_concat' rest).resolve_left hrest
  rw [← List.append_assoc] at h
  exact (List.append_inj' h rfl).1 ▸ List.prefix_append _ _

/-! ### Names of workspaces -/

theorem isName_archive {stem : String} (h : isName stem) : isName (stem ++ ".zip") := by
  have hlength (short : String) (hshort : short.toList.length ≤ 3) : stem ++ ".zip" ≠ short := by
    intro heq
    have hending : ".zip".toList.length = 4 := rfl
    rw [← heq, String.toList_append, List.length_append, hending] at hshort
    omega
  refine isName_iff.mpr ⟨hlength _ (by decide), hlength _ (by decide), hlength _ (by decide), ?_⟩
  have hslash := (isName_iff.mp h).2.2.2
  simp [hslash]

theorem ne_archive (stem : String) : stem ≠ stem ++ ".zip" := by
  intro h
  have hlength := congrArg (·.toList.length) h
  simp at hlength

/-! ### Workspaces -/

/-- A workspace is in use, the directory that holds it being at a place: `before` is the world at the
moment when the directory of the workspace has been made. -/
structure InUse (root stem : String) (place : List String) (before world : World) : Prop where
  proper : world.tree.isProper
  here : world.here = before.here
  reaches : world.Reaches root place
  directory : world.tree.kindAt (place ++ [stem]) = some .directory
  unlinked : ∀ names path, world.tree.kindAt (place ++ [stem] ++ names) ≠ some (.link path)
  archive : world.tree.kindAt (place ++ [stem ++ ".zip"]) = none ∨
    world.tree.kindAt (place ++ [stem ++ ".zip"]) = some .file ∧
      allowed (join root (stem ++ ".zip")) = .ok ()
  within : Within before.tree world.tree
  contents : ∀ q, ¬ place ++ [stem] <+: q → q ≠ place ++ [stem ++ ".zip"] →
    world.tree.contentsAt? q = before.tree.contentsAt? q
  elsewhere : ∀ q, Apart (place ++ [stem]) q → Apart (place ++ [stem ++ ".zip"]) q →
    world.tree.at? q = before.tree.at? q

/-- The place of something in the workspace. -/
def Owned (stem : String) (place q : List String) : Prop :=
  (∃ names, AreNames names ∧ q = place ++ [stem] ++ names) ∨ q = place ++ [stem ++ ".zip"]

section InUse

variable {root stem : String} {place q names : List String} {before world after : World}

theorem Owned.apart {other : List String} (h : Owned stem place q)
    (hdirectory : Apart (place ++ [stem]) other) (harchive : Apart (place ++ [stem ++ ".zip"]) other) :
    Apart q other := by
  rcases h with ⟨names, -, rfl⟩ | rfl
  · exact hdirectory.append names
  · exact harchive

theorem Owned.ne {other : List String} (h : Owned stem place q)
    (hdirectory : ¬ place ++ [stem] <+: other) (harchive : other ≠ place ++ [stem ++ ".zip"]) :
    other ≠ q := by
  rintro rfl
  rcases h with ⟨names, -, rfl⟩ | rfl
  · exact hdirectory (List.prefix_append _ _)
  · exact harchive rfl

namespace InUse

theorem isName_place (h : InUse root stem place before world) (hstem : isName stem) :
    ∀ name ∈ place ++ [stem], isName name := by
  obtain ⟨inner, hat, -⟩ := Option.map_eq_some_iff.mp h.reaches.directory
  exact List.forall_mem_append.mpr
    ⟨(isProper_at? h.proper hat).2, List.forall_mem_singleton.mpr hstem⟩

theorem isName_of_owned (h : InUse root stem place before world) (hstem : isName stem)
    (hq : Owned stem place q) : ∀ name ∈ q, isName name := by
  have hplace := h.isName_place hstem
  rcases hq with ⟨names, hnames, rfl⟩ | rfl
  · exact List.forall_mem_append.mpr ⟨hplace, hnames.names⟩
  · exact List.forall_mem_append.mpr ⟨(List.forall_mem_append.mp hplace).1,
      List.forall_mem_singleton.mpr (isName_archive hstem)⟩

/-- The same files are the same workspace. -/
theorem congr (h : InUse root stem place before world) (htree : after.tree = world.tree)
    (hhere : after.here = world.here) : InUse root stem place before after where
  proper := htree ▸ h.proper
  here := hhere.trans h.here
  reaches := h.reaches.mono hhere (htree ▸ Within.refl _)
  directory := htree ▸ h.directory
  unlinked := htree ▸ h.unlinked
  archive := htree ▸ h.archive
  within := htree ▸ h.within
  contents := htree ▸ h.contents
  elsewhere := htree ▸ h.elsewhere

/-- The workspace stays in use when a file is put in it. -/
theorem puts (h : InUse root stem place before world) (hstem : isName stem) {contents : Bytes}
    (hputs : Puts world q contents after) (hq : Owned stem place q)
    (hallowed : q = place ++ [stem ++ ".zip"] → allowed (join root (stem ++ ".zip")) = .ok ()) :
    InUse root stem place before after where
  proper := hputs.isProper h.proper (h.isName_of_owned hstem hq)
  here := hputs.here_eq.trans h.here
  reaches := h.reaches.mono hputs.here_eq hputs.within
  directory := hputs.within _ _ h.directory
  -- A file is put in a place that is owned, and no link comes to be there.
  unlinked := by
    intro names path
    by_cases hself : place ++ [stem] ++ names = q
    · rw [hself, kindAt_of_contentsAt? hputs.contentsAt?_self]
      simp
    · rw [hputs.kindAt_of_ne hself]
      exact h.unlinked names path
  archive := by
    by_cases hself : place ++ [stem ++ ".zip"] = q
    · exact .inr ⟨hself ▸ kindAt_of_contentsAt? hputs.contentsAt?_self, hallowed hself.symm⟩
    · rw [hputs.kindAt_of_ne hself]
      exact h.archive
  within := h.within.trans hputs.within
  -- All that is apart from the workspace is apart from the place.
  contents := by
    intro other hdirectory harchive
    rw [hputs.contentsAt?_of_ne (hq.ne hdirectory harchive)]
    exact h.contents other hdirectory harchive
  elsewhere := by
    intro other hdirectory harchive
    obtain ⟨mode, hchange⟩ := hputs.change
    have hapart := hq.apart hdirectory harchive
    rw [at?_change_of_apart (change_eq_ok_iff.mp hchange).1 hapart.not_below hapart.not_above]
    exact h.elsewhere other hdirectory harchive

/-- The workspace stays in use when a directory is made in it. -/
theorem adds (h : InUse root stem place before world) (hstem : isName stem) (hnames : AreNames names)
    (hadds : Adds world (place ++ [stem] ++ names) after) : InUse root stem place before after where
  proper := hadds.isProper h.proper (h.isName_of_owned hstem (.inl ⟨names, hnames, rfl⟩))
  here := hadds.here_eq.trans h.here
  reaches := h.reaches.mono hadds.here_eq hadds.within
  directory := hadds.within _ _ h.directory
  -- A directory is made below that of the workspace, so the archive is not it.
  unlinked := by
    intro others path
    by_cases hself : place ++ [stem] ++ others = place ++ [stem] ++ names
    · rw [hself, hadds.kindAt_self]
      simp
    · rw [hadds.kindAt_of_ne hself]
      exact h.unlinked others path
  archive := by
    have hne : place ++ [stem ++ ".zip"] ≠ place ++ [stem] ++ names := by
      intro heq
      exact (apart_of_ne (ne_archive stem)).not_below (heq ▸ List.prefix_append _ names)
    rw [hadds.kindAt_of_ne hne]
    exact h.archive
  within := h.within.trans hadds.within
  contents := by
    intro other hdirectory harchive
    rw [hadds.contentsAt?_eq]
    exact h.contents other hdirectory harchive
  elsewhere := by
    intro other hdirectory harchive
    have hapart := hdirectory.append names
    rw [at?_change_of_apart (change_eq_ok_iff.mp hadds.change).1 hapart.not_below hapart.not_above]
    exact h.elsewhere other hdirectory harchive

/-! ### Paths into the workspace -/

theorem reaches_directory (h : InUse root stem place before world) (hstem : isName stem) :
    world.Reaches (join root stem) (place ++ [stem]) := h.reaches.join hstem h.directory

/-- Where a walk in the directory of the workspace leads. -/
theorem eq_append_of_walk (h : InUse root stem place before world) {follow : Bool} {links : Nat}
    (hnames : ∀ name ∈ names, isName name)
    (hwalk : walk world.tree follow links (place ++ [stem]) names = some q) :
    q = place ++ [stem] ++ names :=
  World.eq_append_of_walk h.unlinked (fun name hname => notMem_of_isName (hnames name hname)) hwalk

theorem locate?_join (h : InUse root stem place before world) (hstem : isName stem)
    (hnames : AreNames names)
    (hlocate : world.locate? true (join (join root stem) (relative names)) = some q) :
    q = place ++ [stem] ++ names := by
  obtain ⟨left, target, hleads, hwalk⟩ := (locate?_join_iff (isAbsolute_relative hnames)).mp hlocate
  obtain ⟨more, hdirectory⟩ := (h.reaches_directory hstem).leads
  obtain rfl := hdirectory.target_eq hleads
  rw [pieces_relative hnames] at hwalk
  exact h.eq_append_of_walk hnames.names hwalk

theorem locate?_archive (h : InUse root stem place before world) (hstem : isName stem)
    (hlocate : world.locate? true (join root (stem ++ ".zip")) = some q) :
    q = place ++ [stem ++ ".zip"] := by
  have hname := isName_archive hstem
  obtain ⟨left, target, hleads, hwalk⟩ :=
    (locate?_join_iff (isAbsolute_of_isName hname)).mp hlocate
  obtain ⟨more, hreaches⟩ := h.reaches.leads
  obtain rfl := hreaches.target_eq hleads
  rw [pieces_of_isName hname] at hwalk
  obtain ⟨hkind, -⟩ | ⟨path, fewer, hkind, -⟩ | ⟨-, hq, -⟩ :=
    walk_name_cons (notMem_of_isName hname) hwalk
  · rcases h.archive with harchive | ⟨harchive, -⟩ <;> rw [harchive] at hkind <;> cases hkind
  · rcases h.archive with harchive | ⟨harchive, -⟩ <;> rw [harchive] at hkind <;> cases hkind
  · exact hq

/-! ### Requests -/

/-- The path of a file in the directory of the workspace, or that of its archive. -/
def IsOwnPath (root stem path : String) : Prop :=
  (∃ names, AreNames names ∧ path = join (join root stem) (relative names)) ∨
    path = join root (stem ++ ".zip")

theorem owned_of_locate? (h : InUse root stem place before world) (hstem : isName stem)
    {path : String} (hpath : IsOwnPath root stem path) (hlocate : world.locate? true path = some q) :
    Owned stem place q := by
  rcases hpath with ⟨names, hnames, rfl⟩ | rfl
  · exact .inl ⟨names, hnames, h.locate?_join hstem hnames hlocate⟩
  · exact .inr (h.locate?_archive hstem hlocate)

variable {request : Request} {reply : request.Reply}

/-- The workspace stays in use when a file in it is written, or is written in part. -/
theorem write (h : InUse root stem place before world) (hstem : isName stem) {path : String}
    (hpath : IsOwnPath root stem path) (htarget : request.target? = some path)
    (hreply : Replies world request reply after) : InUse root stem place before after := by
  refine hreply.file_induction htarget (fun other q contents next hallowed hother hlocate hputs => ?_) h
  refine hother.puts hstem hputs (hother.owned_of_locate? hstem hpath hlocate) fun hq => ?_
  rcases hpath with ⟨names, hnames, rfl⟩ | rfl
  · have heq := (hother.locate?_join hstem hnames hlocate).symm.trans hq
    exact absurd (heq ▸ List.prefix_append _ names) (apart_of_ne (ne_archive stem)).not_below
  · exact hallowed

/-- Where something new is when names in the workspace are followed. -/
theorem exists_names_of_walk (h : InUse root stem place before world) (hstem : isName stem)
    (hnames : AreNames names) {front : List String} (hfront : front ≠ [])
    (hbegins : front <+: pieces (join (join root stem) (relative names)))
    (hwalk : walk world.tree false linkLimit (world.startOf (join (join root stem) (relative names)))
      front = some q) (hfree : world.tree.kindAt q = none) :
    ∃ names, AreNames names ∧ q = place ++ [stem] ++ names := by
  have hrelative := isAbsolute_relative hnames
  rw [pieces_join hrelative, pieces_relative hnames] at hbegins
  rw [startOf, isAbsolute_join hrelative, ← startOf] at hwalk
  obtain ⟨left, hleads⟩ := (h.reaches_directory hstem).leads
  rcases prefix_append_cases hbegins with hbefore | ⟨rest, hne, hrest, rfl⟩
  -- what leads to the workspace is there
  · obtain ⟨more, hmore⟩ := hbefore
    rw [← hmore] at hleads
    obtain ⟨fewer, middle, hmiddle⟩ := hleads.of_append h.directory
    exact absurd hfree (hmiddle.kindAt_walk (hmiddle.kindAt_target fun hnil => absurd hnil hfront)
      hwalk)
  · have hnames' : ∀ name ∈ rest, isName name := fun name hname => hnames.names name (hrest.subset hname)
    rw [hleads.walk_append (.inl hne)] at hwalk
    exact ⟨rest, ⟨hne, hnames'⟩, h.eq_append_of_walk hnames' hwalk⟩

/-- The workspace stays in use when directories are made in it, or some of them. -/
theorem make (h : InUse root stem place before world) (hstem : isName stem) (hnames : AreNames names)
    (hrequest : request = .makeDirectory (join (join root stem) (relative names)))
    (hreply : Replies world request reply after) : InUse root stem place before after := by
  have hstart (other : World) (hother : InUse root stem place before other) (path : String) :
      world.startOf path = other.startOf path := by
    rw [startOf, startOf, h.here, hother.here]
  refine hreply.directory_induction hrequest
    (fun other next front q _ hne hbegins _ hother hwalk hadds => ?_) h
  rw [hstart other hother] at hwalk
  obtain ⟨others, hothers, rfl⟩ := hother.exists_names_of_walk hstem hnames hne hbegins hwalk
    (kindAt_eq_none_iff.mpr hadds.free)
  exact hother.adds hstem hothers hadds

/-- The workspace stays in use when something is looked at. -/
theorem look (h : InUse root stem place before world) (hlooks : request.looks = true)
    (hreply : Replies world request reply after) : InUse root stem place before after := by
  obtain ⟨htree, hhere⟩ := hreply.same hlooks
  exact h.congr htree hhere

end InUse

end InUse

end Wireframe.Export
