/-
Making a workspace.

A workspace has a name that nothing has yet.  To make it is to make directories where there was
nothing, the last of them in the directory to which the work root leads; whether or not all of them can
be made, nothing else in the world has the name then.

* `IsNew` — a name that nothing has;
* `Bears` — a directory that was reached before the workspace was made in it;
* `Made` — directories have been made for a workspace;
* `Made.of_replies` — whatever is replied, no more than that has been done;
* `Made.inUse` — a workspace that has been made is in use, and empty;
* `exists_of_makeDirectory` — there is one if the request for it is granted.
-/
import Wireframe.Proofs.Export.InUse
import Wireframe.Proofs.Files.Proper

namespace Wireframe.Export

open Files World Tree

/-- Nothing in the world has the name, and it is not on the way to the work root. -/
structure IsNew (world : World) (root name : String) : Prop where
  unmentioned : world.tree.mentions name = false
  beside : name ∉ pieces root

/-- The work root leads to a place, and did so when the workspace was not there yet. -/
structure Bears (root stem : String) (place : List String) (world : World) : Prop where
  allowed : World.allowed (join root stem) = .ok ()
  origin : ∃ origin : World, origin.here = world.here ∧ origin.Reaches root place ∧
    Within origin.tree world.tree ∧ origin.tree.kindAt (place ++ [stem]) = none ∧
    origin.tree.kindAt (place ++ [stem ++ ".zip"]) = none

/-- Some of the directories have been made that a new workspace needs. -/
structure Made (root stem : String) (before world : World) : Prop where
  proper : world.tree.isProper
  here : world.here = before.here
  kinds : ∀ q, world.tree.kindAt q = before.tree.kindAt q ∨
    before.tree.kindAt q = none ∧ world.tree.kindAt q = some .directory
  contents : ∀ q, world.tree.contentsAt? q = before.tree.contentsAt? q
  bare : ∀ q, stem ++ ".zip" ∈ q → world.tree.kindAt q = none
  own : ∀ q, stem ∈ q → world.tree.kindAt q ≠ none → world.tree.kindAt q = some .directory ∧
    ∃ place, q = place ++ [stem] ∧ Bears root stem place world
  elsewhere : ∀ place q, before.Reaches root place → Apart (place ++ [stem]) q →
    world.tree.at? q = before.tree.at? q

section Making

variable {root stem : String} {place q : List String} {before world after : World}

namespace Bears

theorem reaches (h : Bears root stem place world) : world.Reaches root place := by
  obtain ⟨origin, hhere, hreaches, hwithin, -⟩ := h.origin
  exact hreaches.mono hhere.symm hwithin

theorem mono (h : Bears root stem place world) (hhere : after.here = world.here)
    (hwithin : Within world.tree after.tree) : Bears root stem place after := by
  obtain ⟨origin, horigin, hreaches, hsmaller, hfree⟩ := h.origin
  exact ⟨h.allowed, origin, horigin.trans hhere.symm, hreaches, hsmaller.trans hwithin, hfree⟩

end Bears

/-! ### Directories on the way -/

/-- What is made on the way to a workspace is on the way to the work root, which leads nowhere then, or
it is the workspace itself. -/
theorem exists_of_front (hstem : isName stem) (hhere : world.here = before.here) {front : List String}
    (hfront : front ≠ []) (hbegins : front <+: pieces (join root stem))
    (hwalk : walk world.tree false linkLimit (before.startOf (join root stem)) front = some q)
    (hfree : world.tree.kindAt q = none) :
    ∃ parent name, q = parent ++ [name] ∧ isName name ∧
      world.tree.kindAt parent = some .directory ∧
      ((name ∈ below root ∧ ∀ place, ¬ world.Reaches root place) ∨
        name = stem ∧ world.Reaches root parent ∧ front = pieces (join root stem)) := by
  have hpieces : pieces (join root stem) = below root ++ [stem] := pieces_join_name hstem
  have hstart : before.startOf (join root stem) = world.startOf root := by
    rw [startOf, startOf, isAbsolute_join (isAbsolute_of_isName hstem), hhere]
  rw [hpieces] at hbegins
  rw [hstart] at hwalk
  rcases prefix_append_cases hbegins with hbefore | ⟨rest, hne, hrest, rfl⟩
  · obtain ⟨start, name, rfl⟩ := (List.eq_nil_or_concat' front).resolve_left hfront
    obtain ⟨left, parent, hleads, hlast⟩ := (walk_append_iff (List.cons_ne_nil _ _)).mp hwalk
    obtain ⟨hname, rfl⟩ := eq_append_of_walk_last hlast hfree
    have hmem : name ∈ below root :=
      hbefore.subset (List.mem_append_right _ (List.mem_singleton_self name))
    refine ⟨parent, name, rfl, isName_of_mem_pieces (below_subset root hmem) hname,
      ((walk_name_iff hname).mp hlast).1, .inl ⟨hmem, fun place hreaches => ?_⟩⟩
    -- everything on the way to a directory is there
    obtain ⟨fewer, hroot⟩ := hreaches.leads
    obtain ⟨more, hmore⟩ := hbefore
    rw [← hmore] at hroot
    obtain ⟨some, middle, hmiddle⟩ := hroot.of_append hreaches.directory
    exact hmiddle.kindAt_walk (hmiddle.kindAt_target fun hnil => absurd hnil hfront) hwalk hfree
  · obtain ⟨more, hmore⟩ := hrest
    obtain ⟨rfl, -⟩ := (List.append_eq_singleton_iff.mp hmore).resolve_left fun hnil => hne hnil.1
    obtain ⟨left, parent, hleads, hlast⟩ := (walk_append_iff (List.cons_ne_nil _ _)).mp hwalk
    obtain ⟨hdirectory, rfl⟩ := (walk_name_iff (notMem_of_isName hstem)).mp hlast
    exact ⟨parent, stem, rfl, hstem, hdirectory, .inr ⟨rfl, ⟨hdirectory, left, hleads⟩, hpieces.symm⟩⟩

theorem allowed_of_lookable {path : String} (hpath : lookable path = .ok ())
    (hpieces : ∀ name ∈ pieces path, isShort name) : allowed path = .ok () := by
  have hall : (pieces path).all isShort = true := List.all_eq_true.mpr hpieces
  unfold allowed
  rw [hpath, hall]
  rfl

namespace Made

/-- Before anything is made. -/
theorem refl (hproper : world.tree.isProper) (hstem : IsNew world root stem)
    (harchive : IsNew world root (stem ++ ".zip")) : Made root stem world world where
  proper := hproper
  here := rfl
  kinds := fun _ => .inl rfl
  contents := fun _ => rfl
  bare := (mentions_eq_false_iff hproper).mp harchive.unmentioned
  own := fun q hq hkind =>
    absurd ((mentions_eq_false_iff hproper).mp hstem.unmentioned q hq) hkind
  elsewhere := fun _ _ _ _ => rfl

theorem within (h : Made root stem before world) : Within before.tree world.tree := by
  intro q kind hkind
  rcases h.kinds q with hsame | ⟨hnone, -⟩
  · rwa [hsame]
  · rw [hnone] at hkind
    cases hkind

/-- Nothing is made at a place whose parent is a workspace. -/
theorem stem_notMem (h : Made root stem before world) (hreaches : world.Reaches root place) :
    stem ∉ place := by
  intro hmem
  have hkind : world.tree.kindAt place ≠ none := by
    rw [hreaches.directory]
    exact Option.some_ne_none _
  obtain ⟨-, outer, rfl, hbears⟩ := h.own place hmem hkind
  have hlength := congrArg List.length (hreaches.unique hbears.reaches)
  simp at hlength

/-- One directory more. -/
theorem adds (h : Made root stem before world) (hname : isName stem)
    (hstem : stem ∉ pieces root) (harchive : stem ++ ".zip" ∉ pieces root)
    (hpath : lookable (join root stem) = .ok ()) {front : List String} (hfront : front ≠ [])
    (hbegins : front <+: pieces (join root stem)) (hshort : ∀ name ∈ front, isShort name)
    (hwalk : walk world.tree false linkLimit (before.startOf (join root stem)) front = some q)
    (hadds : Adds world q after) : Made root stem before after := by
  have hfree := kindAt_eq_none_iff.mpr hadds.free
  -- What is new is on the way to the root, or is the directory of the workspace itself.
  obtain ⟨parent, name, rfl, hisName, hparent, hcase⟩ :=
    exists_of_front hname h.here hfront hbegins hwalk hfree
  have hparentKind : world.tree.kindAt parent ≠ none := by
    rw [hparent]
    exact Option.some_ne_none _
  obtain ⟨tree, htree, -⟩ := Option.map_eq_some_iff.mp hparent
  have hparentNames := (isProper_at? h.proper htree).2
  -- Each field is asked of the place that is new and of all others.
  refine ⟨?_, hadds.here_eq.trans h.here, fun other => ?_, fun other => ?_, fun other hother => ?_,
    fun other hother hkind => ?_, fun place other hreaches hapart => ?_⟩
  · exact hadds.isProper h.proper
      (List.forall_mem_append.mpr ⟨hparentNames, List.forall_mem_singleton.mpr hisName⟩)
  · by_cases hself : other = parent ++ [name]
    · subst hself
      refine .inr ⟨?_, hadds.kindAt_self⟩
      rcases h.kinds (parent ++ [name]) with hsame | ⟨hnone, -⟩
      · rw [← hsame, hfree]
      · exact hnone
    · rw [hadds.kindAt_of_ne hself]
      exact h.kinds other
  · rw [hadds.contentsAt?_eq, h.contents]
  · by_cases hself : other = parent ++ [name]
    · subst hself
      rcases List.mem_append.mp hother with hmem | hmem
      · exact absurd (h.bare parent hmem) hparentKind
      · obtain rfl := List.mem_singleton.mp hmem
        -- The name of the archive is not one of those on the way to the root, nor that of the
        -- directory.
        obtain ⟨hbelow, -⟩ | ⟨heq, -⟩ := hcase
        · exact absurd (below_subset root hbelow) harchive
        · exact absurd heq.symm (ne_archive stem)
    · rw [hadds.kindAt_of_ne hself]
      exact h.bare other hother
  · by_cases hself : other = parent ++ [name]
    · subst hself
      obtain ⟨hbelow, hnowhere⟩ | ⟨rfl, hreaches, rfl⟩ := hcase
      -- A place on the way to the root is none with the name of the workspace.
      · rcases List.mem_append.mp hother with hmem | hmem
        · obtain ⟨-, place, -, hbears⟩ := h.own parent hmem hparentKind
          exact absurd hbears.reaches (hnowhere place)
        · obtain rfl := List.mem_singleton.mp hmem
          exact absurd (below_subset root hbelow) hstem
      · have hzip : name ++ ".zip" ∈ parent ++ [name ++ ".zip"] :=
          List.mem_append_right _ (List.mem_singleton_self _)
        exact ⟨hadds.kindAt_self, parent, rfl, allowed_of_lookable hpath hshort, world,
          hadds.here_eq.symm, hreaches, hadds.within, hfree, h.bare _ hzip⟩
    · rw [hadds.kindAt_of_ne hself] at hkind ⊢
      obtain ⟨hdirectory, place, rfl, hbears⟩ := h.own other hother hkind
      exact ⟨hdirectory, place, rfl, hbears.mono hadds.here_eq hadds.within⟩
  -- What is apart from the workspace in a root that was reached before is apart from what is new.
  · have hroot := hreaches.mono h.here h.within
    obtain ⟨-, hnowhere⟩ | ⟨rfl, hparentReaches, -⟩ := hcase
    · exact absurd hroot (hnowhere place)
    · obtain rfl := hroot.unique hparentReaches
      rw [at?_change_of_apart (change_eq_ok_iff.mp hadds.change).1 hapart.not_below
        hapart.not_above]
      exact h.elsewhere _ other hreaches hapart

/-- Whatever is replied to the request to make a workspace, no more than some directories have been
made. -/
theorem of_replies {request : Request} {reply : request.Reply} (hproper : before.tree.isProper)
    (hname : isName stem) (hstem : IsNew before root stem)
    (harchive : IsNew before root (stem ++ ".zip"))
    (hrequest : request = .makeDirectory (join root stem))
    (hreply : Replies before request reply after) : Made root stem before after :=
  hreply.directory_induction hrequest
    (fun _ _ _ _ hpath hfront hbegins hshort hworld hwalk hadds =>
      hworld.adds hname hstem.beside harchive.beside hpath hfront hbegins hshort hwalk hadds)
    (.refl hproper hstem harchive)

end Made

/-! ### Workspaces that have been made -/

namespace Made

/-- A workspace that has been made is in use, and empty. -/
theorem inUse (h : Made root stem before world) (hplace : world.tree.kindAt (place ++ [stem]) ≠ none) :
    Bears root stem place world ∧ InUse root stem place world world := by
  have hmem (names : List String) : stem ∈ place ++ [stem] ++ names :=
    List.mem_append_left _ (List.mem_append_right _ (List.mem_singleton_self stem))
  have hself : stem ∈ place ++ [stem] := List.mem_append_right _ (List.mem_singleton_self stem)
  obtain ⟨hdirectory, outer, hsame, hbears⟩ := h.own _ hself hplace
  obtain ⟨rfl, -⟩ := List.append_inj' hsame rfl
  refine ⟨hbears, h.proper, rfl, hbears.reaches, hdirectory, fun names path hlink => ?_, .inl ?_,
    .refl _, fun _ _ _ => rfl, fun _ _ _ => rfl⟩
  · have hkind := (h.own _ (hmem names) (by rw [hlink]; exact Option.some_ne_none _)).1
    rw [hlink] at hkind
    cases hkind
  · exact h.bare _ (List.mem_append_right _ (List.mem_singleton_self _))

end Made

/-- If the request to make a workspace is granted, there is one. -/
theorem exists_of_makeDirectory (hstem : isName stem)
    (hmade : world.makeDirectory (join root stem) = (.ok (), after)) :
    ∃ place, after.tree.kindAt (place ++ [stem]) ≠ none := by
  have hnames : pieces (join root stem) ≠ [] := pieces_ne_nil _
  unfold World.makeDirectory at hmade
  rw [if_neg (join_ne_empty hstem)] at hmade
  split at hmade
  · obtain ⟨left, target, hleads⟩ := leads_of_makeAlong hnames hmade
    rw [List.nil_append] at hleads
    have htarget := hleads.kindAt_target fun hnil => absurd hnil hnames
    have hwalk := hleads.walk_eq
    rw [pieces_join_name hstem, walk_append_iff (List.cons_ne_nil _ _)] at hwalk
    obtain ⟨fewer, place, -, hlast⟩ := hwalk
    refine ⟨place, fun hnone => ?_⟩
    -- the last name leads to a directory, so there is something with it
    obtain ⟨hkind, -⟩ | ⟨path, less, hkind, -⟩ | ⟨-, rfl, -⟩ :=
      walk_name_cons (notMem_of_isName hstem) hlast
    · rw [hnone] at hkind
      cases hkind
    · rw [hnone] at hkind
      cases hkind
    · rw [hnone] at htarget
      cases htarget
  · cases hmade

end Making

end Wireframe.Export
