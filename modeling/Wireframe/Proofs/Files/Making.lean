/-
Making directories again.

To make directories that are there is to do nothing, and to make directories along some names is to make
them along the first names and then along the others.  Where a path leads depends on what is a directory
and what is a link, so trees that are the same but for times are the same again after directories have
been made in them.

* `walk_congr` — walks in trees with the same kinds;
* `makeAlong_append`, `makeAlong_of_leads` — directories one after the other, and those that are there;
* `makeAlong_below` — directories are made up to what is below a path;
* `makeAlong_alike` — directories in trees that are the same but for times.
-/
import Wireframe.Proofs.Files.Effect
import Wireframe.Proofs.Files.Timeless

namespace Wireframe.Files.World

open Files.Tree

section Making

variable {world after other : World} {start made names place target : List String} {left : Nat}
  {base : String}

/-! ### Walks -/

/-- Where names lead depends on kinds only. -/
theorem walk_congr {tree other : Tree} (h : ∀ q, other.kindAt q = tree.kindAt q) {follow : Bool}
    (links : Nat) (place names : List String) :
    walk other follow links place names = walk tree follow links place names := by
  have hdirectory (q : List String) :
      (other.at? q).any Tree.isDirectory = (tree.at? q).any Tree.isDirectory := by
    rw [Bool.eq_iff_iff, isDirectory_iff, isDirectory_iff, h]
  -- a link brings in new names, but fewer links are left then
  induction links using Nat.strong_induction_on generalizing place names with
  | _ links ihlinks =>
    induction names generalizing place with
    | nil => rw [walk_nil, walk_nil]
    | cons name names ih =>
        have hnext := h (place ++ [name])
        rw [kindAt, kindAt] at hnext
        rw [walk_cons_eq, walk_cons_eq, hdirectory, ih, ih, ih]
        cases htree : tree.at? (place ++ [name]) with
        | none =>
            rw [htree] at hnext
            rw [Option.map_eq_none_iff.mp hnext]
        | some inner =>
            rw [htree] at hnext
            obtain ⟨inner', hother, hkind⟩ := Option.map_eq_some_iff.mp hnext
            rw [hother]
            cases inner <;> cases inner' <;> simp only [kind, reduceCtorEq, Kind.link.injEq] at hkind
            · rfl
            · rfl
            · subst hkind
              cases links with
              | zero => rfl
              | succ fewer => simp only [walkLink, ihlinks fewer (Nat.lt_succ_self fewer)]

/-! ### Directories that are there -/

/-- Names that lead to a directory lead to something even if the last one is not followed. -/
theorem Leads.exists_walk (h : Leads world.tree linkLimit start names left target)
    (htarget : world.tree.kindAt target = some .directory) (hnames : names ≠ []) :
    ∃ place, walk world.tree false linkLimit start names = some place ∧
      world.tree.kindAt place ≠ none := by
  obtain ⟨front, name, rfl⟩ := (List.eq_nil_or_concat' names).resolve_left hnames
  obtain ⟨more, middle, hfront, hlast⟩ :=
    exists_leads_of_walk (fun hnil => absurd hnil (List.cons_ne_nil _ _)) h.walk_eq
  have hwalk : ∃ place, walk world.tree false more middle [name] = some place := by
    obtain ⟨hname, hmiddle, -⟩ | ⟨rfl, hmiddle, -⟩ | ⟨hname, hnext⟩ := walk_cons hlast
    · exact ⟨middle, by rw [walk_stay hname, if_pos hmiddle, walk_nil]⟩
    · exact ⟨middle.dropLast, by rw [walk_up, if_pos hmiddle, walk_nil]⟩
    · refine ⟨middle ++ [name], (walk_name_iff hname).mpr ⟨?_, rfl⟩⟩
      obtain ⟨hkind, -⟩ | ⟨path, fewer, hkind, -⟩ | ⟨-, rfl, -⟩ := hnext
      · exact kindAt_of_append hkind (List.cons_ne_nil _ _)
      · exact kindAt_of_append hkind (List.cons_ne_nil _ _)
      · exact kindAt_of_append htarget (List.cons_ne_nil _ _)
  obtain ⟨place, hplace⟩ := hwalk
  have hwhole : walk world.tree false linkLimit start (front ++ [name]) = some place := by
    rw [hfront.walk_append (.inl (List.cons_ne_nil _ _)), hplace]
  exact ⟨place, hwhole, h.kindAt_walk htarget hwhole⟩

/-- A directory that is there is not made again. -/
theorem makeAt_of_leads (h : Leads world.tree linkLimit start names left target)
    (htarget : world.tree.kindAt target = some .directory) (hnames : names ≠ []) :
    world.makeAt start names = .ok world := by
  obtain ⟨place, hwalk, hkind⟩ := h.exists_walk htarget hnames
  obtain ⟨inner, hinner⟩ := Option.ne_none_iff_exists'.mp fun hnone =>
    hkind (kindAt_eq_none_iff.mpr hnone)
  have hleads : world.leadsToDirectory start names = true := by
    rw [leadsToDirectory, h.walk_eq]
    exact isDirectory_iff.mpr htarget
  simp only [makeAt, hwalk, hinner, hleads, if_true]

/-- A directory that is not there is made in one that is. -/
theorem makeAt_of_free (h : Leads world.tree linkLimit start names left target)
    {name : String}
    (hname : name ∉ ["", ".", ".."]) (hplace : world.tree.kindAt target = some .directory)
    (hfree : world.tree.kindAt (target ++ [name]) = none) :
    ∃ after, world.makeAt start (names ++ [name]) = .ok after ∧
      Adds world (target ++ [name]) after := by
  have hwalk : walk world.tree false linkLimit start (names ++ [name]) = some (target ++ [name]) := by
    rw [h.walk_append (.inl (List.cons_ne_nil _ _))]
    exact (walk_name_iff hname).mpr ⟨hplace, rfl⟩
  have hat := kindAt_eq_none_iff.mp hfree
  obtain ⟨more, hmore⟩ : ∃ more, world.tree.change? world.clock
      (some (.directory [] world.clock)) (target ++ [name]) = some more :=
    exists_change (kindAt_eq_directory_iff.mp hplace)
  have hchange : world.change (target ++ [name]) (some (.directory [] world.clock)) =
      .ok { world with tree := more } := change_eq_ok_iff.mpr ⟨hmore, rfl⟩
  refine ⟨_, ?_, hat, hchange⟩
  simp only [makeAt, hwalk, hat, hchange]

theorem makeAlong_append (a b : List String) :
    world.makeAlong start made (a ++ b) =
      match world.makeAlong start made a with
      | (.ok (), after) => after.makeAlong start (made ++ a) b
      | (.error fault, after) => (.error fault, after) := by
  induction a generalizing world made with
  | nil => rw [List.nil_append, makeAlong, List.append_nil]
  | cons name a ih =>
      rw [List.cons_append, makeAlong, makeAlong]
      split
      · rfl
      · cases world.makeAt start (made ++ [name]) with
        | error fault => rfl
        | ok next => simp only [ih, List.append_assoc, List.singleton_append]

theorem isShort_of_makeAlong (h : world.makeAlong start made names = (.ok (), after)) :
    ∀ name ∈ names, isShort name := by
  induction names generalizing world made with
  | nil => exact List.forall_mem_nil _
  | cons name names ih =>
      unfold makeAlong at h
      split at h
      · cases h
      · rename_i hshort
        split at h
        · exact List.forall_mem_cons.mpr ⟨by simpa using hshort, ih h⟩
        · cases h

/-- Directories that are there are not made again. -/
theorem makeAlong_of_leads (h : Leads world.tree linkLimit start (made ++ names) left target)
    (htarget : world.tree.kindAt target = some .directory) (hshort : ∀ name ∈ names, isShort name) :
    world.makeAlong start made names = (.ok (), world) := by
  induction names generalizing made with
  | nil => rfl
  | cons name names ih =>
      obtain ⟨hname, hnames⟩ := List.forall_mem_cons.mp hshort
      rw [List.append_cons] at h
      obtain ⟨more, middle, hmiddle⟩ := h.of_append htarget
      have hnil : made ++ [name] ≠ [] := List.append_ne_nil_of_right_ne_nil _ (List.cons_ne_nil _ _)
      have hat := makeAt_of_leads hmiddle (hmiddle.kindAt_target fun h => absurd h hnil) hnil
      rw [makeAlong, hname, hat]
      exact ih h hnames

/-- What comes after directories that are there. -/
theorem makeAlong_skip (h : Leads world.tree linkLimit start names left target)
    (htarget : world.tree.kindAt target = some .directory) (hshort : ∀ name ∈ names, isShort name)
    (more : List String) :
    world.makeAlong start [] (names ++ more) = world.makeAlong start names more := by
  have hleads : Leads world.tree linkLimit start ([] ++ names) left target := h
  rw [makeAlong_append, makeAlong_of_leads hleads htarget hshort, List.nil_append]

theorem makeDirectory_eq {path : String} (hpath : path ≠ "") :
    world.makeDirectory path = match lookable path with
      | .ok () => world.makeAlong (world.startOf path) [] (pieces path)
      | .error fault => (.error fault, world) := by
  rw [makeDirectory, if_neg hpath]
  cases lookable path <;> rfl

theorem isShort_of_allowed {path : String} (h : allowed path = .ok ()) :
    ∀ name ∈ pieces path, isShort name := by
  obtain ⟨-, -, h⟩ := bind_eq_ok.mp h
  split at h
  · exact List.all_eq_true.mp ‹_›
  · cases h

/-- To make directories along a path is to make those that lead to what is below it. -/
theorem makeAlong_below (h : world.makeDirectory base = (.ok (), after)) :
    world.makeAlong (world.startOf base) [] (below base) = (.ok (), after) := by
  unfold makeDirectory at h
  split at h
  · rename_i hbase
    subst hbase
    exact h
  · rename_i hbase
    split at h
    · rcases pieces_eq_below hbase with hpieces | hpieces
      · rwa [hpieces] at h
      · rw [hpieces, makeAlong_append, ← startOf] at h
        cases hbelow : world.makeAlong (world.startOf base) [] (below base) with
        | mk reply middle =>
            rw [hbelow] at h
            cases reply with
            | error fault => cases h
            | ok =>
                -- the last piece means nothing
                have hlast : middle.makeAt (world.startOf base) (below base ++ [""]) = .ok after := by
                  simp only [List.nil_append, makeAlong] at h
                  split at h
                  · cases h
                  · split at h
                    · rename_i next hnext
                      obtain ⟨-, rfl⟩ := Prod.mk.inj h
                      exact hnext
                    · cases h
                obtain ⟨rfl, -⟩ | ⟨place, hwalk, hadds⟩ := makeAt_eq_ok hlast
                · rfl
                · obtain ⟨more, target, -, hend⟩ := (walk_append_iff (List.cons_ne_nil _ _)).mp hwalk
                  exact absurd (by decide)
                    (eq_append_of_walk_last hend (kindAt_eq_none_iff.mpr hadds.free)).1
    · cases h

/-- Nothing is different but files when directories are made, and everything that was there still is. -/
theorem makeAlong_within (world : World) (start made names : List String) :
    (world.makeAlong start made names).2 =
      { world with tree := (world.makeAlong start made names).2.tree } ∧
    Within world.tree (world.makeAlong start made names).2.tree := by
  refine makeAlong_induction (P := fun other => other = { world with tree := other.tree } ∧
    Within world.tree other.tree) (fun before after _ _ _ _ _ hbefore _ hadds => ?_) ⟨rfl, .refl _⟩
  refine ⟨?_, hbefore.2.trans hadds.within⟩
  rw [(change_eq_ok_iff.mp hadds.change).2, hbefore.1]

/-- Everything that was there is still there when directories are made. -/
theorem within_makeDirectory (world : World) (path : String) :
    Within world.tree (world.makeDirectory path).2.tree := by
  rw [makeDirectory]
  split
  · exact .refl _
  · split
    · exact (makeAlong_within world _ _ _).2
    · exact .refl _


/-! ### Times -/

/-- Changes in trees that are the same but for times. -/
theorem change_alike (h : other.tree.timeless = world.tree.timeless) {put put' : Option Tree}
    (hput : put'.map timeless = put.map timeless) :
    (other.change place put').map (fun changed => changed.tree.timeless) =
      (world.change place put).map fun changed => changed.tree.timeless := by
  have hchange : (other.tree.change? other.clock put' place).map timeless =
      (world.tree.change? world.clock put place).map timeless := by
    rw [change?_timeless, change?_timeless, h, hput]
  rw [change, change]
  cases hworld : world.tree.change? world.clock put place with
  | none =>
      rw [hworld] at hchange
      rw [Option.map_eq_none_iff.mp hchange]
  | some tree =>
      rw [hworld] at hchange
      obtain ⟨tree', hother, htree⟩ := Option.map_eq_some_iff.mp hchange
      rw [hother]
      exact congrArg Except.ok htree

/-- Kinds have no times. -/
theorem kindAt_of_timeless (h : other.tree.timeless = world.tree.timeless) (q : List String) :
    other.tree.kindAt q = world.tree.kindAt q := by
  rw [← kindAt_timeless, h, kindAt_timeless]

theorem makeAt_alike (h : other.tree.timeless = world.tree.timeless) :
    (other.makeAt start names).map (fun changed => changed.tree.timeless) =
      (world.makeAt start names).map fun changed => changed.tree.timeless := by
  have hkinds := kindAt_of_timeless h
  -- Whether names lead to a directory is a question of kinds, and kinds have no times.
  have hleads : other.leadsToDirectory start names = world.leadsToDirectory start names := by
    unfold leadsToDirectory
    rw [walk_congr hkinds]
    split
    · rw [Bool.eq_iff_iff, isDirectory_iff, isDirectory_iff, hkinds]
    · rfl
  rw [makeAt, makeAt, walk_congr hkinds, hleads]
  cases walk world.tree false linkLimit start names with
  | none => rfl
  | some place =>
      have hplace := hkinds place
      rw [kindAt, kindAt] at hplace
      -- Nothing is there, so a directory is made in both.
      cases hworld : world.tree.at? place with
      | none =>
          rw [hworld] at hplace
          simp only [Option.map_eq_none_iff.mp hplace, hworld]
          exact change_alike h rfl
      -- Something is there in both, and its kind decides.
      | some inner =>
          rw [hworld] at hplace
          obtain ⟨inner', hother, -⟩ := Option.map_eq_some_iff.mp hplace
          simp only [hother, hworld]
          split
          · exact congrArg Except.ok h
          · rfl

/-- Directories are made in the same way in trees that are the same but for times. -/
theorem makeAlong_alike (h : other.tree.timeless = world.tree.timeless) :
    (other.makeAlong start made names).1 = (world.makeAlong start made names).1 ∧
      (other.makeAlong start made names).2.tree.timeless =
        (world.makeAlong start made names).2.tree.timeless := by
  induction names generalizing world other made with
  | nil => exact ⟨rfl, h⟩
  | cons name names ih =>
      -- The first name is made in both or refused in both with the same fault, as times do not
      -- matter for it.
      have hfirst : (other.makeAt start (made ++ [name])).map (fun changed => changed.tree.timeless) =
          (world.makeAt start (made ++ [name])).map fun changed => changed.tree.timeless :=
        makeAt_alike h
      rw [makeAlong, makeAlong]
      split
      · exact ⟨rfl, h⟩
      · cases hother : other.makeAt start (made ++ [name]) with
        | error fault =>
            cases hworld : world.makeAt start (made ++ [name]) with
            | error fault' =>
                rw [hother, hworld] at hfirst
                obtain rfl := Except.error.inj hfirst
                exact ⟨rfl, h⟩
            | ok next =>
                rw [hother, hworld] at hfirst
                cases hfirst
        | ok next' =>
            cases hworld : world.makeAt start (made ++ [name]) with
            | error fault =>
                rw [hother, hworld] at hfirst
                cases hfirst
            | ok next =>
                rw [hother, hworld] at hfirst
                exact ih (Except.ok.inj hfirst)

end Making

end Wireframe.Files.World
