/-
Taking files and directories away.

What is to be taken away is what the last name of a path names: a link is taken away itself, and not
what it leads to.  Afterwards the path leads to nothing, unless it leads to a directory.

* `Loses` — something is taken away from a place;
* `remove_of_at?`, `loses_of_remove` — what is there can be taken away, and what is not there cannot;
* `settle_remove_cases` — whether something is taken away, and from where;
* `readFile_of_removeFile` — there is no file where one was to be taken away.
-/
import Wireframe.Proofs.Files.Effect

namespace Wireframe.Files

namespace World

open Files.Tree

variable {world changed : World} {place : List String} {path : String} {contents : Bytes}

/-- The world has lost what was at a place. -/
structure Loses (world : World) (place : List String) (changed : World) : Prop where
  there : world.tree.kindAt place ≠ none
  change : world.change place none = .ok changed

namespace Loses

variable {q : List String}

theorem eq_with (h : Loses world place changed) : changed = { world with tree := changed.tree } :=
  (change_eq_ok_iff.mp h.change).2

theorem here_eq (h : Loses world place changed) : changed.here = world.here := by
  rw [h.eq_with]

theorem within (h : Loses world place changed) : Within changed.tree world.tree :=
  within_of_remove (change_eq_ok_iff.mp h.change).1

/-- There is nothing left at the place, nor below it. -/
theorem kindAt_self (h : Loses world place changed) (hq : place <+: q) :
    changed.tree.kindAt q = none := by
  obtain ⟨names, rfl⟩ := hq
  rw [kindAt, at?_change_append (change_eq_ok_iff.mp h.change).1]
  rfl

theorem kindAt_of_not_below (h : Loses world place changed) (hq : ¬ place <+: q) :
    changed.tree.kindAt q = world.tree.kindAt q :=
  kindAt_change (change_eq_ok_iff.mp h.change).1 hq

theorem contentsAt?_of_not_below (h : Loses world place changed) (hq : ¬ place <+: q) :
    changed.tree.contentsAt? q = world.tree.contentsAt? q :=
  contentsAt?_change (change_eq_ok_iff.mp h.change).1 hq

theorem at?_of_apart (h : Loses world place changed) (hbelow : ¬ place <+: q) (habove : ¬ q <+: place) :
    changed.tree.at? q = world.tree.at? q :=
  at?_change_of_apart (change_eq_ok_iff.mp h.change).1 hbelow habove

theorem isProper (h : Loses world place changed) (hproper : world.tree.isProper)
    (hplace : ∀ name ∈ place, isName name) : changed.tree.isProper :=
  isProper_change (change_eq_ok_iff.mp h.change).1 hproper hplace fun _ htree => nomatch htree

/-- The directory that holds what is lost holds everything else as before. -/
theorem at?_parent {parent : List String} {name : String} {entries : List (String × Tree)}
    {modified : Int} (h : Loses world (parent ++ [name]) changed)
    (hat : world.tree.at? parent = some (.directory entries modified)) :
    changed.tree.at? parent = some (.directory (dropEntry name entries) world.clock) :=
  at?_change_last (change_eq_ok_iff.mp h.change).1 hat

end Loses

/-- What is there can be taken away. -/
theorem remove_of_at? {directory : Bool} {parent : List String} {name : String} {tree : Tree}
    (hallowed : allowed path = .ok ()) (hlocate : world.locate? false path = some (parent ++ [name]))
    (hat : world.tree.at? (parent ++ [name]) = some tree) (hdirectory : tree.isDirectory = directory) :
    ∃ changed, world.remove directory path = .ok changed ∧ Loses world (parent ++ [name]) changed := by
  obtain ⟨less, hless⟩ : ∃ less, world.tree.change? world.clock none (parent ++ [name]) = some less :=
    exists_change (isDirectory_of_at? hat)
  have hchange : world.change (parent ++ [name]) none = .ok { world with tree := less } :=
    change_eq_ok_iff.mpr ⟨hless, rfl⟩
  have hthere : world.tree.kindAt (parent ++ [name]) ≠ none := by
    rw [kindAt, hat]
    exact Option.some_ne_none _
  refine ⟨_, remove_eq_ok_iff.mpr ⟨hallowed, _, tree, hlocate, hat, hdirectory, ?_, hchange⟩,
    hthere, hchange⟩
  exact List.append_ne_nil_of_right_ne_nil _ (List.cons_ne_nil _ _)

/-- What is taken away was in the directory to which the path leads. -/
theorem loses_of_remove {directory : Bool} {base name : String} (hname : isName name)
    (h : world.remove directory (join base name) = .ok changed) :
    ∃ parent, world.Reaches base parent ∧ Loses world (parent ++ [name]) changed := by
  obtain ⟨-, place, tree, hlocate, hat, -, -, hchange⟩ := remove_eq_ok_iff.mp h
  obtain ⟨parent, hreaches, rfl⟩ := (locate?_join_name_iff hname).mp hlocate
  refine ⟨parent, hreaches, ?_, hchange⟩
  rw [kindAt, hat]
  exact Option.some_ne_none _

/-- To take away what has a name in a directory: either there is no such thing, and nothing is
different, or it is lost. -/
theorem settle_remove_cases {directory : Bool} {base name : String} (hname : isName name) :
    ((world.settle (world.remove directory (join base name))).2 = world ∧
      (allowed (join base name) = .ok () → ∀ parent, world.Reaches base parent →
        ∀ tree, world.tree.at? (parent ++ [name]) = some tree → tree.isDirectory ≠ directory)) ∨
    ∃ parent, world.Reaches base parent ∧
      Loses world (parent ++ [name]) (world.settle (world.remove directory (join base name))).2 := by
  cases hremove : world.remove directory (join base name) with
  | error fault =>
      refine .inl ⟨rfl, fun hallowed parent hreaches tree hat hdirectory => ?_⟩
      obtain ⟨changed, hchanged, -⟩ := remove_of_at? hallowed
        ((locate?_join_name_iff hname).mpr ⟨parent, hreaches, rfl⟩) hat hdirectory
      rw [hremove] at hchanged
      cases hchanged
  | ok changed => exact .inr (loses_of_remove hname hremove)

/-- A path that leads to a file ends in a name, and the names before it lead to the directory in which
the name is that of the file, or of a link to it. -/
theorem exists_parent_of_file (hlocate : world.locate? true path = some place)
    (hcontents : world.tree.contentsAt? place = some contents) :
    ∃ front name left parent, pieces path = front ++ [name] ∧ name ∉ ["", ".", ".."] ∧
      Leads world.tree linkLimit (world.startOf path) front left parent ∧
      ((place = parent ++ [name]) ∨
        ∃ target, world.tree.kindAt (parent ++ [name]) = some (.link target)) := by
  have hfile := kindAt_of_contentsAt? hcontents
  obtain ⟨front, name, hpieces⟩ :=
    (List.eq_nil_or_concat' (pieces path)).resolve_left (pieces_ne_nil path)
  rw [locate?_eq, hpieces] at hlocate
  obtain ⟨left, parent, hleads, hlast⟩ := (walk_append_iff (List.cons_ne_nil _ _)).mp hlocate
  -- without a name the walk would end at a directory
  have hnot (target : List String) (hdirectory : world.tree.kindAt target = some .directory)
      (hwalk : walk world.tree true left target [] = some place) : False := by
    rw [walk_nil] at hwalk
    rw [Option.some.inj hwalk, hfile] at hdirectory
    cases hdirectory
  obtain ⟨-, hplace, hwalk⟩ | ⟨-, hplace, hwalk⟩ | ⟨hname, hnext⟩ := walk_cons hlast
  · exact absurd hwalk (hnot _ hplace)
  · have hup := Leads.kindAt_target (.up hplace (.done left parent.dropLast))
      fun hnil => absurd hnil (List.cons_ne_nil _ _)
    exact absurd hwalk (hnot _ hup)
  · refine ⟨front, name, left, parent, hpieces, hname, hleads, ?_⟩
    obtain ⟨hdirectory, hwalk⟩ | ⟨target, fewer, hlink, -⟩ | ⟨-, rfl, -⟩ := hnext
    · exact absurd hwalk (hnot _ hdirectory)
    · exact .inr ⟨target, hlink⟩
    · exact .inl rfl

/-- What can be read can be taken away: the file, or the link that leads to it. -/
theorem exists_remove_of_readFile (h : world.readFile path = .ok contents) :
    ∃ changed, world.remove false path = .ok changed := by
  obtain ⟨place, hlocate, hcontents⟩ := exists_of_readFile h
  obtain ⟨front, name, left, parent, hpieces, hname, hleads, hend⟩ :=
    exists_parent_of_file hlocate hcontents
  have hthere : ∃ tree, world.tree.at? (parent ++ [name]) = some tree ∧
      tree.isDirectory = false := by
    rcases hend with rfl | ⟨target, hlink⟩
    · obtain ⟨mode, modified, hat⟩ := contentsAt?_eq_some_iff.mp hcontents
      exact ⟨_, hat, rfl⟩
    · obtain ⟨modified, hat⟩ := kindAt_eq_link_iff.mp hlink
      exact ⟨_, hat, rfl⟩
  obtain ⟨tree, hat, hdirectory⟩ := hthere
  have hwalk : world.locate? false path = some (parent ++ [name]) := by
    rw [locate?_eq, hpieces, hleads.walk_append (.inl (List.cons_ne_nil _ _))]
    exact (walk_name_iff hname).mpr ⟨isDirectory_iff.mp (isDirectory_of_at? hat), rfl⟩
  obtain ⟨changed, hchanged, -⟩ := remove_of_at? (allowed_of_readFile h) hwalk hat hdirectory
  exact ⟨changed, hchanged⟩

/-- What has been taken away is not read any more. -/
theorem readFile_ne_of_remove (h : world.remove false path = .ok changed) (contents : Bytes) :
    changed.readFile path ≠ .ok contents := by
  intro hread
  obtain ⟨-, gone, tree, hgone, hat, -, -, hchange⟩ := remove_eq_ok_iff.mp h
  obtain ⟨htree, hchanged⟩ := change_eq_ok_iff.mp hchange
  obtain ⟨place, hlocate, hcontents⟩ := exists_of_readFile hread
  obtain ⟨front, name, left, parent, hpieces, hname, hleads, hend⟩ :=
    exists_parent_of_file hlocate hcontents
  have hstart : changed.startOf path = world.startOf path := by
    rw [hchanged]
    rfl
  -- the names before the last one have led to the same directory before
  have hbefore := hleads.mono (within_of_remove htree)
  rw [hstart] at hbefore
  rw [locate?_eq, hpieces, hbefore.walk_append (.inl (List.cons_ne_nil _ _))] at hgone
  obtain ⟨-, rfl⟩ := (walk_name_iff hname).mp hgone
  have hnothing : changed.tree.at? (parent ++ [name]) = none := by
    have happend := at?_change_append htree []
    rwa [List.append_nil] at happend
  rcases hend with rfl | ⟨target, hlink⟩
  · rw [contentsAt?, hnothing] at hcontents
    cases hcontents
  · rw [kindAt_eq_none_iff.mpr hnothing] at hlink
    cases hlink

/-- There is no file where one was to be taken away: the path leads to nothing then, or to a directory,
which is left where it is. -/
theorem readFile_of_removeFile (world : World) (path : String) (contents : Bytes) :
    (world.reply (.removeFile path)).2.readFile path ≠ .ok contents := by
  simp only [World.reply]
  cases hremove : world.remove false path with
  | error fault =>
      intro (hread : world.readFile path = .ok contents)
      obtain ⟨changed, hchanged⟩ := exists_remove_of_readFile hread
      rw [hremove] at hchanged
      cases hchanged
  | ok changed => exact readFile_ne_of_remove hremove contents

end World

end Wireframe.Files
