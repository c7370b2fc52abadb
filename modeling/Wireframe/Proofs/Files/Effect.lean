/-
What requests do to the files of a world.

A request that is granted changes what is at one place, the one to which its path leads; only making a
directory may change several.

* `Reaches` — a path leads to a directory at a place;
* `locate?_join_iff`, `locate?_join_name_iff` — where a path below another leads;
* `Puts` — a file is put at a place, `puts_createFile`, `puts_appendFile`, `puts_copyFile`;
* `remove_eq_ok_iff` — something is taken away;
* `makeAlong_induction`, `leads_of_makeAlong` — directories are made.
-/
import Wireframe.Proofs.Files.Proper
import Wireframe.Proofs.Files.Walk
import Wireframe.Proofs.Outcome

namespace Wireframe.Files

namespace World

open Files.Tree

variable {world changed : World} {place : List String} {path base : String}

/-! ### Paths -/

/-- The place from which a path is followed. -/
def startOf (world : World) (path : String) : List String :=
  if isAbsolute path then [] else world.here

theorem locate?_eq (follow : Bool) : world.locate? follow path =
    walk world.tree follow linkLimit (world.startOf path) (pieces path) := rfl

/-- What is below a path is in the directory at a place. -/
structure Reaches (world : World) (base : String) (place : List String) : Prop where
  directory : world.tree.kindAt place = some .directory
  leads : ∃ left, Leads world.tree linkLimit (world.startOf base) (below base) left place

theorem Reaches.unique {other : List String} (h : world.Reaches base place)
    (h' : world.Reaches base other) : other = place := by
  obtain ⟨left, hleads⟩ := h.leads
  obtain ⟨fewer, hleads'⟩ := h'.leads
  exact hleads.target_eq hleads'

theorem Reaches.mono (h : world.Reaches base place) (hhere : changed.here = world.here)
    (hwithin : Within world.tree changed.tree) : changed.Reaches base place := by
  obtain ⟨left, hleads⟩ := h.leads
  refine ⟨hwithin _ _ h.directory, left, ?_⟩
  rw [startOf, hhere]
  exact hleads.mono hwithin

/-- Where a path below another leads. -/
theorem locate?_join_iff {follow : Bool} {result : List String} (hpath : isAbsolute path = false) :
    world.locate? follow (join base path) = some result ↔
      ∃ left place, Leads world.tree linkLimit (world.startOf base) (below base) left place ∧
        walk world.tree follow left place (pieces path) = some result := by
  rw [locate?_eq, startOf, isAbsolute_join hpath, pieces_join hpath]
  exact walk_append_iff (pieces_ne_nil path)

theorem notMem_of_isName {name : String} (h : isName name) : name ∉ ["", ".", ".."] := by
  obtain ⟨hempty, hpoint, hup, -⟩ := isName_iff.mp h
  simp [hempty, hpoint, hup]

/-- A path that ends in a name leads into the directory that what stands before the name leads to. -/
theorem locate?_join_name_iff {name : String} (hname : isName name) {result : List String} :
    world.locate? false (join base name) = some result ↔
      ∃ place, world.Reaches base place ∧ result = place ++ [name] := by
  rw [locate?_join_iff (isAbsolute_of_isName hname), pieces_of_isName hname]
  constructor
  · rintro ⟨left, place, hleads, hwalk⟩
    obtain ⟨hplace, rfl⟩ := (walk_name_iff (notMem_of_isName hname)).mp hwalk
    exact ⟨place, ⟨hplace, left, hleads⟩, rfl⟩
  · rintro ⟨place, hreaches, rfl⟩
    obtain ⟨left, hleads⟩ := hreaches.leads
    exact ⟨left, place, hleads,
      (walk_name_iff (notMem_of_isName hname)).mpr ⟨hreaches.directory, rfl⟩⟩

/-- A directory in a directory that a path leads to. -/
theorem Reaches.join {name : String} (hname : isName name) (h : world.Reaches base place)
    (hdirectory : world.tree.kindAt (place ++ [name]) = some .directory) :
    world.Reaches (join base name) (place ++ [name]) := by
  obtain ⟨left, hleads⟩ := h.leads
  refine ⟨hdirectory, left, ?_⟩
  rw [below_join hname, startOf, isAbsolute_join (isAbsolute_of_isName hname)]
  exact hleads.append (.enter (notMem_of_isName hname) hdirectory (.done _ _))

/-- A name leads to the directory of the name. -/
theorem reaches_of_isName (world : World) {name : String} (hname : isName name)
    (h : world.tree.kindAt (world.here ++ [name]) = some .directory) :
    world.Reaches name (world.here ++ [name]) := by
  have hhere : world.Reaches "" world.here :=
    ⟨kindAt_of_append h (List.cons_ne_nil _ _), linkLimit, .done _ _⟩
  have hjoin : join "" name = name := by
    rw [join, isAbsolute_of_isName hname, if_neg Bool.false_ne_true, if_pos rfl]
  have hreaches := hhere.join hname h
  rwa [hjoin] at hreaches

/-- A path that leads to a directory. -/
theorem reaches_iff (hbase : base ≠ "") :
    world.Reaches base place ↔
      world.locate? true base = some place ∧ world.tree.kindAt place = some .directory := by
  constructor
  · rintro ⟨hdirectory, left, hleads⟩
    refine ⟨?_, hdirectory⟩
    -- Whether a path ends in a name or at a directory decides how its last step is taken.
    rcases pieces_eq_below hbase with hpieces | hpieces
    · rw [locate?_eq, hpieces]
      exact hleads.walk_eq
    · rw [locate?_eq, hpieces, hleads.walk_append (.inr rfl), walk_stay (.inl rfl), if_pos hdirectory,
        walk_nil]
  · rintro ⟨hlocate, hdirectory⟩
    refine ⟨hdirectory, ?_⟩
    rw [locate?_eq] at hlocate
    rcases pieces_eq_below hbase with hpieces | hpieces
    · rw [hpieces, ← List.append_nil (below base)] at hlocate
      obtain ⟨left, target, hleads, hend⟩ :=
        -- The walk as far as the last name is what the base leads along.
        exists_leads_of_walk (fun _ => ⟨rfl, hdirectory⟩) hlocate
      rw [walk_nil] at hend
      obtain rfl := Option.some.inj hend
      exact ⟨left, hleads⟩
    · rw [hpieces] at hlocate
      obtain ⟨left, target, hleads, hend⟩ := (walk_append_iff (List.cons_ne_nil _ _)).mp hlocate
      rw [walk_stay (.inl rfl)] at hend
      split at hend
      · rw [walk_nil] at hend
        obtain rfl := Option.some.inj hend
        exact ⟨left, hleads⟩
      · cases hend

/-! ### Single changes -/

theorem change_eq_ok_iff {put : Option Tree} : world.change place put = .ok changed ↔
    world.tree.change? world.clock put place = some changed.tree ∧
      changed = { world with tree := changed.tree } := by
  rw [change]
  cases h : world.tree.change? world.clock put place with
  | none => simp
  | some tree =>
      simp only [Except.ok.injEq, Option.some.injEq]
      constructor
      · rintro rfl
        exact ⟨rfl, rfl⟩
      · rintro ⟨rfl, hchanged⟩
        exact hchanged.symm

theorem find_eq_ok_iff {follow : Bool} {tree : Option Tree} :
    world.find follow path = .ok (place, tree) ↔ allowed path = .ok () ∧
      world.locate? follow path = some place ∧ tree = world.tree.at? place := by
  rw [find, bind_eq_ok]
  cases world.locate? follow path with
  | none =>
      constructor
      · rintro ⟨-, -, hthrow⟩
        cases hthrow
      · rintro ⟨-, hlocate, -⟩
        cases hlocate
  | some found =>
      constructor
      · rintro ⟨⟨⟩, hallowed, hfound⟩
        obtain ⟨rfl, rfl⟩ := Prod.mk.inj (Except.ok.inj hfound)
        exact ⟨hallowed, rfl, rfl⟩
      · rintro ⟨hallowed, hlocate, rfl⟩
        obtain rfl := Option.some.inj hlocate
        exact ⟨(), hallowed, rfl⟩

/-! ### Looking -/

theorem ne_empty_of_allowed (h : allowed path = .ok ()) : path ≠ "" := by
  rintro rfl
  cases h

theorem exists_of_survey {enters : List String → Bool} {shape : Shape}
    (h : world.survey path enters = .ok shape) :
    path ≠ "" ∧ ∃ place tree, world.locate? true path = some place ∧
      world.tree.at? place = some tree ∧ shape = tree.shape.seen enters := by
  obtain ⟨⟨place, found⟩, hfind, h⟩ := bind_eq_ok.mp h
  obtain ⟨hallowed, hlocate, rfl⟩ := find_eq_ok_iff.mp hfind
  split at h
  · rename_i tree hpair
    obtain ⟨rfl, hat⟩ := Prod.mk.inj hpair
    exact ⟨ne_empty_of_allowed hallowed, place, tree, hlocate, hat, (Except.ok.inj h).symm⟩
  · cases h

theorem allowed_of_readFile {contents : Bytes} (h : world.readFile path = .ok contents) :
    allowed path = .ok () := by
  obtain ⟨⟨place, found⟩, hfind, -⟩ := bind_eq_ok.mp h
  exact (find_eq_ok_iff.mp hfind).1

theorem exists_of_readFile {contents : Bytes} (h : world.readFile path = .ok contents) :
    ∃ place, world.locate? true path = some place ∧
      world.tree.contentsAt? place = some contents := by
  obtain ⟨⟨place, found⟩, hfind, h⟩ := bind_eq_ok.mp h
  obtain ⟨-, hlocate, rfl⟩ := find_eq_ok_iff.mp hfind
  split at h
  · rename_i held mode modified hpair
    obtain ⟨rfl, hat⟩ := Prod.mk.inj hpair
    obtain rfl := Except.ok.inj h
    exact ⟨place, hlocate, contentsAt?_eq_some_iff.mpr ⟨mode, modified, hat⟩⟩
  · cases h

/-- What is listed of a directory is what it holds. -/
theorem entries_eq_ok_iff {found : List DirEntry} : world.entries path = .ok found ↔
    allowed path = .ok () ∧ ∃ place entries modified, world.Reaches path place ∧
      world.tree.at? place = some (.directory entries modified) ∧
      found = entries.map fun entry => ⟨entry.1, entry.2.isDirectory, entry.2.modified⟩ := by
  constructor
  · intro h
    obtain ⟨⟨place, found⟩, hfind, h⟩ := bind_eq_ok.mp h
    obtain ⟨hallowed, hlocate, rfl⟩ := find_eq_ok_iff.mp hfind
    split at h
    · rename_i entries modified hpair
      obtain ⟨rfl, hat⟩ := Prod.mk.inj hpair
      have hdirectory : world.tree.kindAt place = some .directory := by
        rw [kindAt, hat]
        rfl
      exact ⟨hallowed, place, entries, modified,
        (reaches_iff (ne_empty_of_allowed hallowed)).mpr ⟨hlocate, hdirectory⟩, hat,
        (Except.ok.inj h).symm⟩
    · cases h
  · rintro ⟨hallowed, place, entries, modified, hreaches, hat, rfl⟩
    obtain ⟨hlocate, -⟩ := (reaches_iff (ne_empty_of_allowed hallowed)).mp hreaches
    exact bind_eq_ok.mpr ⟨_, find_eq_ok_iff.mpr ⟨hallowed, hlocate, hat.symm⟩, rfl⟩

theorem exists_of_isDirectory (h : world.isDirectory path = true) :
    path ≠ "" ∧ ∃ place, world.locate? true path = some place ∧
      world.tree.kindAt place = some .directory := by
  unfold isDirectory at h
  split at h
  · rename_i place tree hfind
    obtain ⟨hallowed, hlocate, hat⟩ := find_eq_ok_iff.mp hfind
    refine ⟨ne_empty_of_allowed hallowed, place, hlocate, isDirectory_iff.mp ?_⟩
    rw [← hat]
    exact h
  · cases h

/-! ### Files -/

/-- A file with some contents is put at a place where there was none or another. -/
structure Puts (world : World) (place : List String) (contents : Bytes) (changed : World) : Prop where
  free : world.tree.kindAt place = none ∨ world.tree.kindAt place = some .file
  change : ∃ mode, world.change place (some (.file contents mode world.clock)) = .ok changed

theorem puts_createFile (h : world.createFile path = .ok changed) : allowed path = .ok () ∧
    ∃ place, world.locate? true path = some place ∧ Puts world place [] changed := by
  obtain ⟨⟨place, tree⟩, hfind, h⟩ := bind_eq_ok.mp h
  obtain ⟨hallowed, hlocate, rfl⟩ := find_eq_ok_iff.mp hfind
  refine ⟨hallowed, place, hlocate, ?_⟩
  split at h
  · rename_i hpair
    obtain ⟨rfl, hat⟩ := Prod.mk.inj hpair
    exact ⟨.inl (kindAt_eq_none_iff.mpr hat), _, h⟩
  · rename_i contents mode modified hpair
    obtain ⟨rfl, hat⟩ := Prod.mk.inj hpair
    exact ⟨.inr (kindAt_eq_file_iff.mpr ⟨_, _, _, hat⟩), mode, h⟩
  · cases h

theorem puts_appendFile {more : Bytes} (h : world.appendFile path more = .ok changed) :
    allowed path = .ok () ∧ ∃ place contents, world.locate? true path = some place ∧
      world.tree.contentsAt? place = some contents ∧ Puts world place (contents ++ more) changed := by
  obtain ⟨⟨place, tree⟩, hfind, h⟩ := bind_eq_ok.mp h
  obtain ⟨hallowed, hlocate, rfl⟩ := find_eq_ok_iff.mp hfind
  refine ⟨hallowed, ?_⟩
  split at h
  · rename_i contents mode modified hpair
    obtain ⟨rfl, hat⟩ := Prod.mk.inj hpair
    have hcontents := contentsAt?_eq_some_iff.mpr ⟨mode, modified, hat⟩
    exact ⟨place, contents, hlocate, hcontents, .inr (kindAt_of_contentsAt? hcontents), mode, h⟩
  · cases h

theorem puts_copyFile {source target : String} (h : world.copyFile source target = .ok changed) :
    allowed target = .ok () ∧ ∃ origin place contents, world.locate? true source = some origin ∧
      world.tree.contentsAt? origin = some contents ∧ world.locate? true target = some place ∧
      Puts world place contents changed := by
  obtain ⟨⟨origin, tree⟩, hsource, h⟩ := bind_eq_ok.mp h
  obtain ⟨⟨place, tree'⟩, htarget, h⟩ := bind_eq_ok.mp h
  obtain ⟨-, horigin, rfl⟩ := find_eq_ok_iff.mp hsource
  obtain ⟨hallowed, hplace, rfl⟩ := find_eq_ok_iff.mp htarget
  refine ⟨hallowed, ?_⟩
  split at h
  · rename_i from? contents mode modified to? horigin' hplace'
    obtain ⟨rfl, hat⟩ := Prod.mk.inj horigin'
    obtain ⟨rfl, hfree⟩ := Prod.mk.inj hplace'
    exact ⟨origin, place, contents, horigin, contentsAt?_eq_some_iff.mpr ⟨mode, modified, hat⟩,
      hplace, .inl (kindAt_eq_none_iff.mpr hfree), mode, h⟩
  · rename_i from? contents mode modified to? old oldMode oldModified horigin' hplace'
    obtain ⟨rfl, hat⟩ := Prod.mk.inj horigin'
    obtain ⟨rfl, hfile⟩ := Prod.mk.inj hplace'
    exact ⟨origin, place, contents, horigin, contentsAt?_eq_some_iff.mpr ⟨mode, modified, hat⟩,
      hplace, .inr (kindAt_eq_file_iff.mpr ⟨_, _, _, hfile⟩), mode, h⟩
  · cases h

/-- A file is copied to a name in a directory, if there is no other thing of that name. -/
theorem exists_copyFile {source target name : String} {origin : List String} {contents : Bytes}
    (hsource : allowed source = .ok ()) (htarget : allowed target = .ok ())
    (horigin : world.locate? true source = some origin)
    (hcontents : world.tree.contentsAt? origin = some contents)
    (hlocate : world.locate? true target = some (place ++ [name]))
    (hplace : world.tree.kindAt place = some .directory)
    (hfree : world.tree.kindAt (place ++ [name]) = none ∨
      world.tree.kindAt (place ++ [name]) = some .file) :
    ∃ changed, world.copyFile source target = .ok changed ∧
      Puts world (place ++ [name]) contents changed := by
  obtain ⟨mode, modified, hat⟩ := contentsAt?_eq_some_iff.mp hcontents
  -- A directory takes whatever is put in it under a name of its own.
  have hput (put : Tree) : ∃ after, world.change (place ++ [name]) (some put) = .ok after := by
    obtain ⟨more, hmore⟩ : ∃ more, world.tree.change? world.clock (some put) (place ++ [name]) =
        some more := exists_change (kindAt_eq_directory_iff.mp hplace)
    exact ⟨{ world with tree := more }, change_eq_ok_iff.mpr ⟨hmore, rfl⟩⟩
  obtain ⟨after, hchange⟩ := hput (.file contents mode world.clock)
  have hfrom : world.find true source = .ok (origin, some (.file contents mode modified)) :=
    find_eq_ok_iff.mpr ⟨hsource, horigin, hat.symm⟩
  have hto : world.find true target = .ok (place ++ [name], world.tree.at? (place ++ [name])) :=
    find_eq_ok_iff.mpr ⟨htarget, hlocate, rfl⟩
  refine ⟨after, ?_, hfree, mode, hchange⟩
  refine bind_eq_ok.mpr ⟨_, hfrom, bind_eq_ok.mpr ⟨_, hto, ?_⟩⟩
  -- New or there already, the file gets the contents and the mode of its source.
  rcases hfree with hnone | hfile
  · simp only [kindAt_eq_none_iff.mp hnone]
    exact hchange
  · obtain ⟨old, oldMode, since, hold⟩ := kindAt_eq_file_iff.mp hfile
    simp only [hold]
    exact hchange

/-- What is taken away is there, and is or is not a directory as it should be. -/
theorem remove_eq_ok_iff {directory : Bool} : world.remove directory path = .ok changed ↔
    allowed path = .ok () ∧ ∃ place tree, world.locate? false path = some place ∧
      world.tree.at? place = some tree ∧ tree.isDirectory = directory ∧ place ≠ [] ∧
      world.change place none = .ok changed := by
  constructor
  · intro h
    obtain ⟨⟨place, tree⟩, hfind, h⟩ := bind_eq_ok.mp h
    obtain ⟨hallowed, hlocate, rfl⟩ := find_eq_ok_iff.mp hfind
    refine ⟨hallowed, ?_⟩
    split at h
    · rename_i tree hpair
      obtain ⟨rfl, hat⟩ := Prod.mk.inj hpair
      split at h
      · rename_i hgo
        exact ⟨place, tree, hlocate, hat, hgo.1, hgo.2, h⟩
      · cases h
    · cases h
  · rintro ⟨hallowed, place, tree, hlocate, hat, hdirectory, hplace, h⟩
    refine bind_eq_ok.mpr ⟨(place, some tree), find_eq_ok_iff.mpr ⟨hallowed, hlocate, hat.symm⟩, ?_⟩
    simp only [hdirectory, hplace, ne_eq, not_false_eq_true, and_self, if_true]
    exact h

theorem eq_or_not_prefix (place other : List String) :
    other = place ∨ ¬ place <+: other ∨ ∃ names, names ≠ [] ∧ other = place ++ names := by
  by_cases hbelow : place <+: other
  · obtain ⟨names, rfl⟩ := hbelow
    by_cases hnames : names = []
    · rw [hnames, List.append_nil]
      exact .inl rfl
    · exact .inr (.inr ⟨names, hnames, rfl⟩)
  · exact .inr (.inl hbelow)

namespace Puts

variable {contents : Bytes} {other : List String}

theorem here_eq (h : Puts world place contents changed) : changed.here = world.here := by
  obtain ⟨mode, hchange⟩ := h.change
  rw [(change_eq_ok_iff.mp hchange).2]

theorem contentsAt?_self (h : Puts world place contents changed) :
    changed.tree.contentsAt? place = some contents := by
  obtain ⟨mode, hchange⟩ := h.change
  have hat := at?_change_append (change_eq_ok_iff.mp hchange).1 []
  rw [List.append_nil] at hat
  rw [contentsAt?, hat]
  rfl

/-- Everything that was there still is, with the same kind. -/
theorem within (h : Puts world place contents changed) : Within world.tree changed.tree := by
  obtain ⟨mode, hchange⟩ := h.change
  have htree := (change_eq_ok_iff.mp hchange).1
  rcases h.free with hfree | hfile
  · exact within_of_add htree (kindAt_eq_none_iff.mp hfree)
  · intro q kind hkind
    rwa [kindAt_replace htree rfl hfile]

/-- There is nothing below a place at which a file is put, neither before nor after that. -/
theorem kindAt_below (h : Puts world place contents changed) {names : List String}
    (hnames : names ≠ []) : world.tree.kindAt (place ++ names) = none ∧
      changed.tree.kindAt (place ++ names) = none := by
  refine ⟨Option.eq_none_iff_forall_ne_some.mpr fun kind hkind => ?_,
    Tree.kindAt_below (kindAt_of_contentsAt? h.contentsAt?_self) hnames⟩
  have hdirectory := kindAt_of_append hkind hnames
  rcases h.free with hfree | hfile
  · rw [hfree] at hdirectory
    cases hdirectory
  · rw [hfile] at hdirectory
    cases hdirectory

theorem kindAt_of_ne (h : Puts world place contents changed) (hother : other ≠ place) :
    changed.tree.kindAt other = world.tree.kindAt other := by
  rcases eq_or_not_prefix place other with heq | hbelow | ⟨names, hnames, rfl⟩
  · exact absurd heq hother
  · obtain ⟨mode, hchange⟩ := h.change
    exact kindAt_change (change_eq_ok_iff.mp hchange).1 hbelow
  · obtain ⟨hbefore, hafter⟩ := h.kindAt_below hnames
    rw [hbefore, hafter]

theorem contentsAt?_of_ne (h : Puts world place contents changed) (hother : other ≠ place) :
    changed.tree.contentsAt? other = world.tree.contentsAt? other := by
  rcases eq_or_not_prefix place other with heq | hbelow | ⟨names, hnames, rfl⟩
  · exact absurd heq hother
  · obtain ⟨mode, hchange⟩ := h.change
    exact contentsAt?_change (change_eq_ok_iff.mp hchange).1 hbelow
  · obtain ⟨hbefore, hafter⟩ := h.kindAt_below hnames
    have hnone (tree : Tree) (hkind : tree.kindAt (place ++ names) = none) :
        tree.contentsAt? (place ++ names) = none := by
      refine contentsAt?_eq_none ?_
      rw [hkind]
      decide
    rw [hnone _ hbefore, hnone _ hafter]

theorem isProper (h : Puts world place contents changed) (hproper : world.tree.isProper)
    (hplace : ∀ name ∈ place, isName name) : changed.tree.isProper := by
  obtain ⟨mode, hchange⟩ := h.change
  refine isProper_change (change_eq_ok_iff.mp hchange).1 hproper hplace ?_
  rintro tree ⟨⟩
  rfl

end Puts

/-! ### Directories -/

section Directories

variable {start made names : List String}

/-- The world has got an empty directory at a place where there was nothing. -/
structure Adds (world : World) (place : List String) (changed : World) : Prop where
  free : world.tree.at? place = none
  change : world.change place (some (.directory [] world.clock)) = .ok changed

theorem makeAt_eq_ok (h : world.makeAt start names = .ok changed) :
    (changed = world ∧ ∃ place, walk world.tree true linkLimit start names = some place ∧
      world.tree.kindAt place = some .directory) ∨
    ∃ place, walk world.tree false linkLimit start names = some place ∧ Adds world place changed := by
  unfold makeAt at h
  split at h
  · cases h
  · rename_i place hwalk
    split at h
    · rename_i hfree
      exact .inr ⟨place, hwalk, hfree, h⟩
    · split at h
      · rename_i hleads
        obtain rfl := Except.ok.inj h
        refine .inl ⟨rfl, ?_⟩
        unfold leadsToDirectory at hleads
        split at hleads
        · exact ⟨_, ‹_›, isDirectory_iff.mp hleads⟩
        · cases hleads
      · cases h

namespace Adds

theorem here_eq (h : Adds world place changed) : changed.here = world.here := by
  rw [(change_eq_ok_iff.mp h.change).2]

theorem within (h : Adds world place changed) : Within world.tree changed.tree :=
  within_of_add (change_eq_ok_iff.mp h.change).1 h.free

theorem kindAt_self (h : Adds world place changed) :
    changed.tree.kindAt place = some .directory := by
  have hat := at?_change_append (change_eq_ok_iff.mp h.change).1 []
  rw [List.append_nil] at hat
  rw [kindAt, hat]
  rfl

theorem kindAt_of_ne (h : Adds world place changed) {other : List String} (hother : other ≠ place) :
    changed.tree.kindAt other = world.tree.kindAt other := by
  have htree := (change_eq_ok_iff.mp h.change).1
  rcases eq_or_not_prefix place other with heq | hbelow | ⟨names, hnames, rfl⟩
  · exact absurd heq hother
  · exact kindAt_change htree hbelow
  -- there is nothing in an empty directory
  · obtain ⟨name, rest, rfl⟩ := List.exists_cons_of_ne_nil hnames
    rw [kindAt, kindAt, at?_change_append htree, at?_append, h.free]
    rfl

theorem contentsAt?_eq (h : Adds world place changed) (other : List String) :
    changed.tree.contentsAt? other = world.tree.contentsAt? other := by
  have htree := (change_eq_ok_iff.mp h.change).1
  by_cases hbelow : place <+: other
  · obtain ⟨names, rfl⟩ := hbelow
    rw [contentsAt?, contentsAt?, at?_change_append htree, at?_append, h.free]
    cases names <;> rfl
  · exact contentsAt?_change htree hbelow

theorem isProper (h : Adds world place changed) (hproper : world.tree.isProper)
    (hplace : ∀ name ∈ place, isName name) : changed.tree.isProper := by
  refine isProper_change (change_eq_ok_iff.mp h.change).1 hproper hplace ?_
  rintro tree ⟨⟩
  rfl

end Adds

/-- What every directory that is made keeps is kept when directories are made along some names,
whether or not all of them can be made. -/
theorem makeAlong_induction {P : World → Prop}
    (hadd : ∀ before after front place, front ≠ [] → front <+: names →
      (∀ name ∈ front, isShort name) → P before →
      walk before.tree false linkLimit start (made ++ front) = some place →
      Adds before place after → P after) (h : P world) : P (world.makeAlong start made names).2 := by
  induction names generalizing world made with
  -- One name is made at a time; what is made so far holds what the induction is about.
  | nil => exact h
  | cons name names ih =>
      unfold makeAlong
      split
      · exact h
      · rename_i hlong
        have hshort : isShort name := by simpa using hlong
        split
        · rename_i next hnext
          have hfirst : P next := by
            rcases makeAt_eq_ok hnext with ⟨rfl, -⟩ | ⟨place, hwalk, hadds⟩
            · exact h
            · exact hadd world next [name] place (List.cons_ne_nil _ _) ⟨names, rfl⟩
                (List.forall_mem_singleton.mpr hshort) h hwalk hadds
          -- Whatever is made later lies below, so its path from the start has the first name in
          -- front.
          refine ih (fun before after front place hne hfront hnames hbefore hwalk hadds => ?_) hfirst
          rw [List.append_assoc] at hwalk
          exact hadd before after (name :: front) place (List.cons_ne_nil _ _)
            ((List.prefix_cons_inj name).mpr hfront) (List.forall_mem_cons.mpr ⟨hshort, hnames⟩)
            hbefore hwalk hadds
        · exact h

/-- Names along which directories have been made lead to the last one. -/
theorem leads_of_makeAt (hnames : names ≠ []) (h : world.makeAt start names = .ok changed) :
    ∃ left place, Leads changed.tree linkLimit start names left place := by
  rcases makeAt_eq_ok h with ⟨rfl, place, hwalk, hplace⟩ | ⟨place, hwalk, hadds⟩
  · obtain ⟨left, hleads⟩ := (leads_iff_walk fun hnil => absurd hnil hnames).mpr ⟨hwalk, hplace⟩
    exact ⟨left, place, hleads⟩
  · obtain ⟨front, name, rfl⟩ := (List.eq_nil_or_concat' names).resolve_left hnames
    obtain ⟨left, target, hleads, hlast⟩ := (walk_append_iff (List.cons_ne_nil _ _)).mp hwalk
    obtain ⟨hname, rfl⟩ := eq_append_of_walk_last hlast (kindAt_eq_none_iff.mpr hadds.free)
    exact ⟨left, _, (hleads.mono hadds.within).append (.enter hname hadds.kindAt_self (.done _ _))⟩

theorem leads_of_makeAlong (hnames : names ≠ [])
    (h : world.makeAlong start made names = (.ok (), changed)) :
    ∃ left place, Leads changed.tree linkLimit start (made ++ names) left place := by
  induction names generalizing world made with
  | nil => exact absurd rfl hnames
  | cons name names ih =>
      unfold makeAlong at h
      split at h
      · cases h
      · split at h
        · rename_i next hnext
          rw [List.append_cons]
          cases names with
          | nil =>
              obtain ⟨-, rfl⟩ := Prod.mk.inj h
              rw [List.append_nil]
              exact leads_of_makeAt (List.append_ne_nil_of_right_ne_nil _ (List.cons_ne_nil _ _))
                hnext
          | cons => exact ih (List.cons_ne_nil _ _) h
        · cases h

end Directories

end World

end Wireframe.Files
