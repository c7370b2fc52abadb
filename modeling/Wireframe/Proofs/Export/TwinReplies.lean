/-
Requests in two worlds.

A request about a workspace is replied in the same way in both worlds in which the workspace is the same,
and afterwards the workspace is the same again.

* `IsPathTo` — paths of a workspace, and of what is in it;
* `Twin.find_cases` — what such a path leads to in both worlds;
* `Agree` — what comes of a request in both worlds;
* `Twin.agree_create`, `Twin.agree_append`, `Twin.agree_copy`, `Twin.agree_makeDirectory` — writing;
* `Twin.agree_read`, `Twin.agree_isExecutable`, `Twin.agree_survey`, `Twin.agree_send` — reading and
  handing out.
-/
import Wireframe.Proofs.Export.Twin

namespace Wireframe.Export

open Files World Tree

/-- The path of a workspace, of its archive or of something in it, and the names that lead there from
the work root. -/
inductive IsPathTo (root stem : String) : String → List String → Prop
  | inside {names : List String} (h : AreNames names) :
      IsPathTo root stem (join (join root stem) (relative names)) (stem :: names)
  | directory : IsPathTo root stem (join root stem) [stem]
  | archive : IsPathTo root stem (join root (stem ++ ".zip")) [stem ++ ".zip"]

/-- What comes of a request in both worlds: the reply is the same, and so is the workspace afterwards. -/
structure Agree (site : Site) (stem : String) (others : List String) (alone among : World)
    (request : Request) : Prop where
  reply : (among.reply request).1 = (alone.reply request).1
  twin : Twin site stem (alone.reply request).2 (among.reply request).2
  guarantees : Guarantees site (namesOf stem) others among (among.reply request).2

section Replies

variable {site : Site} {root stem path : String} {others names : List String}
  {alone among world : World} {follow : Bool}

/-! ### Paths -/

namespace IsPathTo

theorem ne_nil (h : IsPathTo root stem path names) : names ≠ [] := by
  cases h <;> exact List.cons_ne_nil _ _

theorem isName (h : IsPathTo root stem path names) (hstem : isName stem) :
    ∀ name ∈ names, isName name := by
  cases h with
  | inside hnames => exact List.forall_mem_cons.mpr ⟨hstem, hnames.names⟩
  | directory => exact List.forall_mem_singleton.mpr hstem
  | archive => exact List.forall_mem_singleton.mpr (isName_archive hstem)

theorem exists_of_names (root stem : String) (hnames : ∀ name ∈ names, Files.isName name) :
    ∃ path, IsPathTo root stem path (stem :: names) := by
  rcases eq_or_ne names [] with rfl | hne
  · exact ⟨_, .directory⟩
  · exact ⟨_, .inside ⟨hne, hnames⟩⟩

theorem pieces_eq (h : IsPathTo root stem path names) (hstem : Files.isName stem) :
    pieces path = below root ++ names := by
  cases h with
  | inside hnames =>
      rw [pieces_join (isAbsolute_relative hnames), pieces_relative hnames, below_join hstem,
        List.append_assoc]
      rfl
  | directory => exact pieces_join_name hstem
  | archive => exact pieces_join_name (isName_archive hstem)

theorem startOf_eq (h : IsPathTo root stem path names) (hstem : Files.isName stem) :
    world.startOf path = world.startOf root := by
  cases h with
  | inside hnames =>
      rw [startOf, startOf, isAbsolute_join (isAbsolute_relative hnames),
        isAbsolute_join (isAbsolute_of_isName hstem)]
  | directory => rw [startOf, startOf, isAbsolute_join (isAbsolute_of_isName hstem)]
  | archive => rw [startOf, startOf, isAbsolute_join (isAbsolute_of_isName (isName_archive hstem))]

/-- No part of the way into a workspace is a link. -/
theorem unlinked {tree : Tree} (h : IsPathTo root stem path names) (htidy : Tidy site stem tree) :
    ∀ front, front ≠ [] → front <+: names → ∀ target,
      tree.kindAt (site.place ++ front) ≠ some (.link target) := by
  have hinside (front more : List String) (hfront : front ≠ []) (hbegins : front <+: stem :: more)
      (target : String) : tree.kindAt (site.place ++ front) ≠ some (.link target) := by
    obtain ⟨name, rest, rfl⟩ := List.exists_cons_of_ne_nil hfront
    obtain ⟨rfl, -⟩ := List.cons_prefix_cons.mp hbegins
    rw [List.append_cons]
    exact htidy.unlinked rest target
  intro front hfront hbegins target
  cases h with
  | inside => exact hinside front _ hfront hbegins target
  | directory => exact hinside front _ hfront hbegins target
  | archive =>
      obtain ⟨name, rest, rfl⟩ := List.exists_cons_of_ne_nil hfront
      obtain ⟨rfl, hrest⟩ := List.cons_prefix_cons.mp hbegins
      obtain rfl := List.prefix_nil.mp hrest
      rcases htidy.archive with harchive | harchive <;> rw [harchive] <;> simp

/-- Where a path into a workspace leads. -/
theorem walk_eq {start : List String} {left : Nat} (h : IsPathTo root stem path names)
    (hstem : Files.isName stem) (htidy : Tidy site stem world.tree)
    (hplace : world.tree.kindAt site.place = some .directory)
    (hleads : Leads world.tree linkLimit start (below root) left site.place) :
    walk world.tree follow linkLimit start (below root ++ names) =
      if world.tree.kindAt (site.place ++ names.dropLast) = some .directory then
        some (site.place ++ names) else none := by
  rw [hleads.walk_append (.inl h.ne_nil)]
  exact walk_names hplace h.ne_nil (fun name hname => notMem_of_isName (h.isName hstem name hname))
    (h.unlinked htidy)

theorem locate?_eq (h : IsPathTo site.root stem path names) (hstem : Files.isName stem)
    (htidy : Tidy site stem world.tree) (hreaches : world.Reaches site.root site.place) :
    world.locate? follow path =
      if world.tree.kindAt (site.place ++ names.dropLast) = some .directory then
        some (site.place ++ names) else none := by
  obtain ⟨left, hleads⟩ := hreaches.leads
  rw [World.locate?_eq, h.pieces_eq hstem, h.startOf_eq hstem]
  exact h.walk_eq hstem htidy hreaches.directory hleads

end IsPathTo

/-! ### Replies -/

/-- A question to which the reply is the same. -/
theorem Twin.agree_question (h : Twin site stem alone among) {request : Request}
    (hquestion : request.isQuestion = true)
    (hreply : (among.reply request).1 = (alone.reply request).1) :
    Agree site stem others alone among request := by
  have hsame (world : World) : (world.reply request).2 = world := by
    cases request <;> first | rfl | cases hquestion
  refine ⟨hreply, ?_, ?_⟩
  · rw [hsame, hsame]
    exact h
  · rw [hsame]
    exact .of_same (.inr h.variesAmong) rfl rfl rfl

theorem Twin.agree_survey (h : Twin site stem alone among)
    (hfound : among.found path = alone.found path) (enters : List String → Bool) :
    Agree site stem others alone among (.survey path enters) := by
  refine h.agree_question rfl ?_
  simp only [World.reply]
  rw [survey_eq, survey_eq, hfound]

/-- A change that is refused in both worlds, or is made in both. -/
theorem Twin.agree_settle (h : Twin site stem alone among) {result result' : Except Fault World}
    (hresult : (∃ fault, result = .error fault ∧ result' = .error fault) ∨
      ∃ next next', result = .ok next ∧ result' = .ok next' ∧ Twin site stem next next' ∧
        Guarantees site (namesOf stem) others among next') :
    (among.settle result').1 = (alone.settle result).1 ∧
      Twin site stem (alone.settle result).2 (among.settle result').2 ∧
      Guarantees site (namesOf stem) others among (among.settle result').2 := by
  rcases hresult with ⟨fault, rfl, rfl⟩ | ⟨next, next', rfl, rfl, htwin, hguarantees⟩
  · exact ⟨rfl, h, .of_same (.inr h.variesAmong) rfl rfl rfl⟩
  · exact ⟨rfl, htwin, hguarantees⟩

/-- What is handed out and taken is the export's own. -/
theorem sendBytes_sees (own other : World) (bytes : Bytes) :
    (own.sees other).sendBytes bytes =
      ((own.sendBytes bytes).1, (own.sendBytes bytes).2.sees other) := by
  have hpatience : (own.sees other).patience = own.patience := rfl
  rw [sendBytes, sendBytes, hpatience]
  cases own.patience <;> rfl

theorem Twin.agree_send (h : Twin site stem alone among) (bytes : Bytes) :
    Agree site stem others alone among (.send bytes) := by
  have hlooks (world : World) : (world.sendBytes bytes).2.tree = world.tree ∧
      (world.sendBytes bytes).2.here = world.here ∧
      (world.sendBytes bytes).2.clock = world.clock := by
    rw [sendBytes]
    cases world.patience <;> exact ⟨rfl, rfl, rfl⟩
  obtain ⟨htree, hhere, -⟩ := hlooks alone
  obtain ⟨htree', hhere', hclock'⟩ := hlooks among
  have hsend : among.sendBytes bytes =
      ((alone.sendBytes bytes).1, (alone.sendBytes bytes).2.sees among) := by
    rw [h.sees]
    exact sendBytes_sees alone among bytes
  refine ⟨by simp only [World.reply, hsend], h.congr htree htree' hhere ?_,
    .of_same (.inr h.variesAmong) htree' hhere' hclock'⟩
  simp only [World.reply, hsend]
  rfl

section Owner

variable (hfirm : site.IsFirm) (howner : IsOwner site stem others)

include hfirm in
theorem Twin.reaches (h : Twin site stem alone among) :
    alone.Reaches site.root site.place ∧ among.Reaches site.root site.place :=
  ⟨hfirm.reaches alone h.here h.varies, hfirm.reaches among h.here_among h.variesAmong⟩

/-- What holds something of the workspace is a directory in both worlds, or in none. -/
theorem Twin.kindAt_parent (h : Twin site stem alone among) (hfirm : site.IsFirm)
    (hpath : IsPathTo site.root stem path names) :
    among.tree.kindAt (site.place ++ names.dropLast) =
      alone.tree.kindAt (site.place ++ names.dropLast) := by
  obtain ⟨hreaches, hreaches'⟩ := h.reaches hfirm
  cases hpath with
  | inside hnames =>
      rw [List.dropLast_cons_of_ne_nil hnames.ne_nil]
      exact h.kindAt_same (mem_namesOf.mpr (.inl rfl)) _
  | directory =>
      rw [List.dropLast_singleton, List.append_nil, hreaches.directory, hreaches'.directory]
  | archive =>
      rw [List.dropLast_singleton, List.append_nil, hreaches.directory, hreaches'.directory]

theorem Twin.at?_path (h : Twin site stem alone among) (hpath : IsPathTo site.root stem path names) :
    (among.tree.at? (site.place ++ names)).map timeless =
      (alone.tree.at? (site.place ++ names)).map timeless := by
  cases hpath with
  | inside => exact h.at?_same (mem_namesOf.mpr (.inl rfl)) _
  | directory => exact h.at?_same (mem_namesOf.mpr (.inl rfl)) _
  | archive => exact h.at?_same (mem_namesOf.mpr (.inr rfl)) _

include hfirm howner

/-- What a path into the workspace leads to in both worlds: nothing, or what is at its place. -/
theorem Twin.find_cases (h : Twin site stem alone among) (follow : Bool)
    (hpath : IsPathTo site.root stem path names) :
    (∃ fault, alone.find follow path = .error fault ∧ among.find follow path = .error fault) ∨
      World.allowed path = .ok () ∧
        alone.tree.kindAt (site.place ++ names.dropLast) = some .directory ∧
        among.tree.kindAt (site.place ++ names.dropLast) = some .directory ∧
        alone.find follow path = .ok (site.place ++ names, alone.tree.at? (site.place ++ names)) ∧
        among.find follow path = .ok (site.place ++ names, among.tree.at? (site.place ++ names)) := by
  -- Where the path leads depends on one kind only, that of the place before the last name.
  obtain ⟨hreaches, hreaches'⟩ := h.reaches hfirm
  have hlocate : alone.locate? follow path = _ := hpath.locate?_eq howner.isName h.tidy hreaches
  have hlocate' : among.locate? follow path = _ :=
    hpath.locate?_eq howner.isName h.tidy_among hreaches'
  rw [h.kindAt_parent hfirm hpath] at hlocate'
  cases hallowed : World.allowed path with
  | error fault =>
      refine .inl ⟨fault, ?_, ?_⟩
      · simp only [World.find, hallowed]
        rfl
      · simp only [World.find, hallowed]
        rfl
  | ok =>
      -- With a directory there, both find what they have at the place; without one both are
      -- refused.
      by_cases hparent : alone.tree.kindAt (site.place ++ names.dropLast) = some .directory
      · rw [if_pos hparent] at hlocate hlocate'
        exact .inr ⟨rfl, hparent, (h.kindAt_parent hfirm hpath).trans hparent,
          find_eq_ok_iff.mpr ⟨hallowed, hlocate, rfl⟩, find_eq_ok_iff.mpr ⟨hallowed, hlocate', rfl⟩⟩
      · rw [if_neg hparent] at hlocate hlocate'
        refine .inl ⟨refused, ?_, ?_⟩
        · simp only [World.find, hallowed, hlocate]
          rfl
        · simp only [World.find, hallowed, hlocate']
          rfl

theorem Twin.found_eq (h : Twin site stem alone among) (hpath : IsPathTo site.root stem path names) :
    among.found path = alone.found path := by
  rcases h.find_cases hfirm howner true hpath with
    ⟨fault, hfind, hfind'⟩ | ⟨-, -, -, hfind, hfind'⟩
  · rw [found, found, hfind, hfind']
  · rw [found, found, hfind, hfind']
    exact congrArg Except.ok (h.at?_path hpath)

/-! ### Reading -/

theorem Twin.agree_read (h : Twin site stem alone among) (hpath : IsPathTo site.root stem path names) :
    Agree site stem others alone among (.read path) := by
  refine h.agree_question rfl ?_
  simp only [World.reply]
  rw [readFile_eq, readFile_eq, h.found_eq hfirm howner hpath]

theorem Twin.agree_isExecutable (h : Twin site stem alone among)
    (hpath : IsPathTo site.root stem path names) :
    Agree site stem others alone among (.isExecutable path) := by
  refine h.agree_question rfl ?_
  simp only [World.reply]
  rw [isExecutable_eq, isExecutable_eq, h.found_eq hfirm howner hpath]

/-! ### Writing -/

/-- A file is put at an own path in both worlds. -/
theorem Twin.change_file (h : Twin site stem alone among) (hpath : IsPathTo site.root stem path names)
    (hnames : IsOwnPlace stem names) (hallowed : World.allowed path = .ok ()) (contents : Bytes)
    (mode : Nat) (hparent : alone.tree.kindAt (site.place ++ names.dropLast) = some .directory)
    (hparent' : among.tree.kindAt (site.place ++ names.dropLast) = some .directory) :
    ∃ next next',
      alone.change (site.place ++ names) (some (.file contents mode alone.clock)) = .ok next ∧
      among.change (site.place ++ names) (some (.file contents mode among.clock)) = .ok next' ∧
      Twin site stem next next' ∧ Guarantees site (namesOf stem) others among next' := by
  refine h.change hfirm howner hnames (isLeaf_file ..) (isLeaf_file ..) rfl (fun harchive => ⟨rfl, ?_⟩)
    hparent hparent'
  cases hpath with
  | inside hmore => exact absurd (List.cons.inj harchive).1 (ne_archive stem)
  | directory => exact absurd (List.cons.inj harchive).1 (ne_archive stem)
  | archive => exact hallowed

omit hfirm howner in
theorem putFile_of_find {put : Option Tree → Option (Bytes × Nat)} {place : List String}
    {found : Option Tree} (hfound : world.find true path = .ok (place, found)) :
    world.putFile path put = match put found with
      | some (contents, mode) => world.change place (some (.file contents mode world.clock))
      | none => .error refused := by
  rw [putFile, hfound]
  rfl

/-- What is put at an own path is put there in both worlds, or in none. -/
theorem Twin.putFile_cases (h : Twin site stem alone among)
    (hpath : IsPathTo site.root stem path names) (hnames : IsOwnPlace stem names)
    (put put' : Option Tree → Option (Bytes × Nat))
    (hput : ∀ tree tree', tree'.map timeless = tree.map timeless → put' tree' = put tree) :
    (∃ fault, alone.putFile path put = .error fault ∧ among.putFile path put' = .error fault) ∨
      ∃ next next', alone.putFile path put = .ok next ∧ among.putFile path put' = .ok next' ∧
        Twin site stem next next' ∧ Guarantees site (namesOf stem) others among next' := by
  rcases h.find_cases hfirm howner true hpath with
    ⟨fault, hfind, hfind'⟩ | ⟨hallowed, hparent, hparent', hfind, hfind'⟩
  · rw [putFile, putFile, hfind, hfind']
    exact .inl ⟨fault, rfl, rfl⟩
  · have hsame := hput _ _ (h.at?_path hpath)
    rw [putFile_of_find hfind, putFile_of_find hfind', hsame]
    cases put (alone.tree.at? (site.place ++ names)) with
    | none => exact .inl ⟨refused, rfl, rfl⟩
    | some pair =>
        exact .inr (h.change_file hfirm howner hpath hnames hallowed pair.1 pair.2 hparent hparent')

theorem Twin.agree_create (h : Twin site stem alone among) (hpath : IsPathTo site.root stem path names)
    (hnames : IsOwnPlace stem names) : Agree site stem others alone among (.create path) := by
  have hput := h.putFile_cases hfirm howner hpath hnames created created fun tree tree' hsame => by
    rw [← created_timeless, hsame, created_timeless]
  rw [← createFile_eq, ← createFile_eq] at hput
  obtain ⟨hreply, htwin, hguarantees⟩ := h.agree_settle hput
  exact ⟨hreply, htwin, hguarantees⟩

theorem Twin.agree_append (h : Twin site stem alone among) (hpath : IsPathTo site.root stem path names)
    (hnames : IsOwnPlace stem names) (more : Bytes) :
    Agree site stem others alone among (.append path more) := by
  have hput := h.putFile_cases hfirm howner hpath hnames (appended more) (appended more)
    fun tree tree' hsame => by rw [← appended_timeless, hsame, appended_timeless]
  rw [← appendFile_eq, ← appendFile_eq] at hput
  obtain ⟨hreply, htwin, hguarantees⟩ := h.agree_settle hput
  exact ⟨hreply, htwin, hguarantees⟩

theorem Twin.agree_copy (h : Twin site stem alone among) (hpath : IsPathTo site.root stem path names)
    (hnames : IsOwnPlace stem names) {source : String}
    (hsource : among.found source = alone.found source) :
    Agree site stem others alone among (.copy source path) := by
  -- Both are refused with one fault, or both put the same file, but for times.
  suffices hput : (∃ fault, alone.copyFile source path = .error fault ∧
      among.copyFile source path = .error fault) ∨
      ∃ next next', alone.copyFile source path = .ok next ∧ among.copyFile source path = .ok next' ∧
        Twin site stem next next' ∧ Guarantees site (namesOf stem) others among next' by
    obtain ⟨hreply, htwin, hguarantees⟩ := h.agree_settle hput
    exact ⟨hreply, htwin, hguarantees⟩
  rw [copyFile_eq, copyFile_eq]
  rw [found, found] at hsource
  -- The source is found in both or in neither, and with the same contents.
  cases hfind : alone.find true source with
  | error fault =>
      cases hfind' : among.find true source with
      | error fault' =>
          rw [hfind, hfind'] at hsource
          obtain rfl := Except.error.inj hsource
          exact .inl ⟨_, rfl, rfl⟩
      | ok pair' =>
          rw [hfind, hfind'] at hsource
          cases hsource
  | ok pair =>
      cases hfind' : among.find true source with
      | error fault' =>
          rw [hfind, hfind'] at hsource
          cases hsource
      | ok pair' =>
          rw [hfind, hfind'] at hsource
          have hsource : pair'.2.map timeless = pair.2.map timeless := Except.ok.inj hsource
          exact h.putFile_cases hfirm howner hpath hnames (copied pair.2) (copied pair'.2)
            fun tree tree' hsame => by
              rw [← copied_timeless, hsource, hsame, copied_timeless]

/-! ### Directories -/

omit hfirm howner in
/-- How a directory is made in the workspace. -/
theorem IsPathTo.makeAt_eq (h : IsPathTo site.root stem path (stem :: names))
    (hstem : Files.isName stem) (htidy : Tidy site stem world.tree)
    (hreaches : world.Reaches site.root site.place) {start : List String} {left : Nat}
    (hleads : Leads world.tree linkLimit start (below site.root) left site.place) :
    world.makeAt start (below site.root ++ stem :: names) =
      if world.tree.kindAt (site.place ++ (stem :: names).dropLast) = some .directory then
        match world.tree.at? (site.place ++ stem :: names) with
        | none => world.change (site.place ++ stem :: names) (some (.directory [] world.clock))
        | some inner => if inner.isDirectory then .ok world else .error refused
      else .error refused := by
  rw [makeAt, h.walk_eq hstem htidy hreaches.directory hleads]
  by_cases hparent : world.tree.kindAt (site.place ++ (stem :: names).dropLast) = some .directory
  · simp only [if_pos hparent, leadsToDirectory, h.walk_eq hstem htidy hreaches.directory hleads]
    cases hat : world.tree.at? (site.place ++ stem :: names) with
    | none => rfl
    | some inner => rfl
  · simp only [if_neg hparent]

/-- A directory is made in the workspace in both worlds, or in none. -/
theorem Twin.makeAt_cases (h : Twin site stem alone among) {start : List String} {left left' : Nat}
    (hleads : Leads alone.tree linkLimit start (below site.root) left site.place)
    (hleads' : Leads among.tree linkLimit start (below site.root) left' site.place)
    (hnames : ∀ name ∈ names, isName name) :
    (∃ fault, alone.makeAt start (below site.root ++ stem :: names) = .error fault ∧
        among.makeAt start (below site.root ++ stem :: names) = .error fault) ∨
      ∃ next next', alone.makeAt start (below site.root ++ stem :: names) = .ok next ∧
        among.makeAt start (below site.root ++ stem :: names) = .ok next' ∧
        Twin site stem next next' ∧ Guarantees site (namesOf stem) others among next' := by
  obtain ⟨hreaches, hreaches'⟩ := h.reaches hfirm
  obtain ⟨path, hpath⟩ := IsPathTo.exists_of_names site.root stem hnames
  have hkind := h.kindAt_parent hfirm hpath
  have hat := h.at?_path hpath
  -- What is made depends on what is at the place and before it, and both are alike there.
  rw [hpath.makeAt_eq howner.isName h.tidy hreaches hleads,
    hpath.makeAt_eq howner.isName h.tidy_among hreaches' hleads', hkind]
  by_cases hparent : alone.tree.kindAt (site.place ++ (stem :: names).dropLast) = some .directory
  · rw [if_pos hparent, if_pos hparent]
    cases hfound : alone.tree.at? (site.place ++ stem :: names) with
    -- Nothing is there, so a directory is made in both; it is below that of the workspace.
    | none =>
        rw [hfound] at hat
        rw [Option.map_eq_none_iff.mp hat]
        have hne : names ≠ [] := by
          rintro rfl
          have hdirectory := h.tidy.directory
          rw [kindAt, hfound] at hdirectory
          cases hdirectory
        exact .inr (h.change hfirm howner (.inl ⟨names, ⟨hne, hnames⟩, rfl⟩) (isLeaf_directory _)
          (isLeaf_directory _) rfl
          (fun harchive => absurd (List.cons.inj harchive).1 (ne_archive stem)) hparent
          (hkind.trans hparent))
    -- What is there is a directory in both, which is left, or in neither, and both are refused.
    | some inner =>
        rw [hfound] at hat
        obtain ⟨inner', hfound', htimeless⟩ := Option.map_eq_some_iff.mp hat
        rw [hfound']
        have hdirectory : inner'.isDirectory = inner.isDirectory := by
          rw [← isDirectory_timeless, htimeless, isDirectory_timeless]
        simp only [hdirectory]
        cases inner.isDirectory with
        | true => exact .inr ⟨alone, among, rfl, rfl, h, .of_same (.inr h.variesAmong) rfl rfl rfl⟩
        | false => exact .inl ⟨refused, rfl, rfl⟩
  · rw [if_neg hparent, if_neg hparent]
    exact .inl ⟨refused, rfl, rfl⟩

/-- Directories are made along names in the workspace, in both worlds as far as in the other. -/
theorem Twin.makeAlong_eq (h : Twin site stem alone among) {made : List String}
    (hmade : ∀ name ∈ made, isName name) (hnames : ∀ name ∈ names, isName name) :
    (among.makeAlong (among.startOf site.root) (below site.root ++ stem :: made) names).1 =
        (alone.makeAlong (alone.startOf site.root) (below site.root ++ stem :: made) names).1 ∧
      Twin site stem
        (alone.makeAlong (alone.startOf site.root) (below site.root ++ stem :: made) names).2
        (among.makeAlong (among.startOf site.root) (below site.root ++ stem :: made) names).2 ∧
      Guarantees site (namesOf stem) others among
        (among.makeAlong (among.startOf site.root) (below site.root ++ stem :: made) names).2 := by
  have hrefused : Guarantees site (namesOf stem) others among among :=
    .of_same (.inr h.variesAmong) rfl rfl rfl
  -- One name after the other, each of which is made in both or refused in both.
  induction names generalizing alone among made with
  | nil => exact ⟨rfl, h, hrefused⟩
  | cons name names ih =>
      obtain ⟨hname, hrest⟩ := List.forall_mem_cons.mp hnames
      have hnext : ∀ other ∈ made ++ [name], isName other :=
        List.forall_mem_append.mpr ⟨hmade, List.forall_mem_singleton.mpr hname⟩
      obtain ⟨⟨left, hleads⟩, ⟨left', hleads'⟩⟩ :=
        And.intro (h.reaches hfirm).1.leads (h.reaches hfirm).2.leads
      have hstart : among.startOf site.root = alone.startOf site.root := by
        rw [startOf, startOf, h.here_among, h.here]
      rw [hstart] at hleads' ⊢
      rw [makeAlong, makeAlong, List.append_assoc, List.cons_append]
      split
      · exact ⟨rfl, h, hrefused⟩
      · rcases h.makeAt_cases hfirm howner hleads hleads' hnext with
          ⟨fault, hmake, hmake'⟩ | ⟨next, next', hmake, hmake', htwin, hguarantees⟩
        · rw [hmake, hmake']
          exact ⟨rfl, h, hrefused⟩
        · rw [hmake, hmake']
          -- The start is where it was, as nobody moves.
          have hhere : next.startOf site.root = alone.startOf site.root := by
            rw [startOf, startOf, htwin.here, h.here]
          have hhere' : next'.startOf site.root = alone.startOf site.root := by
            rw [startOf, startOf, htwin.here_among, h.here]
          obtain ⟨hreply, hafter, hlast⟩ :=
            ih htwin hnext hrest (.of_same (.inr htwin.variesAmong) rfl rfl rfl)
          rw [hhere, hhere'] at hreply hafter
          rw [hhere'] at hlast
          exact ⟨hreply, hafter, hguarantees.trans hlast⟩

omit hfirm howner in
/-- Making directories in the workspace begins behind what is there. -/
theorem reply_makeDirectory (hstem : Files.isName stem) (hnames : AreNames names)
    (hshort : ∀ name ∈ below site.root ++ [stem], isShort name)
    (htidy : Tidy site stem world.tree) (hreaches : world.Reaches site.root site.place) :
    world.reply (.makeDirectory (join (join site.root stem) (relative names))) =
      match lookable (join (join site.root stem) (relative names)) with
      | .ok () => world.makeAlong (world.startOf site.root) (below site.root ++ [stem]) names
      | .error fault => (.error fault, world) := by
  have hpath : IsPathTo site.root stem _ _ := .inside hnames
  have hpieces : pieces (join (join site.root stem) (relative names)) =
      below site.root ++ [stem] ++ names := by
    rw [hpath.pieces_eq hstem, List.append_cons]
  -- The way to the workspace is there already, so making starts below it.
  have hskip : world.makeAlong (world.startOf site.root) [] (below site.root ++ [stem] ++ names) =
      world.makeAlong (world.startOf site.root) (below site.root ++ [stem]) names := by
    obtain ⟨left, hleads⟩ := hreaches.leads
    exact makeAlong_skip (hleads.append (.enter (notMem_of_isName hstem) htidy.directory
      (.done _ _))) htidy.directory hshort names
  -- A path with names in it is not empty.
  have hempty : join (join site.root stem) (relative names) ≠ "" := by
    intro hempty
    have hlength := congrArg List.length hpieces
    have hpositive := List.length_pos_iff.mpr hnames.ne_nil
    rw [hempty, List.length_append, List.length_append] at hlength
    have hone : (pieces "").length = 1 := rfl
    rw [hone, List.length_singleton] at hlength
    omega
  have hstart : world.startOf (join (join site.root stem) (relative names)) =
      world.startOf site.root := hpath.startOf_eq hstem
  have hmake : world.makeDirectory (join (join site.root stem) (relative names)) = _ :=
    makeDirectory_eq hempty
  rw [hstart, hpieces, hskip] at hmake
  exact hmake

theorem Twin.agree_makeDirectory (h : Twin site stem alone among) (hnames : AreNames names) :
    Agree site stem others alone among
      (.makeDirectory (join (join site.root stem) (relative names))) := by
  have hshort : ∀ name ∈ below site.root ++ [stem], isShort name := by
    rw [← pieces_join_name howner.isName]
    exact isShort_of_allowed h.allowed
  have hmake {world : World} (htidy : Tidy site stem world.tree)
      (hreaches : world.Reaches site.root site.place) :=
    reply_makeDirectory howner.isName hnames hshort htidy hreaches
  obtain ⟨hreaches, hreaches'⟩ := h.reaches hfirm
  obtain ⟨hreply, htwin, hguarantees⟩ :=
    h.makeAlong_eq hfirm howner (List.forall_mem_nil _) hnames.names
  -- The path is refused in both, or made along in both.
  cases hlook : lookable (join (join site.root stem) (relative names)) with
  | error fault =>
      simp only [hlook] at hmake
      refine ⟨?_, ?_, ?_⟩ <;> simp only [hmake h.tidy hreaches, hmake h.tidy_among hreaches']
      · exact h
      · exact .of_same (.inr h.variesAmong) rfl rfl rfl
  | ok =>
      simp only [hlook] at hmake
      refine ⟨?_, ?_, ?_⟩ <;> simp only [hmake h.tidy hreaches, hmake h.tidy_among hreaches']
      · exact hreply
      · exact htwin
      · exact hguarantees

end Owner

end Replies

end Wireframe.Export
