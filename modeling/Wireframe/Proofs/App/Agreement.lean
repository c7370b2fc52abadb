/-
The files of an app agree.

The file that an app starts with names the files of the screens, their routes and their classes, all
of which are derived from the names of the screens anew in every place.  That the places agree shows
when the finished files are read again.  A path that leads into the directory is never refused by the
library: writing files with such paths ends with all of them written or with a refusal of the system,
in its own words.

* `ends_writeSource`, `ends_writeSources` — how writing ends;
* `FitTogether` — the files of an app, as a reader finds them;
* `fitTogether_of_generate` — all files of an app fit together.
-/
import Wireframe.Export.Project
import Wireframe.Proofs.App.EntryContents
import Wireframe.Proofs.Files.Ending

namespace Wireframe.Export

open Files

variable {directory : String} {faults : List Fault}

theorem ends_writeSource {file : App.SourceFile} (hpath : isPlainRelative file.path = true)
    {result : Except Failure Unit} (h : Ends (writeSource directory file).run faults result) :
    result = .ok () ∨
      ∃ fault ∈ faults, ∃ path, result = .error (.packaging path fault.reason) := by
  unfold writeSource at h
  simp only [hpath, Bool.not_true, Bool.false_eq_true, if_false] at h
  rcases h.of_job_bind with ⟨made, before, after, hmake, hwrite, rfl⟩ | ⟨failure, hmake, rfl⟩
  · rcases hwrite.of_attempt (passesOn_writeFile _ _) with ⟨written, rfl⟩ | ⟨fault, hfault, rfl⟩
    · exact .inl rfl
    · exact .inr ⟨fault, List.mem_append_right before hfault, _, rfl⟩
  · rcases hmake.of_attempt (passesOn_makeDirectory _) with ⟨made, hmade⟩ | ⟨fault, hfault, heq⟩
    · cases hmade
    · exact .inr ⟨fault, hfault, _, heq⟩

theorem ends_writeSources {files : List App.SourceFile}
    (hpaths : ∀ file ∈ files, isPlainRelative file.path = true) {result : Except Failure Nat}
    (h : Ends (writeSources directory files).run faults result) :
    result = .ok files.length ∨
      ∃ fault ∈ faults, ∃ path, result = .error (.packaging path fault.reason) := by
  induction files generalizing faults result with
  | nil =>
    exact .inl (ends_done_iff.mp h).2
  | cons file rest ih =>
    obtain ⟨hfile, hrest⟩ := List.forall_mem_cons.mp hpaths
    rcases h.of_job_bind with ⟨done, before, after, hwrite, hothers, rfl⟩ | ⟨failure, hwrite, rfl⟩
    -- the file is written, and the others are written or not
    · rcases hothers.of_job_bind with ⟨count, between, last, hcount, hend, rfl⟩ |
        ⟨failure, hfailed, rfl⟩
      · obtain ⟨-, rfl⟩ := ends_done_iff.mp hend
        rcases ih hrest hcount with hcount | ⟨fault, -, path, hfailed⟩
        · rw [Except.ok.inj hcount]
          exact .inl rfl
        · cases hfailed
      · rcases ih hrest hfailed with hcount | ⟨fault, hfault, path, heq⟩
        · cases hcount
        · refine .inr ⟨fault, List.mem_append_right before hfault, path, ?_⟩
          rw [Except.error.inj heq]
    -- the file is not written, and the others are not tried
    · rcases ends_writeSource hfile hwrite with hdone | ⟨fault, hfault, path, heq⟩
      · cases hdone
      · exact .inr ⟨fault, hfault, path, by rw [Except.error.inj heq]⟩

end Wireframe.Export

namespace Wireframe.App

open Design Files

/-- The files of an app fit together: what the first file says of the screens is what their own files
say, and they can be written side by side. -/
structure FitTogether (project : Project) (sources : Sources) : Prop where
  /-- There is a file for each screen, and the first one. -/
  files : sources.files = sources.entry.file :: sources.units.map ScreenUnit.file
  count : sources.files.length = project.screens.length + 1
  first : sources.entry.file.path = "lib/main.dart"
  units : sources.units.map (·.names) = project.screens.map (Names.ofName ·.name)
  paths : (sources.files.map (·.path)).Nodup
  /-- The paths differ even where the case of letters does not count. -/
  loweredPaths : (sources.files.map (·.path.toList.map Char.toLower)).Nodup
  plainPaths : ∀ file ∈ sources.files, IsPlainPath file.path
  /-- No path is refused but by the system. -/
  written : ∀ directory faults result,
    Ends (Export.writeSources directory sources.files).run faults result →
    result = .ok (project.screens.length + 1) ∨
      ∃ fault ∈ faults, ∃ path, result = .error (.packaging path fault.reason)
  imports : ∃ imports,
    importsIn sources.entry.file.contents = "package:flutter/material.dart" :: imports ∧
      imports.map ("lib/" ++ ·) = sources.units.map (·.path)
  routes : routesIn sources.entry.file.contents =
    some (sources.units.map fun unit => (unit.names.routePath, unit.names.className))
  keys : (sources.units.map (·.names.routePath)).Nodup
  initial : ∃ first rest, sources.units = first :: rest ∧
    initialIn sources.entry.file.contents = [first.names.routePath]
  declared : ∀ unit ∈ sources.units,
    declaredIn unit.file.contents = unit.classes.map (·.name)
  classes : ∀ unit ∈ sources.units, (declaredIn unit.file.contents).Nodup
  screenClass : ∀ unit ∈ sources.units,
    (declaredIn unit.file.contents).count unit.names.className = 1

section Agreement

variable {project : Project} {sources : Sources}

/-! ### Names -/

theorem names_units (project : Project) :
    (sourcesOf project).units.map (·.names) = project.screens.map (Names.ofName ·.name) := by
  simp only [sourcesOf, List.map_map]
  rfl

theorem imports_entry (project : Project) :
    (sourcesOf project).entry.imports = project.screens.map (fileName ·.name) := by
  simp only [sourcesOf, Entry.ofRoutes, Routes.ofProject, List.map_map]
  rfl

theorem routes_entry (project : Project) : (sourcesOf project).entry.routes =
    (sourcesOf project).units.map fun unit => (unit.names.routePath, unit.names.className) := by
  simp only [sourcesOf, Entry.ofRoutes, Routes.ofProject, List.map_map]
  rfl

theorem initial_entry {screen : Screen} {rest : List Screen}
    (h : project.screens = screen :: rest) : (sourcesOf project).entry.initial = routePath screen.name := by
  simp only [sourcesOf, Entry.ofRoutes, Routes.home?, Routes.ofProject, h, List.map_cons,
    List.head?_cons]
  rfl

theorem nodup_keys (h : HasDistinctScreens project) :
    ((sourcesOf project).units.map (·.names.routePath)).Nodup := by
  have hkeys : (sourcesOf project).units.map (·.names.routePath) =
      project.screens.map (routePath ·.name) := by
    simp only [sourcesOf, List.map_map]
    rfl
  rw [hkeys]
  exact h.nodup_map routePath fun _ _ hab => className_eq_of_routeId_eq (routePath_injective hab)

theorem namesClosed_entry (project : Project) : (sourcesOf project).entry.NamesClosed :=
  namesClosed_ofRoutes project

/-! ### Files -/

/-- The first file imports the files of the screens. -/
theorem importsIn_sourcesOf (project : Project) : ∃ imports,
    importsIn (sourcesOf project).entry.file.contents =
        "package:flutter/material.dart" :: imports ∧
      imports.map ("lib/" ++ ·) = (sourcesOf project).units.map (·.path) := by
  have hfiles : ∀ file ∈ (sourcesOf project).entry.imports, isPathText file := by
    rw [imports_entry, List.forall_mem_map]
    exact fun screen _ => isPathText_fileName screen.name
  refine ⟨_, importsIn_entry (namesClosed_entry project) hfiles, ?_⟩
  rw [imports_entry]
  simp only [sourcesOf, List.map_map]
  refine List.map_congr_left ?_
  intro screen _
  -- an import is relative to the directory of the first file
  have hroot : "lib/" ++ "screens/" = sourceRoot ++ "/screens/" := by decide
  show "lib/" ++ ("screens/" ++ fileName screen.name) = unitPath screen.name
  rw [unitPath, ← hroot, String.append_assoc]

theorem routesIn_sourcesOf (project : Project) : routesIn (sourcesOf project).entry.file.contents =
    some ((sourcesOf project).units.map
      fun unit => (unit.names.routePath, unit.names.className)) := by
  rw [← routes_entry]
  refine routesIn_entry (namesClosed_entry project) ?_
  intro route hroute
  rw [routes_entry] at hroute
  obtain ⟨unit, hunit, rfl⟩ := List.mem_map.mp hroute
  obtain ⟨screen, -, rfl⟩ := List.mem_map.mp hunit
  exact isPathText_routePath screen.name

theorem initialIn_sourcesOf (h : project.screens ≠ []) : ∃ first rest,
    (sourcesOf project).units = first :: rest ∧
      initialIn (sourcesOf project).entry.file.contents = [first.names.routePath] := by
  cases hscreens : project.screens with
  | nil => exact absurd hscreens h
  | cons screen rest =>
    have hinitial := initial_entry hscreens
    have hpath : isPathText (sourcesOf project).entry.initial := by
      rw [hinitial]
      exact isPathText_routePath screen.name
    refine ⟨screenUnit project.profile (Routes.ofProject project) screen,
      rest.map (screenUnit project.profile (Routes.ofProject project)), ?_, ?_⟩
    · rw [sourcesOf, hscreens]
      rfl
    · rw [initialIn_entry (namesClosed_entry project) hpath, hinitial]
      rfl

/-- A screen declares its own class once. -/
theorem count_className (profile : Profile) (routes : Routes) (screen : Screen) :
    (declaredIn (screenUnit profile routes screen).file.contents).count
      (className screen.name) = 1 := by
  rw [declaredIn_unit]
  refine List.count_eq_one_of_mem (nodup_unit_classNames profile routes screen) ?_
  rw [map_name_unit_classes]
  exact List.mem_append_right _ List.mem_cons_self

/-- The files of an app fit together. -/
theorem fitTogether_of_generate (h : generate project = .ok sources) :
    FitTogether project sources := by
  have hdistinct := generates_iff.mp ⟨sources, h⟩
  obtain rfl := eq_sourcesOf_of_generate h
  have hplain : ∀ file ∈ (sourcesOf project).files, IsPlainPath file.path :=
    fun _ => isPlainPath_of_mem_files
  have hlength : (sourcesOf project).files.length = project.screens.length + 1 := by
    simp [Sources.files, sourcesOf]
  -- All fields speak of the finished texts, so each is a fact about what is read back from a file.
  exact {
    files := rfl
    count := hlength
    first := rfl
    units := names_units project
    paths := nodup_paths hdistinct
    loweredPaths := nodup_lowered_paths hdistinct
    plainPaths := hplain
    written := by
      -- No path of the app is refused, so a run that ends without faults has written every file.
      intro directory faults result hends
      rw [← hlength]
      exact Export.ends_writeSources
        (fun file hfile => isPlainRelative_of_isPlainPath (hplain file hfile)) hends
    imports := importsIn_sourcesOf project
    routes := routesIn_sourcesOf project
    keys := nodup_keys hdistinct
    initial := initialIn_sourcesOf hdistinct.hasScreen
    declared := by
      intro unit hunit
      obtain ⟨screen, -, rfl⟩ := List.mem_map.mp hunit
      exact declaredIn_unit _ _ screen
    classes := by
      intro unit hunit
      obtain ⟨screen, -, rfl⟩ := List.mem_map.mp hunit
      rw [declaredIn_unit]
      exact nodup_unit_classNames _ _ screen
    screenClass := by
      intro unit hunit
      obtain ⟨screen, -, rfl⟩ := List.mem_map.mp hunit
      exact count_className _ _ screen }

/-- A design of two screens, one of which needs helpers. -/
def visitorGuide : Project where
  screens := [
    { id := "start", name := "Página 2-b"
      elements := [
        { id := "1", rect := ⟨0.1, 0.1, 0.5, 0.1⟩, widget := .checkbox { text := "class 'A" } },
        { id := "2", rect := ⟨0.1, 0.3, 0.5, 0.2⟩, widget := .ellipse {} }] },
    { id := "end", name := "2nd home" }]

theorem fitTogether_of_generate_visitorGuide :
    generate visitorGuide = .ok (sourcesOf visitorGuide) ∧
      FitTogether visitorGuide (sourcesOf visitorGuide) := by
  have hdistinct : HasDistinctScreens visitorGuide :=
    ⟨List.cons_ne_nil _ _, by decide +kernel, by decide +kernel⟩
  have hgenerate := generate_of_distinct hdistinct
  exact ⟨hgenerate, fitTogether_of_generate hgenerate⟩

end Agreement

end Wireframe.App
