/-
Designs that are edited.

What an edit does is said once for each way of changing a list of screens; what one edit preserves is
then preserved by any run of edits, those that are about nothing that is there included.

* `Project.All`, `Edit.Keeps`, `all_afterEdits` — what holds of all elements, and goes on to hold;
* `ofText_document_afterEdits` — an edited design is read back from its document;
* `Edit.screen?`, `Project.SameBeside` — edits of the elements of one screen, and designs that differ
  in the elements of some screens alone;
* `generate_afterEdits` — such edits leave the code of every other screen as it is;
* `swapScreens?_swapScreens?`, `removeScreen?_addScreen` — edits that are taken back.
-/
import Wireframe.Design.Editing
import Wireframe.Proofs.App.Generation
import Wireframe.Proofs.Design.Document

namespace Wireframe.Design

/-! ### One edit -/

section Lists

variable {α : Type} {index : Nat} {items after : List α}

theorem changeAt?_eq_some {change : α → Option α} (h : changeAt? change index items = some after) :
    ∃ item changed, items[index]? = some item ∧ change item = some changed ∧
      after = items.set index changed := by
  obtain ⟨item, hitem, h⟩ := Option.bind_eq_some_iff.mp h
  obtain ⟨changed, hchanged, h⟩ := Option.bind_eq_some_iff.mp h
  exact ⟨item, changed, hitem, hchanged, (Option.some.inj h).symm⟩

theorem removeAt?_eq_some (h : removeAt? index items = some after) :
    after = items.eraseIdx index := by
  obtain ⟨-, h⟩ := Option.ite_none_right_eq_some.mp h
  exact (Option.some.inj h).symm

end Lists

namespace Project

/-- A design with another screen in the place of one that it has. -/
def setScreen (p : Project) (index : Nat) (screen : Screen) : Project :=
  { p with screens := p.screens.set index screen }

variable {p q : Project}

theorem withScreens?_eq_some {change : List Screen → Option (List Screen)}
    (h : p.withScreens? change = some q) :
    ∃ screens, change p.screens = some screens ∧ q = { p with screens } := by
  obtain ⟨screens, hscreens, h⟩ := Option.map_eq_some_iff.mp h
  exact ⟨screens, hscreens, h.symm⟩

theorem removeScreen?_eq_some {index : Nat} (h : p.removeScreen? index = some q) :
    q = { p with screens := p.screens.eraseIdx index } := by
  obtain ⟨screens, hscreens, rfl⟩ := withScreens?_eq_some h
  rw [removeAt?_eq_some hscreens]

theorem swapScreens?_eq_some_iff {first second : Nat} :
    p.swapScreens? first second = some q ↔ ∃ a b, p.screens[first]? = some a ∧
      p.screens[second]? = some b ∧
      q = (p.setScreen first b).setScreen second a := by
  simp only [swapScreens?, withScreens?, Option.map_eq_some_iff, Option.bind_eq_bind,
    Option.bind_eq_some_iff, Option.pure_def, Option.some.injEq]
  constructor
  · rintro ⟨_, ⟨a, ha, b, hb, rfl⟩, rfl⟩
    exact ⟨a, b, ha, hb, rfl⟩
  · rintro ⟨a, b, ha, hb, rfl⟩
    exact ⟨_, ⟨a, ha, b, hb, rfl⟩, rfl⟩

theorem changeScreen?_eq_some {index : Nat} {change : Screen → Option Screen}
    (h : p.changeScreen? index change = some q) :
    ∃ screen changed, p.screens[index]? = some screen ∧ change screen = some changed ∧
      q = p.setScreen index changed := by
  obtain ⟨screens, hscreens, rfl⟩ := withScreens?_eq_some h
  obtain ⟨screen, changed, hscreen, hchanged, rfl⟩ := changeAt?_eq_some hscreens
  exact ⟨screen, changed, hscreen, hchanged, rfl⟩

theorem removeElement?_eq_some {index element : Nat} (h : p.removeElement? index element = some q) :
    ∃ screen, p.screens[index]? = some screen ∧
      q = p.setScreen index
        { screen with elements := screen.elements.eraseIdx element } := by
  obtain ⟨screen, changed, hscreen, hchanged, rfl⟩ := changeScreen?_eq_some h
  obtain ⟨elements, helements, rfl⟩ := Option.map_eq_some_iff.mp hchanged
  rw [removeAt?_eq_some helements]
  exact ⟨screen, hscreen, rfl⟩

theorem changeElement?_eq_some {index place : Nat} {change : Element → Option Element}
    (h : p.changeElement? index place change = some q) :
    ∃ screen element changed, p.screens[index]? = some screen ∧
      screen.elements[place]? = some element ∧ change element = some changed ∧
      q = p.setScreen index
        { screen with elements := screen.elements.set place changed } := by
  obtain ⟨screen, _, hscreen, hchanged, rfl⟩ := changeScreen?_eq_some h
  obtain ⟨elements, helements, rfl⟩ := Option.map_eq_some_iff.mp hchanged
  obtain ⟨element, changed, helement, hchange, rfl⟩ := changeAt?_eq_some helements
  exact ⟨screen, element, changed, hscreen, helement, hchange, rfl⟩

/-- What an edit leads to, or the design as it was. -/
theorem afterEdit_cases (p : Project) (edit : Edit) :
    p.edit? edit = some (p.afterEdit edit) ∨ p.edit? edit = none ∧ p.afterEdit edit = p := by
  unfold afterEdit
  cases p.edit? edit with
  | none => exact .inr ⟨rfl, rfl⟩
  | some q => exact .inl rfl

/-! ### What holds of all elements -/

/-- All elements of a design have a property. -/
def All (P : Element → Prop) (p : Project) : Prop := ∀ s ∈ p.screens, ∀ e ∈ s.elements, P e

end Project

/-- What an edit brings into a design has a property, and so has what it changes if it had it. -/
def Edit.Keeps (P : Element → Prop) : Edit → Prop
  | .addScreen screen => ∀ e ∈ screen.elements, P e
  | .addElement _ element => P element
  | .moveElement _ _ rect => ∀ e, P e → P { e with rect }
  | .liftElement _ _ zIndex => ∀ e, P e → P { e with zIndex }
  | .setProperty _ _ property =>
      ∀ e widget, P e → e.widget.set? property = some widget → P { e with widget }
  | _ => True

section All

variable {P : Element → Prop} {p q : Project}

theorem Project.All.setScreen {index : Nat} {screen : Screen} (hp : p.All P)
    (hscreen : ∀ e ∈ screen.elements, P e) : (p.setScreen index screen).All P := by
  intro s hs
  rcases List.mem_or_eq_of_mem_set hs with hs | rfl
  · exact hp s hs
  · exact hscreen

theorem Project.All.of_getElem? {index : Nat} {screen : Screen} (hp : p.All P)
    (h : p.screens[index]? = some screen) : ∀ e ∈ screen.elements, P e :=
  hp screen (List.mem_of_getElem? h)

theorem all_changeElement? {index place : Nat} {change : Element → Option Element} (hp : p.All P)
    (hchange : ∀ e changed, P e → change e = some changed → P changed)
    (h : p.changeElement? index place change = some q) : q.All P := by
  obtain ⟨screen, element, changed, hscreen, helement, hchanged, rfl⟩ :=
    Project.changeElement?_eq_some h
  have hall := hp.of_getElem? hscreen
  refine hp.setScreen fun e he => ?_
  rcases List.mem_or_eq_of_mem_set he with he | rfl
  · exact hall e he
  · exact hchange element _ (hall element (List.mem_of_getElem? helement)) hchanged

/-- What holds of all elements before an edit holds of all of them after it. -/
theorem all_edit? {edit : Edit} (hp : p.All P) (hedit : edit.Keeps P) (h : p.edit? edit = some q) :
    q.All P := by
  -- A screen that is put in place of another has elements of the design, or of the edit, and the
  -- three edits of one element differ in what they change only.
  cases edit with
  | nameProject name =>
    cases h
    exact hp
  | chooseProfile profile =>
    cases h
    exact hp
  | addScreen screen =>
    cases h
    exact List.forall_mem_append.mpr ⟨hp, List.forall_mem_singleton.mpr hedit⟩
  | removeScreen index =>
    rw [Project.removeScreen?_eq_some h]
    exact fun s hs => hp s (List.mem_of_mem_eraseIdx hs)
  | swapScreens first second =>
    obtain ⟨a, b, ha, hb, rfl⟩ := Project.swapScreens?_eq_some_iff.mp h
    exact (hp.setScreen (hp.of_getElem? hb)).setScreen (hp.of_getElem? ha)
  | renameScreen index name =>
    obtain ⟨screen, _, hscreen, ⟨⟩, rfl⟩ := Project.changeScreen?_eq_some h
    have helements := hp.of_getElem? hscreen
    exact hp.setScreen helements
  | addElement index element =>
    obtain ⟨screen, _, hscreen, ⟨⟩, rfl⟩ := Project.changeScreen?_eq_some h
    exact hp.setScreen (List.forall_mem_append.mpr
      ⟨hp.of_getElem? hscreen, List.forall_mem_singleton.mpr hedit⟩)
  | removeElement index element =>
    obtain ⟨screen, hscreen, rfl⟩ := Project.removeElement?_eq_some h
    have helements := hp.of_getElem? hscreen
    exact hp.setScreen fun e he => helements e (List.mem_of_mem_eraseIdx he)
  | moveElement index place rect =>
    refine all_changeElement? hp ?_ h
    rintro e _ he ⟨⟩
    exact hedit e he
  | liftElement index place zIndex =>
    refine all_changeElement? hp ?_ h
    rintro e _ he ⟨⟩
    exact hedit e he
  | setProperty index place property =>
    refine all_changeElement? hp ?_ h
    intro e _ he hchanged
    obtain ⟨widget, hwidget, rfl⟩ := Option.map_eq_some_iff.mp hchanged
    exact hedit e widget he hwidget

/-- What holds of all elements holds of them after any run of edits that keep it. -/
theorem all_afterEdits {edits : List Edit} (hp : p.All P) (hedits : ∀ edit ∈ edits, edit.Keeps P) :
    (p.afterEdits edits).All P := by
  induction edits generalizing p with
  | nil => exact hp
  | cons edit rest ih =>
    obtain ⟨hedit, hrest⟩ := List.forall_mem_cons.mp hedits
    refine ih (p := p.afterEdit edit) ?_ hrest
    rcases Project.afterEdit_cases p edit with h | ⟨-, h⟩
    · exact all_edit? hp hedit h
    · exact h.symm ▸ hp

end All

/-! ### Documents -/

/-- The floats of a property. -/
def Property.floats : Property → List Float
  | .fontSize v | .borderRadius v | .borderWidth v => [v]
  | .colWidths v => v
  | .headers _ | .options _ => []

/-- All floats are finite, and there is something to choose from. -/
structure Property.IsStored (property : Property) : Prop where
  finite : ∀ x ∈ property.floats, x.isFinite = true
  choices : property ≠ .options []

/-- What an edit brings into a design is such as reading leaves behind. -/
def Edit.IsStored : Edit → Prop
  | .addScreen screen => screen.IsStored
  | .addElement _ element => element.IsStored
  | .moveElement _ _ rect => ∀ x ∈ rect.floats, x.isFinite = true
  | .setProperty _ _ property => property.IsStored
  | _ => True

/-- The floats of a widget with a property set are those that it had and those of the property. -/
theorem mem_floats_of_set? {w w' : Widget} {property : Property} (h : w.set? property = some w')
    {x : Float} (hx : x ∈ w'.floats) : x ∈ w.floats ∨ x ∈ property.floats := by
  unfold Widget.set? at h
  split at h <;> cases h <;> simp only [Widget.floats, Property.floats] at hx ⊢ <;> grind

theorem isStored_set? {w w' : Widget} {property : Property} (hw : w.IsStored)
    (hproperty : property.IsStored) (h : w.set? property = some w') : w'.IsStored := by
  unfold Widget.set? at h
  split at h <;> cases h
  -- what a selector has to choose from is the one property that reading mends
  case h_11 options => exact fun hnil => hproperty.choices (congrArg Property.options hnil)
  all_goals trivial

theorem Edit.IsStored.keeps {edit : Edit} (h : edit.IsStored) : edit.Keeps Element.IsStored := by
  cases edit with
  | moveElement index place rect =>
    intro e he
    exact ⟨List.forall_mem_append.mpr ⟨h, (List.forall_mem_append.mp he.finite).2⟩, he.widget⟩
  | liftElement index place zIndex => exact fun e he => ⟨he.finite, he.widget⟩
  | setProperty index place property =>
    intro e widget he hwidget
    obtain ⟨hrect, hbefore⟩ := List.forall_mem_append.mp he.finite
    refine ⟨List.forall_mem_append.mpr ⟨hrect, fun x hx => ?_⟩, isStored_set? he.widget h hwidget⟩
    exact (mem_floats_of_set? hwidget hx).elim (hbefore x) (h.finite x)
  | addScreen screen => exact h
  | addElement index element => exact h
  | _ => trivial

/-- A design that was stored stays one that can be stored, however it is edited. -/
theorem isStored_afterEdits {p : Project} {edits : List Edit} (hp : p.IsStored)
    (hedits : ∀ edit ∈ edits, edit.IsStored) : (p.afterEdits edits).IsStored :=
  all_afterEdits hp fun edit hedit => (hedits edit hedit).keeps

/-- A design that has been edited is read back from its document with the columns of its tables scaled
once more, if the text of each float in it is read as that float. -/
theorem ofText_document_afterEdits {p : Project} {edits : List Edit} (hp : p.IsStored)
    (hedits : ∀ edit ∈ edits, edit.IsStored)
    (hreads : ∀ x ∈ (p.afterEdits edits).floats, x.isFinite = true →
      (Json.Number.float x).ReadsBack) :
    Project.ofText (p.afterEdits edits).document = .ok (p.afterEdits edits).rescaled :=
  ofText_document_eq_rescaled (isStored_afterEdits hp hedits) hreads

/-! ### Screens that are not edited -/

/-- The screen whose elements an edit changes, if it changes nothing else. -/
def Edit.screen? : Edit → Option Nat
  | .addElement index _ | .removeElement index _ | .moveElement index _ _
  | .liftElement index _ _ | .setProperty index _ _ => some index
  | _ => none

/-- Two designs differ in the elements of some screens alone. -/
structure Project.SameBeside (edited : Nat → Prop) (p q : Project) : Prop where
  name : q.name = p.name
  profile : q.profile = p.profile
  names : q.screens.map (·.name) = p.screens.map (·.name)
  screens (index : Nat) (h : ¬ edited index) : q.screens[index]? = p.screens[index]?

section Beside

variable {edited : Nat → Prop} {p q r : Project}

theorem Project.SameBeside.refl : Project.SameBeside edited p p where
  name := rfl
  profile := rfl
  names := rfl
  screens _ _ := rfl

theorem Project.SameBeside.trans (hpq : Project.SameBeside edited p q)
    (hqr : Project.SameBeside edited q r) : Project.SameBeside edited p r where
  name := hqr.name.trans hpq.name
  profile := hqr.profile.trans hpq.profile
  names := hqr.names.trans hpq.names
  screens index h := (hqr.screens index h).trans (hpq.screens index h)

theorem sameBeside_setScreen {index : Nat} {screen changed : Screen} (hindex : edited index)
    (hscreen : p.screens[index]? = some screen) (hname : changed.name = screen.name) :
    Project.SameBeside edited p (p.setScreen index changed) where
  name := rfl
  profile := rfl
  names := by
    obtain ⟨hlt, rfl⟩ := List.getElem?_eq_some_iff.mp hscreen
    have hlt' : index < (p.screens.map (·.name)).length := by rwa [List.length_map]
    have hkept : (p.screens.map (·.name))[index] = changed.name := by rw [List.getElem_map, hname]
    rw [Project.setScreen, List.map_set, ← hkept, List.set_getElem_self]
  screens other hother := by
    refine List.getElem?_set_ne ?_
    rintro rfl
    exact hother hindex

/-- An edit of the elements of a screen leaves all else as it is. -/
theorem sameBeside_edit? {edit : Edit} {index : Nat} (hscreen : edit.screen? = some index)
    (hindex : edited index) (h : p.edit? edit = some q) : Project.SameBeside edited p q := by
  cases edit with
  | addElement index element =>
    cases hscreen
    obtain ⟨screen, _, hscreen, ⟨⟩, rfl⟩ := Project.changeScreen?_eq_some h
    exact sameBeside_setScreen hindex hscreen rfl
  | removeElement index element =>
    cases hscreen
    obtain ⟨screen, hscreen, rfl⟩ := Project.removeElement?_eq_some h
    exact sameBeside_setScreen hindex hscreen rfl
  | moveElement index place _ | liftElement index place _ | setProperty index place _ =>
    cases hscreen
    obtain ⟨screen, _, _, hscreen, -, -, rfl⟩ := Project.changeElement?_eq_some h
    exact sameBeside_setScreen hindex hscreen rfl
  | _ => cases hscreen

/-- Edits of the elements of some screens leave all else as it is. -/
theorem sameBeside_afterEdits {edits : List Edit}
    (hedits : ∀ edit ∈ edits, ∃ index, edit.screen? = some index ∧ edited index) :
    Project.SameBeside edited p (p.afterEdits edits) := by
  induction edits generalizing p with
  | nil => exact .refl
  | cons edit rest ih =>
    obtain ⟨⟨index, hscreen, hindex⟩, hrest⟩ := List.forall_mem_cons.mp hedits
    refine Project.SameBeside.trans ?_ (ih (p := p.afterEdit edit) hrest)
    rcases Project.afterEdit_cases p edit with h | ⟨-, h⟩
    · exact sameBeside_edit? hscreen hindex h
    · exact h.symm ▸ .refl

end Beside

/-! ### Edits that are taken back -/

/-- Two screens that change places twice are where they were. -/
theorem swapScreens?_swapScreens? {p q : Project} {first second : Nat}
    (h : p.swapScreens? first second = some q) : q.swapScreens? first second = some p := by
  obtain ⟨a, b, ha, hb, rfl⟩ := Project.swapScreens?_eq_some_iff.mp h
  rw [Project.swapScreens?_eq_some_iff]
  obtain ⟨hfirst, rfl⟩ := List.getElem?_eq_some_iff.mp ha
  obtain ⟨hsecond, rfl⟩ := List.getElem?_eq_some_iff.mp hb
  refine ⟨p.screens[second], p.screens[first], ?_, ?_, ?_⟩
  · simp only [Project.setScreen]
    grind
  · simp only [Project.setScreen]
    grind
  · have hscreens : (((p.screens.set first p.screens[second]).set second p.screens[first]).set first
        p.screens[first]).set second p.screens[second] = p.screens :=
      List.ext_getElem? fun index => by grind
    simp only [Project.setScreen, hscreens]

/-- A screen that was added is taken away again. -/
theorem removeScreen?_addScreen (p : Project) (screen : Screen) :
    (p.addScreen screen).removeScreen? p.screens.length = some p := by
  simp [Project.removeScreen?, Project.withScreens?, Project.addScreen, removeAt?,
    List.eraseIdx_append_of_length_le]

end Wireframe.Design

namespace Wireframe.App

open Design

/-! ### Code -/

theorem ofProject_eq_of_sameBeside {edited : Nat → Prop} {p q : Project}
    (h : Project.SameBeside edited p q) : Routes.ofProject q = Routes.ofProject p := by
  have hroutes (r : Project) : Routes.ofProject r =
      ⟨(r.screens.map (·.name)).map fun name => ⟨name, .ofName name⟩⟩ := by
    rw [List.map_map]
    rfl
  rw [hroutes, hroutes, h.names]

/-- Edits of elements leave what there was code for with code: the file that the app starts with and
the routes are the same, and so is the code of each screen that no edit is about. -/
theorem generate_afterEdits {p : Project} {edits : List Edit} {sources : Sources}
    (hedits : ∀ edit ∈ edits, edit.screen?.isSome = true) (h : generate p = .ok sources) :
    ∃ changed, generate (p.afterEdits edits) = .ok changed ∧ changed.entry = sources.entry ∧
      changed.routes = sources.routes ∧
      ∀ index, (∀ edit ∈ edits, edit.screen? ≠ some index) →
        changed.units[index]? = sources.units[index]? := by
  have hsame : Project.SameBeside (fun index => ∃ edit ∈ edits, edit.screen? = some index) p
      (p.afterEdits edits) := by
    refine sameBeside_afterEdits fun edit hedit => ?_
    obtain ⟨index, hindex⟩ := Option.isSome_iff_exists.mp (hedits edit hedit)
    exact ⟨index, hindex, edit, hedit, hindex⟩
  have hroutes := ofProject_eq_of_sameBeside hsame
  have hdistinct := generates_iff.mp ⟨sources, h⟩
  refine ⟨_, generate_of_distinct ((hasDistinctScreens_congr hsame.names).mpr hdistinct), ?_⟩
  rw [eq_sourcesOf_of_generate h]
  refine ⟨?_, hroutes, ?_⟩
  · show Entry.ofRoutes _ _ = Entry.ofRoutes _ _
    rw [hroutes, Entry.ofRoutes, Entry.ofRoutes, Entry.titleOf, Entry.titleOf, hsame.name]
  · intro index hindex
    have hscreen := hsame.screens index fun ⟨edit, hedit, hscreen⟩ => hindex edit hedit hscreen
    show (List.map _ _)[index]? = (List.map _ _)[index]?
    rw [List.getElem?_map, List.getElem?_map, hscreen, hroutes, hsame.profile]

end Wireframe.App
