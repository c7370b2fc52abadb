/-
Properties and widgets that are read back.

* `IsKept` — a float that a document keeps;
* `Keeps` — a record that is made of its value, which is read back from its text;
* `keeps_label` to `keeps_media` — one lemma for each record, if its floats are kept;
* `Widget.floats` — the floats in the properties of a widget;
* `Widget.IsNormal` — the properties are such as reading leaves alone;
* `Widget.IsStored`, `Widget.rescaled` — the properties are such as reading leaves behind, and what
  reading them again makes of them;
* `decode_and_readable` — what is made of the tag and the properties of a widget, and the properties
  are read back from their text.
-/
import Wireframe.Design.Document
import Wireframe.Design.Widget
import Wireframe.Proofs.Design.Color
import Wireframe.Proofs.Json.Value

namespace Wireframe.Json

/-! ### Values of a known shape -/

/-- The fields of an object made by sorting. -/
def Fields.ofMembers (members : List (String × Json)) : Fields :=
  ⟨members.foldl (fun done member => Json.insert member.1 member.2 done) [], none⟩

@[simp] theorem asRecord_sorted {α : Type} (names : List String)
    (build : Fields → Except Mismatch α) (members : List (String × Json)) :
    asRecord names build (sorted members) = build (.ofMembers members) := by
  simp only [asRecord, sorted, fieldsOf, bind, Except.bind, Fields.ofMembers]
  cases h : build _ <;> rfl

@[simp] theorem optional_ofMembers {α : Type} (members : List (String × Json)) (name : String)
    (decode : Decoder α) (default : α) : (Fields.ofMembers members).optional name decode default =
      ((members.reverse.lookup name).map decode).getD (.ok default) := by
  rw [Fields.optional, Fields.ofMembers, lookup_sorted]
  cases members.reverse.lookup name <;> rfl

@[simp] theorem asText_string (s : String) : asText (.string s) = .ok s := rfl

@[simp] theorem asBool_bool (b : Bool) : asBool (.bool b) = .ok b := rfl

@[simp] theorem asFloat_ofFloat {x : Float} (h : x.isFinite = true) :
    asFloat (ofFloat x) = .ok x := by
  rw [ofFloat, if_pos h]
  rfl

theorem asList_map {α : Type} {item : Decoder α} {f : α → Json} {as : List α}
    (h : ∀ a ∈ as, item (f a) = .ok a) : asList item (.array (as.map f)) = .ok as := by
  rw [asList]
  induction as with
  | nil => rfl
  | cons a as ih =>
      obtain ⟨ha, has⟩ := List.forall_mem_cons.mp h
      rw [List.map_cons, List.mapM_cons, ha, ih has]
      rfl

@[simp] theorem asList_ofStrings (items : List String) :
    asList asText (ofStrings items) = .ok items := asList_map fun _ _ => rfl

@[simp] theorem readable_string {room : Nat} (s : String) : Readable room (.string s) := .string s

@[simp] theorem readable_bool {room : Nat} (b : Bool) : Readable room (.bool b) := .bool b

theorem readable_array_map {α : Type} {room : Nat} {f : α → Json} {as : List α}
    (h : ∀ a ∈ as, Readable room (f a)) : Readable (room + 1) (.array (as.map f)) := by
  refine .array ?_
  intro item hi
  obtain ⟨a, ha, rfl⟩ := List.mem_map.mp hi
  exact h a ha

@[simp] theorem readable_ofStrings {room : Nat} (items : List String) :
    Readable (room + 1) (ofStrings items) := readable_array_map fun s _ => .string s

end Wireframe.Json

namespace Wireframe.Design

open Json

/-- A float that a document keeps: it is finite, and its text is read as the float itself. -/
structure IsKept (x : Float) : Prop where
  finite : x.isFinite = true
  readsBack : (Number.float x).ReadsBack

@[simp] theorem IsKept.readable {room : Nat} {x : Float} (h : IsKept x) :
    Readable room (ofFloat x) := by
  rw [ofFloat, if_pos h.finite]
  exact .number h.readsBack

@[simp] theorem asColor_toJson (c : Color) : asColor c.toJson = .ok c := by
  simp only [asColor, Color.toJson, asText, bind, Except.bind, Color.parse?_text]
  rfl

@[simp] theorem readable_color {room : Nat} (c : Color) : Readable room c.toJson := .string _

/-- A document keeps `a` as a value: `a` is made of the value, and the value of its text.  The
properties of a widget are nested three levels deep at most. -/
structure Keeps {α : Type} (decode : Decoder α) (json : Json) (a : α) : Prop where
  decodes : decode json = .ok a
  readable (room : Nat) : Readable (room + 3) json

/-! ### Records -/

theorem keeps_label {p : LabelProps} (h : IsKept p.fontSize) :
    Keeps LabelProps.ofJson p.toJson p where
  decodes := by
    simp [LabelProps.ofJson, LabelProps.toJson, h.finite, bind, Except.bind, pure, Except.pure]
  readable room := readable_sorted (by simp [h])

theorem keeps_paragraph {p : ParagraphProps} (h : IsKept p.fontSize) :
    Keeps ParagraphProps.ofJson p.toJson p where
  decodes := by
    simp [ParagraphProps.ofJson, ParagraphProps.toJson, h.finite, asChoice, asChoice.choose,
      TextAlign.ofWord?_word, bind, Except.bind, pure, Except.pure]
  readable room := readable_sorted (by simp [h])

theorem keeps_inputText {p : InputTextProps} (h : IsKept p.fontSize) :
    Keeps InputTextProps.ofJson p.toJson p where
  decodes := by
    simp [InputTextProps.ofJson, InputTextProps.toJson, h.finite, bind, Except.bind, pure,
      Except.pure]
  readable room := readable_sorted (by simp [h])

theorem keeps_inputDate {p : InputDateProps} (h : IsKept p.fontSize) :
    Keeps InputDateProps.ofJson p.toJson p where
  decodes := by
    simp [InputDateProps.ofJson, InputDateProps.toJson, h.finite, bind, Except.bind, pure,
      Except.pure]
  readable room := readable_sorted (by simp [h])

theorem keeps_button {p : ButtonProps} (hradius : IsKept p.borderRadius)
    (hsize : IsKept p.fontSize) : Keeps ButtonProps.ofJson p.toJson p where
  decodes := by
    simp [ButtonProps.ofJson, ButtonProps.toJson, hradius.finite, hsize.finite, bind, Except.bind,
      pure, Except.pure]
  readable room := readable_sorted (by simp [hradius, hsize])

theorem keeps_link {p : LinkProps} (h : IsKept p.fontSize) :
    Keeps LinkProps.ofJson p.toJson p where
  decodes := by
    simp [LinkProps.ofJson, LinkProps.toJson, h.finite, bind, Except.bind, pure, Except.pure]
  readable room := readable_sorted (by simp [h])

theorem keeps_table {p : TableProps} (hwidths : ∀ x ∈ p.colWidths, IsKept x)
    (hsize : IsKept p.fontSize) : Keeps TableProps.ofJson p.toJson p where
  decodes := by
    have hrows : asList (asList asText) (.array (p.rows.map .ofStrings)) = .ok p.rows :=
      asList_map fun row _ => asList_ofStrings row
    have hcolumns : asList asFloat (.array (p.colWidths.map .ofFloat)) = .ok p.colWidths :=
      asList_map fun x hx => asFloat_ofFloat (hwidths x hx).finite
    simp [TableProps.ofJson, TableProps.toJson, hsize.finite, hrows, hcolumns, bind, Except.bind,
      pure, Except.pure]
  readable room := by
    have hrows : Readable (room + 2) (.array (p.rows.map .ofStrings)) :=
      readable_array_map fun row _ => readable_ofStrings row
    have hcolumns : Readable (room + 2) (.array (p.colWidths.map .ofFloat)) :=
      readable_array_map fun x hx => (hwidths x hx).readable
    exact readable_sorted (by simp [hsize, hrows, hcolumns])

theorem keeps_checkbox {p : CheckboxProps} (h : IsKept p.fontSize) :
    Keeps CheckboxProps.ofJson p.toJson p where
  decodes := by
    simp [CheckboxProps.ofJson, CheckboxProps.toJson, h.finite, bind, Except.bind, pure,
      Except.pure]
  readable room := readable_sorted (by simp [h])

theorem keeps_selector {p : SelectorProps} (h : IsKept p.fontSize) :
    Keeps SelectorProps.ofJson p.toJson p where
  decodes := by
    simp [SelectorProps.ofJson, SelectorProps.toJson, h.finite, bind, Except.bind, pure,
      Except.pure]
  readable room := readable_sorted (by simp [h])

/-- An icon that is not there is not written, and what is not written is not there. -/
theorem ofJson_navItem (i : NavItem) : NavItem.ofJson i.toJson = .ok i := by
  obtain ⟨text, target, icon⟩ := i
  cases icon <;> simp [NavItem.ofJson, NavItem.toJson, memberOf?, nullable] <;> rfl

theorem readable_navItem (i : NavItem) (room : Nat) : Readable (room + 1) i.toJson := by
  obtain ⟨text, target, icon⟩ := i
  cases icon <;> exact readable_sorted (by simp [memberOf?])

theorem asList_navItems (items : List NavItem) :
    asList NavItem.ofJson (.array (items.map NavItem.toJson)) = .ok items :=
  asList_map fun i _ => ofJson_navItem i

theorem readable_navItems (items : List NavItem) (room : Nat) :
    Readable (room + 2) (.array (items.map NavItem.toJson)) :=
  readable_array_map fun i _ => readable_navItem i room

theorem keeps_sidebar (p : SidebarProps) : Keeps SidebarProps.ofJson p.toJson p where
  decodes := by
    simp [SidebarProps.ofJson, SidebarProps.toJson, asList_navItems, bind, Except.bind, pure,
      Except.pure]
  readable room := readable_sorted (by simp [readable_navItems])

theorem keeps_bottomNav (p : BottomNavProps) : Keeps BottomNavProps.ofJson p.toJson p where
  decodes := by
    simp [BottomNavProps.ofJson, BottomNavProps.toJson, asList_navItems, bind, Except.bind, pure,
      Except.pure]
  readable room := readable_sorted (by simp [readable_navItems])

theorem keeps_shape {p : ShapeProps} (hwidth : IsKept p.borderWidth)
    (hradius : IsKept p.borderRadius) : Keeps ShapeProps.ofJson p.toJson p where
  decodes := by
    obtain ⟨fill, border, width, radius⟩ := p
    have hnullable (c : Color) : nullable asColor c.toJson = .ok (some c) := by
      change some <$> asColor c.toJson = _
      rw [asColor_toJson]
      rfl
    cases border <;>
      simp [ShapeProps.ofJson, ShapeProps.toJson, memberOf?, hwidth.finite, hradius.finite,
        hnullable] <;> rfl
  readable room := by
    obtain ⟨fill, border, width, radius⟩ := p
    cases border <;> exact readable_sorted (by simp [memberOf?, hwidth, hradius])

theorem keeps_image (p : ImageProps) : Keeps ImageProps.ofJson p.toJson p where
  decodes := by
    simp [ImageProps.ofJson, ImageProps.toJson, asChoice, asChoice.choose, ImageFit.ofWord?_word,
      bind, Except.bind, pure, Except.pure]
  readable room := readable_sorted (by simp)

theorem keeps_media (p : MediaProps) : Keeps MediaProps.ofJson p.toJson p where
  decodes := by
    simp [MediaProps.ofJson, MediaProps.toJson, bind, Except.bind, pure, Except.pure]
  readable room := readable_sorted (by simp)

/-! ### Widgets -/

/-- How deeply the properties of an element may be nested: a project, its screens, one of them, its
elements and one of these are open around them. -/
def propsRoom : Nat := nestingLimit - 5

namespace Widget

/-- The floats in the properties of a widget. -/
def floats : Widget → List Float
  | label p => [p.fontSize]
  | paragraph p => [p.fontSize]
  | inputText p => [p.fontSize]
  | inputDate p => [p.fontSize]
  | button p => [p.borderRadius, p.fontSize]
  | link p => [p.fontSize]
  | table p => p.fontSize :: p.colWidths
  | checkbox p => [p.fontSize]
  | selector p => [p.fontSize]
  | sidebar _ => []
  | bottomNav _ => []
  | rectangle p => [p.borderWidth, p.borderRadius]
  | ellipse p => [p.borderWidth, p.borderRadius]
  | image _ => []
  | video _ => []
  | audio _ => []
  | unknown _ props => props.floats

/-- The properties are such as reading leaves alone: the columns of a table fill it, a selector has
something to choose from, and what is not known has a tag of its own and properties that are a value
as it is held, not nested too deeply. -/
def IsNormal : Widget → Prop
  | table p => p.balanced = p
  | selector p => p.options ≠ []
  | unknown tag props => Kind.ofTag? tag = none ∧ props.IsProper ∧ props.depth ≤ propsRoom
  | _ => True

/-- The properties are such as reading leaves behind: a selector has something to choose from, and
what is not known has a tag of its own and properties that are a value as it is held, not nested too
deeply. -/
def IsStored : Widget → Prop
  | selector p => p.options ≠ []
  | unknown tag props => Kind.ofTag? tag = none ∧ props.IsProper ∧ props.depth ≤ propsRoom
  | _ => True

/-- A widget when it is read again: the columns of a table are scaled once more. -/
def rescaled : Widget → Widget
  | table p => table p.balanced
  | w => w

theorem isNormal_iff {w : Widget} : w.IsNormal ↔ w.IsStored ∧ w.rescaled = w := by
  cases w <;> simp [IsNormal, IsStored, rescaled]

/-- A widget of a known kind is made of the value of a record that is kept, and the value is read
back from its text. -/
theorem of_keeps {α : Type} {read : Decoder α} {json : Json} {a : α} (kind : Kind)
    (make : α → Widget) (h : Keeps read json a) (hnull : json.isNull = false)
    (hkind : ofJson kind json = make <$> read json) :
    decode kind.tag json = make a ∧ Readable propsRoom json := by
  refine ⟨?_, h.readable 119⟩
  have hmake : ofJson kind json = .ok (make a) := by
    rw [hkind, h.decodes]
    rfl
  simp only [decode, Kind.ofTag?_tag, ofKind, hnull, hmake]
  rfl

theorem filled_of_ne_nil {p : SelectorProps} (h : p.options ≠ []) : p.filled = p := by
  rw [SelectorProps.filled, if_neg]
  rwa [List.isEmpty_iff]

/-- The tag and the properties of a stored widget make the widget as it is read again, and the
properties are read back from their text. -/
theorem decode_and_readable {w : Widget} (h : w.IsStored) (hkept : ∀ x ∈ w.floats, IsKept x) :
    decode w.tag w.properties = w.rescaled ∧ Readable propsRoom w.properties := by
  cases w with
  | label p =>
      obtain ⟨hsize, -⟩ := List.forall_mem_cons.mp hkept
      exact of_keeps .label label (keeps_label hsize) rfl rfl
  | paragraph p =>
      obtain ⟨hsize, -⟩ := List.forall_mem_cons.mp hkept
      exact of_keeps .paragraph paragraph (keeps_paragraph hsize) rfl rfl
  | inputText p =>
      obtain ⟨hsize, -⟩ := List.forall_mem_cons.mp hkept
      exact of_keeps .inputText inputText (keeps_inputText hsize) rfl rfl
  | inputDate p =>
      obtain ⟨hsize, -⟩ := List.forall_mem_cons.mp hkept
      exact of_keeps .inputDate inputDate (keeps_inputDate hsize) rfl rfl
  | button p =>
      obtain ⟨hradius, hrest⟩ := List.forall_mem_cons.mp hkept
      obtain ⟨hsize, -⟩ := List.forall_mem_cons.mp hrest
      exact of_keeps .button button (keeps_button hradius hsize) rfl rfl
  | link p =>
      obtain ⟨hsize, -⟩ := List.forall_mem_cons.mp hkept
      exact of_keeps .link link (keeps_link hsize) rfl rfl
  | table p =>
      obtain ⟨hsize, hwidths⟩ := List.forall_mem_cons.mp hkept
      exact of_keeps .table (fun p => table p.balanced) (keeps_table hwidths hsize) rfl rfl
  | checkbox p =>
      obtain ⟨hsize, -⟩ := List.forall_mem_cons.mp hkept
      exact of_keeps .checkbox checkbox (keeps_checkbox hsize) rfl rfl
  | selector p =>
      -- what is read has options, as a stored selector has
      obtain ⟨hsize, -⟩ := List.forall_mem_cons.mp hkept
      have hread := of_keeps .selector (fun p => selector p.filled) (keeps_selector hsize) rfl rfl
      rwa [filled_of_ne_nil h] at hread
  | sidebar p => exact of_keeps .sidebar sidebar (keeps_sidebar p) rfl rfl
  | bottomNav p => exact of_keeps .bottomNav bottomNav (keeps_bottomNav p) rfl rfl
  | rectangle p =>
      obtain ⟨hwidth, hrest⟩ := List.forall_mem_cons.mp hkept
      obtain ⟨hradius, -⟩ := List.forall_mem_cons.mp hrest
      exact of_keeps .rectangle rectangle (keeps_shape hwidth hradius) rfl rfl
  | ellipse p =>
      obtain ⟨hwidth, hrest⟩ := List.forall_mem_cons.mp hkept
      obtain ⟨hradius, -⟩ := List.forall_mem_cons.mp hrest
      exact of_keeps .ellipse ellipse (keeps_shape hwidth hradius) rfl rfl
  | image p => exact of_keeps .image image (keeps_image p) rfl rfl
  | video p => exact of_keeps .video video (keeps_media p) rfl rfl
  | audio p => exact of_keeps .audio audio (keeps_media p) rfl rfl
  | unknown tag props =>
      obtain ⟨htag, hproper, hdepth⟩ := h
      refine ⟨?_, readable_of_isProper props propsRoom hproper hdepth
        fun x hx => (hkept x hx).readsBack⟩
      rw [Widget.tag, properties, decode, htag]
      rfl

end Widget

end Wireframe.Design
