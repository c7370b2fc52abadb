/-
Designs as reading leaves them.

* `steps_sum` — no width of a column is above the sum of all widths, as long as that is finite;
* `balanceWidths_mem` — widths that are balanced are fractions of the width of the table, whatever
  was given;
* `Widget.IsFit`, `isFit_decode` — the widget of a tag and of properties that are held has finite
  floats, and its properties are such as reading leaves behind;
* `Widget.IsMadeOf`, `isMadeOf_decode` — what every widget is like that is made of a tag and of
  properties, whatever they are: properties that do not fit the kind of the tag are as none;
* `gives_readElement`, `gives_readScreen`, `gives_readProject` — the parts of a document;
* `isStored_of_read` — the design of a document.
-/
import Wireframe.Design.Properties
import Wireframe.Proofs.Binary64.Division
import Wireframe.Proofs.Design.Document
import Wireframe.Proofs.Json.Held

namespace Wireframe.Design

open Binary64 Float.Model

theorem isWidth_iff {x : Float} : isWidth x = true ↔ x.isFinite = true ∧ 0.0 ≤ x := by
  simp only [isWidth, Bool.and_eq_true, decide_eq_true_eq, ge_iff_le]

theorem isFinite_of_isFinite_sum {widths : List Float} (hwidths : ∀ w ∈ widths, isWidth w = true)
    {x : Float} (h : (widths.foldl (· + ·) x).isFinite = true) : x.isFinite = true := by
  induction widths generalizing x with
  | nil => exact h
  | cons w rest ih =>
    obtain ⟨hw, hrest⟩ := List.forall_mem_cons.mp hwidths
    exact isFinite_of_isFinite_add (isWidth_iff.mp hw).1 (ih hrest h)

/-- What is summed is no more than the sum, as long as that is finite. -/
theorem steps_sum {widths : List Float} (hwidths : ∀ w ∈ widths, isWidth w = true) {x : Float}
    {a : Nat} (hx : Steps x.toModel.unpack a)
    (hfinite : (widths.foldl (· + ·) x).isFinite = true) :
    ∃ c, Steps (widths.foldl (· + ·) x).toModel.unpack c ∧ a ≤ c ∧
      ∀ w ∈ widths, ∃ b, Steps w.toModel.unpack b ∧ b ≤ c := by
  induction widths generalizing x a with
  | nil => exact ⟨a, hx, le_rfl, fun w hw => absurd hw List.not_mem_nil⟩
  | cons w rest ih =>
    obtain ⟨hw, hrest⟩ := List.forall_mem_cons.mp hwidths
    obtain ⟨hw, hw0⟩ := isWidth_iff.mp hw
    obtain ⟨b, hb⟩ := steps_of_nonneg hw0 hw
    obtain ⟨c, hc, hac, hbc⟩ := le_steps_add hx hb (isFinite_of_isFinite_sum hrest hfinite)
    obtain ⟨d, hd, hcd, hall⟩ := ih hrest hc hfinite
    exact ⟨d, hd, hac.trans hcd, List.forall_mem_cons.mpr ⟨⟨b, hb, hbc.trans hcd⟩, hall⟩⟩

/-- A part of a whole is a fraction of it. -/
theorem div_mem_unit {x y : Float} {a b : Nat} (hx : Steps x.toModel.unpack a)
    (hy : Steps y.toModel.unpack b) (hle : a ≤ b) (hpos : 0 < b) : 0.0 ≤ x / y ∧ x / y ≤ 1.0 := by
  have hquotient : ∃ c, Steps (x / y).toModel.unpack c ∧ c ≤ 2 ^ 1074 := by
    rcases hle.lt_or_eq with hlt | rfl
    · exact steps_div hx hy (Nat.mul_lt_mul_of_pos_right hlt (by positivity)) (by decide)
    · exact ⟨_, steps_div_self hx hy hpos, le_rfl⟩
  obtain ⟨c, hc, hle⟩ := hquotient
  exact ⟨(le_iff_of_steps steps_zero hc).mpr (Nat.zero_le c), (le_iff_of_steps hc steps_one).mpr hle⟩

/-- One divided by a whole number is a fraction. -/
theorem one_div_ofNat_mem {n : Nat} (hn : 0 < n) :
    0.0 ≤ 1.0 / Float.ofNat n ∧ 1.0 / Float.ofNat n ≤ 1.0 := by
  have h := one_le_ofNat hn
  generalize Float.ofNat n = y at h
  generalize hu : y.toModel.unpack = u at h
  cases h with
  | infinity =>
    have hzero : Steps (1.0 / y).toModel.unpack 0 := by
      rw [unpack_div, hu]
      exact Steps.zero _
    exact ⟨(le_iff_of_steps steps_zero hzero).mpr le_rfl,
      (le_iff_of_steps hzero steps_one).mpr (Nat.zero_le _)⟩
  | finite m e hm hle =>
    have hy : Steps y.toModel.unpack (m * 2 ^ (e + 1074).toNat) := by
      rw [hu]
      exact Steps.finite m e hm
    exact div_mem_unit steps_one hy hle (by positivity)

/-- Balanced widths are fractions of the width of the table, whatever widths were given. -/
theorem balanceWidths_mem {count : Nat} {widths : List Float} {w : Float}
    (h : w ∈ balanceWidths count widths) : 0.0 ≤ w ∧ w ≤ 1.0 := by
  unfold balanceWidths at h
  split at h
  · cases h
  · rename_i hcount
    dsimp only at h
    split at h
    · rename_i husable
      obtain ⟨-, hfinite, hpositive, hwidths⟩ := husable
      obtain ⟨x, hx, rfl⟩ := List.mem_map.mp h
      obtain ⟨c, hc, -, hall⟩ := steps_sum (List.all_eq_true.mp hwidths) steps_zero hfinite
      obtain ⟨b, hb, hbc⟩ := hall x hx
      refine div_mem_unit hb hc hbc ?_
      by_contra hzero
      exact absurd ((le_iff_of_steps hc steps_zero).mpr (by omega)) (not_lt_of_le · hpositive)
    · obtain rfl := (List.mem_replicate.mp h).2
      exact one_div_ofNat_mem (Nat.pos_of_ne_zero hcount)

end Wireframe.Design

namespace Wireframe.Design

open Json

/-! ### Widgets -/

/-- The widget has finite floats, and its properties are such as reading leaves behind. -/
structure Widget.IsFit (w : Widget) : Prop where
  finite : ∀ x ∈ w.floats, x.isFinite = true
  stored : w.IsStored

theorem forall_mem_balanceWidths (count : Nat) (widths : List Float) :
    ∀ x ∈ balanceWidths count widths, x.isFinite = true := by
  intro x hx
  obtain ⟨h0, h1⟩ := balanceWidths_mem hx
  exact Binary64.isFinite_of_unit h0 h1

theorem filled_options_ne_nil (p : SelectorProps) : p.filled.options ≠ [] := by
  unfold SelectorProps.filled
  split
  · exact List.cons_ne_nil _ _
  · rename_i hempty
    exact fun hnil => hempty (List.isEmpty_iff.mpr hnil)

theorem filled_fontSize (p : SelectorProps) : p.filled.fontSize = p.fontSize := by
  unfold SelectorProps.filled
  split <;> rfl

namespace Widget

/-- A table is fit as soon as its columns are scaled. -/
theorem isFit_balanced {p : TableProps} (h : p.fontSize.isFinite = true) :
    (table p.balanced).IsFit :=
  ⟨List.forall_mem_cons.mpr ⟨h, forall_mem_balanceWidths _ _⟩, trivial⟩

theorem isFit_filled {p : SelectorProps} (h : p.fontSize.isFinite = true) :
    (selector p.filled).IsFit := by
  refine ⟨?_, filled_options_ne_nil p⟩
  rw [floats, filled_fontSize]
  exact List.forall_mem_singleton.mpr h

theorem isFit_default (kind : Kind) : (default kind).IsFit := by
  have hfinite : ∀ kind ∈ Kind.all, ∀ x ∈ (default kind).floats, x.isFinite = true := by
    decide +kernel
  refine ⟨hfinite kind (Kind.mem_all kind), ?_⟩
  cases kind with
  | selector => exact List.cons_ne_nil _ _
  | _ => trivial

end Widget

/-! ### Records of properties -/

section Records

variable {props : Json} (h : ∀ x ∈ props.floats, x.isFinite = true)

include h

theorem yields_label : Yields (LabelProps.ofJson props) (·.fontSize.isFinite = true) :=
  yields_asRecord h fun _ hfields =>
    .after fun _ => (yields_optional_asFloat hfields "fontSize" rfl).bind fun _ hsize =>
      .after fun _ => .after fun _ => .ok hsize

theorem yields_paragraph : Yields (ParagraphProps.ofJson props) (·.fontSize.isFinite = true) :=
  yields_asRecord h fun _ hfields =>
    .after fun _ => (yields_optional_asFloat hfields "fontSize" rfl).bind fun _ hsize =>
      .after fun _ => .after fun _ => .ok hsize

theorem yields_inputText : Yields (InputTextProps.ofJson props) (·.fontSize.isFinite = true) :=
  yields_asRecord h fun _ hfields =>
    .after fun _ => (yields_optional_asFloat hfields "fontSize" rfl).bind fun _ hsize =>
      .after fun _ => .ok hsize

theorem yields_inputDate : Yields (InputDateProps.ofJson props) (·.fontSize.isFinite = true) :=
  yields_asRecord h fun _ hfields =>
    .after fun _ => (yields_optional_asFloat hfields "fontSize" rfl).bind fun _ hsize => .ok hsize

theorem yields_button : Yields (ButtonProps.ofJson props)
    fun p => p.borderRadius.isFinite = true ∧ p.fontSize.isFinite = true :=
  yields_asRecord h fun _ hfields =>
    .after fun _ => .after fun _ => .after fun _ =>
      (yields_optional_asFloat hfields "borderRadius" rfl).bind fun _ hradius =>
      (yields_optional_asFloat hfields "fontSize" rfl).bind fun _ hsize => .ok ⟨hradius, hsize⟩

theorem yields_link : Yields (LinkProps.ofJson props) (·.fontSize.isFinite = true) :=
  yields_asRecord h fun _ hfields =>
    .after fun _ => .after fun _ => .after fun _ =>
      (yields_optional_asFloat hfields "fontSize" rfl).bind fun _ hsize => .ok hsize

theorem yields_table : Yields (TableProps.ofJson props) (·.fontSize.isFinite = true) :=
  yields_asRecord h fun _ hfields =>
    .after fun _ => .after fun _ => .after fun _ =>
      (yields_optional_asFloat hfields "fontSize" rfl).bind fun _ hsize => .after fun _ => .ok hsize

theorem yields_checkbox : Yields (CheckboxProps.ofJson props) (·.fontSize.isFinite = true) :=
  yields_asRecord h fun _ hfields =>
    .after fun _ => .after fun _ =>
      (yields_optional_asFloat hfields "fontSize" rfl).bind fun _ hsize => .ok hsize

theorem yields_selector : Yields (SelectorProps.ofJson props) (·.fontSize.isFinite = true) :=
  yields_asRecord h fun _ hfields =>
    .after fun _ => (yields_optional_asFloat hfields "fontSize" rfl).bind fun _ hsize => .ok hsize

theorem yields_shape : Yields (ShapeProps.ofJson props)
    fun p => p.borderWidth.isFinite = true ∧ p.borderRadius.isFinite = true :=
  yields_asRecord h fun _ hfields =>
    .after fun _ => .after fun _ =>
      (yields_optional_asFloat hfields "borderWidth" rfl).bind fun _ hwidth =>
      (yields_optional_asFloat hfields "borderRadius" rfl).bind fun _ hradius =>
        .ok ⟨hwidth, hradius⟩

namespace Widget

/-- A widget that is made of finite values is fit. -/
theorem yields_ofJson (kind : Kind) : Yields (ofJson kind props) IsFit := by
  have hone {x : Float} (hx : x.isFinite = true) : ∀ y ∈ [x], y.isFinite = true :=
    List.forall_mem_singleton.mpr hx
  have htwo {x y : Float} (hxy : x.isFinite = true ∧ y.isFinite = true) :
      ∀ z ∈ [x, y], z.isFinite = true := List.forall_mem_cons.mpr ⟨hxy.1, hone hxy.2⟩
  cases kind with
  | label => exact (yields_label h).map fun _ hp => ⟨hone hp, trivial⟩
  | paragraph => exact (yields_paragraph h).map fun _ hp => ⟨hone hp, trivial⟩
  | inputText => exact (yields_inputText h).map fun _ hp => ⟨hone hp, trivial⟩
  | inputDate => exact (yields_inputDate h).map fun _ hp => ⟨hone hp, trivial⟩
  | button => exact (yields_button h).map fun _ hp => ⟨htwo hp, trivial⟩
  | link => exact (yields_link h).map fun _ hp => ⟨hone hp, trivial⟩
  | table => exact (yields_table h).map fun _ hp => isFit_balanced hp
  | checkbox => exact (yields_checkbox h).map fun _ hp => ⟨hone hp, trivial⟩
  | selector => exact (yields_selector h).map fun _ hp => isFit_filled hp
  | rectangle => exact (yields_shape h).map fun _ hp => ⟨htwo hp, trivial⟩
  | ellipse => exact (yields_shape h).map fun _ hp => ⟨htwo hp, trivial⟩
  -- the others have no floats
  | _ => exact Yields.any.map fun _ _ => ⟨List.forall_mem_nil _, trivial⟩

end Widget

end Records

/-- The widget of a tag and of properties that are held is fit. -/
theorem Widget.isFit_decode {props : Json} (h : props.IsHeld propsRoom) (tag : String) :
    (decode tag props).IsFit := by
  unfold decode
  split
  · rename_i kind _
    unfold ofKind
    split
    · exact isFit_default kind
    · cases hmade : ofJson kind props with
      | error e => exact isFit_default kind
      | ok w => exact yields_ofJson h.finite kind w hmade
  · rename_i htag
    exact ⟨h.finite, htag, h.proper, h.depth⟩

/-! ### What widgets are made of -/

/-- A table has a width for each of its columns, all of them fractions of its own width, and a
selector has something to choose from. -/
def Widget.IsInOrder : Widget → Prop
  | .table t => t.colWidths.length = t.headers.length ∧
      ∀ x ∈ t.colWidths, x.isFinite = true ∧ 0.0 ≤ x ∧ x ≤ 1.0
  | .selector s => s.options ≠ []
  | _ => True

/-- What a widget is like that is made of a tag and of properties, whatever they are: it is of the
kind of the tag and in order, and what is not known is kept. -/
structure Widget.IsMadeOf (tag : String) (props : Json) (w : Widget) : Prop where
  sameTag : w.tag = tag
  sameKind : ∀ kind : Kind, w.kind? = some kind ↔ kind.tag = tag
  inOrder : w.IsInOrder
  unknown : ∀ tag' props', w = .unknown tag' props' →
    tag' = tag ∧ props' = props ∧ ∀ kind : Kind, kind.tag ≠ tag

theorem length_balanceWidths (count : Nat) (widths : List Float) :
    (balanceWidths count widths).length = count := by
  unfold balanceWidths
  split
  · rename_i hcount
    exact hcount.symm
  · dsimp only
    split
    · rename_i husable
      rw [List.length_map, husable.1]
    · exact List.length_replicate

theorem isInOrder_balanced (t : TableProps) : (Widget.table t.balanced).IsInOrder := by
  refine ⟨length_balanceWidths _ _, fun x hx => ?_⟩
  obtain ⟨h0, h1⟩ := balanceWidths_mem hx
  exact ⟨Binary64.isFinite_of_unit h0 h1, h0, h1⟩

namespace Widget

/-- The tag of a known kind. -/
theorem tag_of_kind? {w : Widget} {kind : Kind} (h : w.kind? = some kind) : w.tag = kind.tag := by
  cases w with
  | unknown tag props => cases h
  | _ =>
    cases h
    rfl

theorem isMadeOf_of_kind? {w : Widget} {kind : Kind} (h : w.kind? = some kind)
    (horder : w.IsInOrder) (props : Json) : w.IsMadeOf kind.tag props where
  sameTag := tag_of_kind? h
  sameKind other := by rw [h, ← Kind.ofTag?_tag kind, Kind.ofTag?_eq_some_iff]
  inOrder := horder
  unknown := by
    rintro tag' props' rfl
    cases h

theorem isMadeOf_default (kind : Kind) (props : Json) :
    (default kind).IsMadeOf kind.tag props := by
  refine isMadeOf_of_kind? (by cases kind <;> rfl) ?_ props
  cases kind with
  | table =>
    refine ⟨rfl, ?_⟩
    decide +kernel
  | selector => exact List.cons_ne_nil _ _
  | _ => trivial

/-- Whatever properties fit a kind, the widget is of that kind and in order. -/
theorem isMadeOf_ofJson (kind : Kind) (props : Json) :
    Yields (ofJson kind props) (IsMadeOf kind.tag props) := by
  cases kind with
  | table =>
    refine Yields.any.map fun t _ => isMadeOf_of_kind? rfl ?_ props
    exact isInOrder_balanced t
  | selector =>
    refine Yields.any.map fun s _ => isMadeOf_of_kind? rfl ?_ props
    exact filled_options_ne_nil s
  | _ =>
    refine Yields.any.map fun p _ => isMadeOf_of_kind? rfl ?_ props
    trivial

theorem isMadeOf_decode (tag : String) (props : Json) : (decode tag props).IsMadeOf tag props := by
  unfold decode
  split
  · rename_i kind htag
    obtain rfl := Kind.ofTag?_eq_some_iff.mp htag
    unfold ofKind
    split
    · exact isMadeOf_default kind props
    · cases hmade : ofJson kind props with
      | error e => exact isMadeOf_default kind props
      | ok w => exact isMadeOf_ofJson kind props w hmade
  · rename_i htag
    have hunknown (kind : Kind) : kind.tag ≠ tag := by
      intro hkind
      rw [Kind.ofTag?_eq_some_iff.mpr hkind] at htag
      cases htag
    refine ⟨rfl, fun kind => ⟨nofun, fun hkind => absurd hkind (hunknown kind)⟩, trivial, ?_⟩
    rintro tag' props' ⟨⟩
    exact ⟨rfl, rfl, hunknown⟩

end Widget

/-! ### Documents -/

section Records

variable {δ α : Type} {room : Nat}

/-- A field keeps what is known of a draft if what is read for it does. -/
theorem gives_fill {name : String} {required : Bool} {get : δ → Option α} {put : δ → α → δ}
    {reader : Reader α} {P : α → Prop} {Q : δ → Prop} (hread : Gives (reader room) P)
    (hput : ∀ draft a, Q draft → P a → Q (put draft a)) (draft : δ) (hdraft : Q draft) :
    Gives ((fieldAt name required get put reader).fill draft room) Q := by
  intro source
  exact (hread source).bind fun result hresult => .ok (hput draft result.1 hdraft hresult)

theorem gives_readRecord {fields : List (RecordField δ)} {empty : δ} {finish : δ → α} {Q : δ → Prop}
    {P : α → Prop} (h : Keeping room fields Q) (hempty : Q empty)
    (hfinish : ∀ draft, Q draft → P (finish draft)) :
    Gives (readRecord fields empty finish (room + 1)) P := by
  intro source
  exact (gives_record h hempty source).bind fun result hresult => .ok (hfinish result.1 hresult)

/-- What is read for a field is of no matter. -/
theorem gives_any (read : Source → Except Problem (α × Source)) : Gives read fun _ => True :=
  fun _ _ _ => trivial

end Records

/-- What has been read, if anything, has a property. -/
def OnceRead {α : Type} (P : α → Prop) (read : Option α) : Prop := ∀ a ∈ read, P a

theorem onceRead_none {α : Type} {P : α → Prop} : OnceRead P none := fun _ ha => by cases ha

theorem onceRead_some {α : Type} {P : α → Prop} {a : α} (h : P a) : OnceRead P (some a) := by
  intro b hb
  cases hb
  exact h

theorem OnceRead.getD {α : Type} {P : α → Prop} {read : Option α} (h : OnceRead P read) {a : α}
    (ha : P a) : P (read.getD a) := by
  cases read with
  | none => exact ha
  | some b => exact h b rfl

/-- The numbers that have been read are finite. -/
structure RectDraft.IsFit (d : RectDraft) : Prop where
  x : OnceRead (·.isFinite = true) d.x
  y : OnceRead (·.isFinite = true) d.y
  w : OnceRead (·.isFinite = true) d.w
  h : OnceRead (·.isFinite = true) d.h

theorem gives_readRect {space : Space} (room : Nat) :
    Gives (readRect (room + 1)) fun r : Rect space => ∀ x ∈ r.floats, x.isFinite = true := by
  refine gives_readRecord (Q := RectDraft.IsFit) ?_
    ⟨onceRead_none, onceRead_none, onceRead_none, onceRead_none⟩ ?_
  · simp only [Keeping, rectFields, List.forall_mem_cons]
    exact ⟨gives_fill gives_readFloat fun d a hd ha => { hd with x := onceRead_some ha },
      gives_fill gives_readFloat fun d a hd ha => { hd with y := onceRead_some ha },
      gives_fill gives_readFloat fun d a hd ha => { hd with w := onceRead_some ha },
      gives_fill gives_readFloat fun d a hd ha => { hd with h := onceRead_some ha },
      List.forall_mem_nil _⟩
  · intro d hd
    simp only [Rect.floats, RectDraft.finish, List.forall_mem_cons]
    exact ⟨hd.x.getD rfl, hd.y.getD rfl, hd.w.getD rfl, hd.h.getD rfl, List.forall_mem_nil _⟩

/-- The rectangle that has been read is finite, and the properties are held. -/
structure ElementDraft.IsFit (d : ElementDraft) : Prop where
  rect : OnceRead (fun r => ∀ x ∈ r.floats, x.isFinite = true) d.rect
  props : OnceRead (IsHeld propsRoom) d.props

theorem isHeld_null (room : Nat) : IsHeld room .null :=
  ⟨by simp [IsProper], Nat.zero_le _, by simp [Json.floats]⟩

theorem gives_readElement : Gives (readElement (propsRoom + 1)) Element.IsStored := by
  refine gives_readRecord (Q := ElementDraft.IsFit) ?_ ⟨onceRead_none, onceRead_none⟩ ?_
  · simp only [Keeping, elementFields, List.forall_mem_cons]
    exact ⟨gives_fill (gives_any _) fun d a hd ha => { hd with },
      gives_fill (gives_any _) fun d a hd ha => { hd with },
      gives_fill (gives_readRect 121) fun d a hd ha => { hd with rect := onceRead_some ha },
      gives_fill (gives_any _) fun d a hd ha => { hd with },
      gives_fill (gives_readValue propsRoom) fun d a hd ha => { hd with props := onceRead_some ha },
      List.forall_mem_nil _⟩
  · intro d hd
    have hwidget := Widget.isFit_decode (hd.props.getD (isHeld_null _)) (d.tag.getD "")
    have hrect : ∀ x ∈ (d.rect.getD .empty).floats, x.isFinite = true := hd.rect.getD (by decide)
    exact ⟨List.forall_mem_append.mpr ⟨hrect, hwidget.finite⟩, hwidget.stored⟩

theorem gives_readScreen : Gives (readScreen (propsRoom + 3)) Screen.IsStored := by
  refine gives_readRecord
    (Q := fun d : ScreenDraft => OnceRead (∀ e ∈ ·, Element.IsStored e) d.elements) ?_
    onceRead_none ?_
  · simp only [Keeping, screenFields, List.forall_mem_cons]
    exact ⟨gives_fill (gives_any _) fun d a hd ha => hd,
      gives_fill (gives_any _) fun d a hd ha => hd,
      gives_fill (gives_listOf gives_readElement) fun d a hd ha => onceRead_some ha,
      List.forall_mem_nil _⟩
  · intro d hd
    exact hd.getD (List.forall_mem_nil _)

theorem gives_readProject : Gives (readProject nestingLimit) Project.IsStored := by
  refine gives_readRecord
    (Q := fun d : ProjectDraft => OnceRead (∀ s ∈ ·, Screen.IsStored s) d.screens) ?_
    onceRead_none ?_
  · simp only [Keeping, projectFields, List.forall_mem_cons]
    exact ⟨gives_fill (gives_any _) fun d a hd ha => hd,
      gives_fill (gives_any _) fun d a hd ha => hd,
      gives_fill (gives_listOf gives_readScreen) fun d a hd ha => onceRead_some ha,
      List.forall_mem_nil _⟩
  · intro d hd
    exact hd.getD (List.forall_mem_nil _)

/-- The design of a document is such as reading leaves behind. -/
theorem isStored_of_read {source : Source} {p : Project} (h : Project.read source = .ok p) :
    p.IsStored := by
  have hdocument : Yields (Project.read source) Project.IsStored := by
    refine (gives_readProject source).bind ?_
    rintro ⟨p, rest⟩ hresult
    dsimp only
    split
    · exact .ok hresult
    · exact .error _
  exact hdocument p h

end Wireframe.Design
