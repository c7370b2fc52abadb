/-
Values as they are held.

Reading leaves more behind than any value: whole numbers fit 64 bits, floats are finite, the members
of objects stand in order, and no more arrays and objects are open around one another than the
reader allows.

* `Gives` — everything that a reader gives has a property;
* `gives_listOf`, `gives_record` — lists of what has a property, and drafts that keep one;
* `Json.IsHeld`, `gives_readValue` — values as reading leaves them;
* `Yields` — the same for what is made of a value, `yields_asRecord` for the fields of a record.
-/
import Wireframe.Json.Decoder
import Wireframe.Proofs.Json.Finite
import Wireframe.Proofs.Json.Value

namespace Wireframe.Json

/-! ### What a step yields -/

section Yields

variable {ε α β : Type}

/-- What a step yields, if it yields anything, has a property. -/
def Yields (result : Except ε α) (P : α → Prop) : Prop := ∀ a, result = .ok a → P a

theorem Yields.ok {P : α → Prop} {a : α} (h : P a) : Yields (.ok a : Except ε α) P := by
  intro b hb
  cases hb
  exact h

theorem Yields.error {P : α → Prop} (e : ε) : Yields (.error e : Except ε α) P := by
  intro b hb
  cases hb

theorem Yields.bind {x : Except ε α} {f : α → Except ε β} {P : α → Prop} {Q : β → Prop}
    (hx : Yields x P) (hf : ∀ a, P a → Yields (f a) Q) : Yields (x >>= f) Q := by
  intro b hb
  obtain ⟨a, ha, hb⟩ := bind_eq_ok.mp hb
  exact hf a (hx a ha) b hb

/-- Whatever the first step yields. -/
theorem Yields.after {x : Except ε α} {f : α → Except ε β} {Q : β → Prop}
    (hf : ∀ a, Yields (f a) Q) : Yields (x >>= f) Q := by
  intro b hb
  obtain ⟨a, -, hb⟩ := bind_eq_ok.mp hb
  exact hf a b hb

theorem Yields.any {x : Except ε α} : Yields x fun _ => True := fun _ _ => trivial

theorem Yields.map {x : Except ε α} {f : α → β} {P : α → Prop} {Q : β → Prop} (hx : Yields x P)
    (hf : ∀ a, P a → Q (f a)) : Yields (f <$> x) Q := by
  intro b hb
  cases x with
  | error e => cases hb
  | ok a =>
    cases hb
    exact hf a (hx a rfl)

end Yields

/-! ### What a reader gives -/

section Gives

variable {α : Type} {room : Nat}

/-- Everything that is read has a property. -/
def Gives (read : Source → Except Problem (α × Source)) (P : α → Prop) : Prop :=
  ∀ source, Yields (read source) fun result => P result.1

theorem gives_readNumber : Gives readNumber Number.IsHeld := by
  intro source result hresult
  exact isHeld_of_readNumber hresult

theorem gives_readFloat : Gives (readFloat room) (·.isFinite = true) := by
  intro source
  have hnumber : Yields (readAnyNumber room source) fun result => result.1.IsHeld := by
    unfold readAnyNumber
    split
    · split
      · exact gives_readNumber _
      · exact .error _
    · exact .error _
  exact hnumber.bind fun result hresult => .ok hresult.isFinite_toFloat

theorem gives_readItems {item : Source → Except Problem (α × Source)} {P : α → Prop}
    (h : Gives item P) (first : Bool) (fuel : Nat) :
    Gives (readItems item first fuel) fun items => ∀ a ∈ items, P a := by
  induction fuel generalizing first with
  | zero =>
    intro source
    exact .error _
  | succ fuel ih =>
    intro source
    rw [readItems]
    refine .after fun onward => ?_
    cases onward with
    | done rest => exact .ok fun a ha => absurd ha List.not_mem_nil
    | more next rest =>
      refine (h rest).bind fun first hfirst => (ih false first.2).bind fun others hothers => ?_
      exact .ok (List.forall_mem_cons.mpr ⟨hfirst, hothers⟩)

theorem gives_listOf {item : Reader α} {P : α → Prop} (h : Gives (item room) P) :
    Gives (listOf item (room + 1)) fun items => ∀ a ∈ items, P a := by
  intro source
  unfold listOf
  split
  · exact gives_readItems h true _ _
  · exact .error _

theorem gives_readMembers {value : Source → Except Problem (α × Source)} {P : α → Prop}
    (h : Gives value P) (first : Bool) (fuel : Nat) :
    Gives (readMembers value first fuel) fun members => ∀ member ∈ members, P member.2 := by
  induction fuel generalizing first with
  | zero =>
    intro source
    exact .error _
  | succ fuel ih =>
    intro source
    rw [readMembers]
    refine .after fun onward => ?_
    cases onward with
    | done rest => exact .ok fun member hm => absurd hm List.not_mem_nil
    | more name rest =>
      refine .after fun rest => (h rest).bind fun first hfirst => ?_
      refine (ih false first.2).bind fun others hothers => ?_
      exact .ok (List.forall_mem_cons.mpr ⟨hfirst, hothers⟩)

/-! ### Records -/

variable {δ : Type} {fields : List (RecordField δ)} {P : δ → Prop}

/-- Filling a field keeps what is known of the draft. -/
def Keeping (room : Nat) (fields : List (RecordField δ)) (P : δ → Prop) : Prop :=
  ∀ field ∈ fields, ∀ draft, P draft → Gives (field.fill draft room) P

theorem yields_readPositional (h : Keeping room fields P) {draft : δ} (hdraft : P draft)
    (count : Nat) (source : Source) :
    Yields (readPositional room fields count draft source) fun result => P result.1 := by
  induction fields generalizing draft count source with
  | nil => exact .after fun rest => .ok hdraft
  | cons field fields ih =>
    obtain ⟨hfield, hfields⟩ := List.forall_mem_cons.mp h
    rw [readPositional]
    refine .after fun onward => ?_
    cases onward with
    | more next rest =>
      exact (hfield draft hdraft rest).bind fun result hresult =>
        ih hfields hresult (count + 1) result.2
    | done rest =>
      dsimp only
      split
      · exact .error _
      · exact .ok hdraft

theorem yields_readNamed (h : Keeping room fields P) {draft : δ} (hdraft : P draft) (first : Bool)
    (fuel : Nat) (source : Source) :
    Yields (readNamed room fields first fuel draft source) fun result => P result.1 := by
  induction fuel generalizing draft first source with
  | zero => exact .error _
  | succ fuel ih =>
    rw [readNamed]
    refine .after fun onward => ?_
    cases onward with
    | done rest =>
      dsimp only
      split
      · exact .error _
      · exact .ok hdraft
    | more name rest =>
      dsimp only
      split
      · rename_i field hfind
        split
        · exact .error _
        · refine .after fun rest => ?_
          exact (h field (List.mem_of_find?_eq_some hfind) draft hdraft rest).bind
            fun result hresult => ih hresult false result.2
      -- what is no field leaves the draft alone
      · refine .after fun rest => .after fun rest => ih hdraft false rest

/-- What is known of the empty draft and kept by every field is known of what is read. -/
theorem gives_record (h : Keeping room fields P) {empty : δ} (hempty : P empty) :
    Gives (record fields empty (room + 1)) P := by
  intro source
  unfold record
  split
  · exact yields_readPositional h hempty 0 _
  · exact yields_readNamed h hempty true _ _
  · exact .error _

end Gives

/-! ### Values of any kind -/

/-- A value as reading leaves it, with room for `room` arrays and objects around one another. -/
structure IsHeld (room : Nat) (json : Json) : Prop where
  proper : json.IsProper
  depth : json.depth ≤ room
  finite : ∀ x ∈ json.floats, x.isFinite = true

section IsHeld

variable {room : Nat}

theorem isHeld_number {n : Number} (h : n.IsHeld) : IsHeld room (.number n) := by
  cases n with
  | int n =>
    have hwhole : IsWhole n := h
    exact ⟨by simpa [IsProper] using hwhole, Nat.zero_le _, by simp [floats]⟩
  | float x =>
    have hfinite : x.isFinite = true := h
    exact ⟨by simp [IsProper], Nat.zero_le _, by simpa [floats] using hfinite⟩

theorem mem_itemsFloats_iff {items : List Json} {x : Float} :
    x ∈ itemsFloats items ↔ ∃ item ∈ items, x ∈ item.floats := by
  induction items with
  | nil => simp [itemsFloats]
  | cons item items ih => simp [itemsFloats, ih]

theorem mem_membersFloats_iff {members : List (String × Json)} {x : Float} :
    x ∈ membersFloats members ↔ ∃ member ∈ members, x ∈ member.2.floats := by
  induction members with
  | nil => simp [membersFloats]
  | cons member members ih => simp [membersFloats, ih]

theorem isHeld_array {items : List Json} (h : ∀ item ∈ items, IsHeld room item) :
    IsHeld (room + 1) (.array items) := by
  have hitems : ItemsProper items ∧ itemsDepth items ≤ room := by
    induction items with
    | nil => simp [ItemsProper, itemsDepth]
    | cons item items ih =>
      obtain ⟨hitem, hitems⟩ := List.forall_mem_cons.mp h
      obtain ⟨hproper, hdepth⟩ := ih hitems
      rw [ItemsProper, itemsDepth]
      exact ⟨⟨hitem.proper, hproper⟩, Nat.max_le.mpr ⟨hitem.depth, hdepth⟩⟩
  refine ⟨?_, ?_, ?_⟩
  · rw [IsProper]
    exact hitems.1
  · rw [Json.depth]
    exact Nat.succ_le_succ hitems.2
  · intro x hx
    rw [floats, mem_itemsFloats_iff] at hx
    obtain ⟨item, hitem, hx⟩ := hx
    exact (h item hitem).finite x hx

theorem isHeld_object {members : List (String × Json)} (horder : InOrder members)
    (h : ∀ member ∈ members, IsHeld room member.2) : IsHeld (room + 1) (.object members) := by
  have hmembers : MembersProper members ∧ membersDepth members ≤ room := by
    clear horder
    induction members with
    | nil => simp [MembersProper, membersDepth]
    | cons member members ih =>
      obtain ⟨hmember, hmembers⟩ := List.forall_mem_cons.mp h
      obtain ⟨hproper, hdepth⟩ := ih hmembers
      rw [MembersProper, membersDepth]
      exact ⟨⟨hmember.proper, hproper⟩, Nat.max_le.mpr ⟨hmember.depth, hdepth⟩⟩
  refine ⟨?_, ?_, ?_⟩
  · rw [IsProper]
    exact ⟨horder, hmembers.1⟩
  · rw [Json.depth]
    exact Nat.succ_le_succ hmembers.2
  · intro x hx
    rw [floats, mem_membersFloats_iff] at hx
    obtain ⟨member, hmember, hx⟩ := hx
    exact (h member hmember).finite x hx

theorem isHeld_sorted {members : List (String × Json)}
    (h : ∀ member ∈ members, IsHeld room member.2) : IsHeld (room + 1) (sorted members) := by
  obtain ⟨ordered, heq, horder, hmem⟩ := exists_sorted_eq members
  rw [heq]
  exact isHeld_object horder fun member hm => h member (hmem member hm)

/-- A value whose items and members are given with less room. -/
theorem gives_readValueWith {inner : Option (Source → Except Problem (Json × Source))}
    (h : ∀ read ∈ inner, ∃ less, less + 1 = room ∧ Gives read (IsHeld less)) :
    Gives (readValueWith inner) (IsHeld room) := by
  intro source
  unfold readValueWith
  -- The cases are those of the first symbol, in the order in which the reader asks for them.
  split
  · exact .error _
  · exact .error _
  split
  · exact .after fun rest => .ok ⟨by simp [IsProper], Nat.zero_le _, by simp [floats]⟩
  split
  · exact .after fun rest => .ok ⟨by simp [IsProper], Nat.zero_le _, by simp [floats]⟩
  split
  · exact .after fun rest => .ok ⟨by simp [IsProper], Nat.zero_le _, by simp [floats]⟩
  split
  · exact (gives_readNumber _).bind fun result hresult => .ok (isHeld_number hresult)
  split
  · exact .after fun result => .ok ⟨by simp [IsProper], Nat.zero_le _, by simp [floats]⟩
  split
  · cases inner with
    | none => exact .error _
    | some read =>
      -- What is inside may be nested less deeply by one level.
      obtain ⟨less, rfl, hread⟩ := h read rfl
      exact (gives_readItems hread true _ _).bind fun result hresult => .ok (isHeld_array hresult)
  split
  · cases inner with
    | none => exact .error _
    | some read =>
      obtain ⟨less, rfl, hread⟩ := h read rfl
      exact (gives_readMembers hread true _ _).bind fun result hresult =>
        .ok (isHeld_sorted hresult)
  · exact .error _

/-- Any value is read as it can be held. -/
theorem gives_readValue (room : Nat) : Gives (readValue room) (IsHeld room) := by
  induction room with
  | zero => exact gives_readValueWith fun read hread => by cases hread
  | succ room ih =>
    refine gives_readValueWith fun read hread => ?_
    cases hread
    exact ⟨room, rfl, ih⟩

end IsHeld

/-! ### Fields of a value -/

/-- All floats in the fields are finite. -/
def Fields.IsFinite (fields : Fields) : Prop :=
  ∀ member ∈ fields.given, ∀ x ∈ member.2.floats, x.isFinite = true

/-- What a record of finite fields is built to, it is also read as. -/
theorem yields_asRecord {α : Type} {names : List String} {build : Fields → Except Mismatch α}
    {P : α → Prop} {json : Json} (hjson : ∀ x ∈ json.floats, x.isFinite = true)
    (h : ∀ fields : Fields, fields.IsFinite → Yields (build fields) P) :
    Yields (asRecord names build json) P := by
  have hfields : Yields (fieldsOf names json) Fields.IsFinite := by
    unfold fieldsOf
    split
    · rename_i members
      refine .ok fun member hmember x hx => hjson x ?_
      rw [floats, mem_membersFloats_iff]
      exact ⟨member, hmember, hx⟩
    · rename_i items
      refine .ok fun member hmember x hx => hjson x ?_
      rw [floats, mem_itemsFloats_iff]
      exact ⟨member.2, (List.of_mem_zip hmember).2, hx⟩
    · exact .error _
  refine hfields.bind fun fields hfinite => (h fields hfinite).bind fun value hvalue => ?_
  split
  · exact .error _
  · exact .ok hvalue

/-- A field with a finite default is finite. -/
theorem yields_optional_asFloat {fields : Fields} (h : fields.IsFinite) (name : String)
    {default : Float} (hdefault : default.isFinite = true) :
    Yields (fields.optional name asFloat default) (·.isFinite = true) := by
  unfold Fields.optional
  split
  · rename_i json hlookup
    obtain ⟨before, behind, heq, -⟩ := List.lookup_eq_some_iff.mp hlookup
    have hmem : (name, json) ∈ fields.given := by
      rw [heq]
      exact List.mem_append_right _ List.mem_cons_self
    unfold asFloat
    split
    · rename_i n
      cases n with
      | int n => exact .ok (Numeral.isFinite_signed _ (Numeral.isFinite_floatOfNat _))
      | float x => exact .ok (h (name, .number (.float x)) hmem x (by simp [floats]))
    · exact .error _
  · exact .ok hdefault

end Wireframe.Json
