/-
Which answers are accepted.

An answer is accepted if every box of it has a kind that is known and numbers that are finite and
not negative.  If one of them has not, the first such box is reported: for its kind if that is
unknown, and for its numbers otherwise.

* `Conforms` — a box as it is to be given;
* `Keeps` — what is kept of a given box: everything but a size of text that is none;
* `Fault` — what is reported of a box that does not conform;
* `accept_cases`, `acceptFrom_cases` — one box, and all boxes from one on;
* `readPayload_of_decoded` — a whole answer.
-/
import Wireframe.Proofs.Design.Document
import Wireframe.Proofs.Outcome
import Wireframe.Sketch.Payload

namespace Wireframe.Sketch

open Design Json

/-! ### Boxes as they are to be given -/

/-- The tag is that of a kind. -/
def IsKnownTag (tag : String) : Prop := ∃ kind : Kind, kind.tag = tag

/-- A box as it is to be given: of a known kind, with four finite numbers none of which is below
zero. -/
structure Conforms (given : GivenBox) : Prop where
  kind : IsKnownTag given.tag
  finite : ∀ x ∈ given.bb.floats, x.isFinite = true
  notNegative : ∀ x ∈ given.bb.floats, ¬ x < 0.0

/-- A box is kept as it was given, but for a size of text that is not finite and positive. -/
structure Keeps (given : GivenBox) (box : DetectedBox) : Prop where
  kind : box.kind.tag = given.tag
  bb : box.bb = given.bb
  text : box.text = given.text
  headers : box.headers = given.headers
  rows : box.rows = given.rows
  items : box.items = given.items
  options : box.options = given.options
  url : box.url = given.url
  fontSize : ∀ size, box.fontSize = some size ↔
    given.fontSize = some size ∧ size.isFinite = true ∧ 0.0 < size

/-- What is reported of a box at a place: its kind if that is unknown, whatever its numbers are, and
otherwise its numbers. -/
inductive Fault (index : Nat) (given : GivenBox) : PayloadError → Prop
  | unknownKind (hkind : ¬ IsKnownTag given.tag) : Fault index given (.unknownKind index given.tag)
  | notFinite (hkind : IsKnownTag given.tag) (hx : ∃ x ∈ given.bb.floats, x.isFinite = false) :
      Fault index given (.notFinite index)
  | negative (hkind : IsKnownTag given.tag) (hfinite : ∀ x ∈ given.bb.floats, x.isFinite = true)
      (hx : ∃ x ∈ given.bb.floats, x < 0.0) : Fault index given (.negative index given.bb)

/-! ### One box -/

theorem ofTag?_eq_none_iff {tag : String} : Kind.ofTag? tag = none ↔ ¬ IsKnownTag tag := by
  rw [Option.eq_none_iff_forall_ne_some, IsKnownTag, not_exists]
  exact forall_congr' fun kind => not_congr Kind.ofTag?_eq_some_iff

theorem rect_isFinite_iff {space : Space} {r : Rect space} :
    r.isFinite = true ↔ ∀ x ∈ r.floats, x.isFinite = true := by
  simp [Rect.isFinite, Rect.floats, and_assoc]

theorem negative_iff {space : Space} {r : Rect space} :
    (r.x < 0.0 || r.y < 0.0 || r.w < 0.0 || r.h < 0.0) = true ↔ ∃ x ∈ r.floats, x < 0.0 := by
  simp [Rect.floats, or_assoc]

/-- A box that conforms is kept, and of any other there is something to report. -/
theorem accept_cases (index : Nat) (given : GivenBox) :
    (Conforms given ∧ ∃ box, accept index given = .ok box ∧ Keeps given box) ∨
      (¬ Conforms given ∧
        ∃ error, accept index given = .error error ∧ Fault index given error) := by
  unfold accept
  -- The cases are the checks in their order: what is wrong first is what is reported.
  cases hkind : Kind.ofTag? given.tag with
  | none =>
    have hunknown := ofTag?_eq_none_iff.mp hkind
    exact Or.inr ⟨fun h => hunknown h.kind, _, rfl, .unknownKind hunknown⟩
  | some kind =>
    have htag := Kind.ofTag?_eq_some_iff.mp hkind
    dsimp only
    cases hfinite : given.bb.isFinite with
    | false =>
      have hsome : ∃ x ∈ given.bb.floats, x.isFinite = false := by
        by_contra hall
        simp only [not_exists, not_and, Bool.not_eq_false] at hall
        rw [rect_isFinite_iff.mpr hall] at hfinite
        cases hfinite
      obtain ⟨x, hx, hbad⟩ := hsome
      refine Or.inr ⟨?_, _, rfl, .notFinite ⟨kind, htag⟩ ⟨x, hx, hbad⟩⟩
      intro h
      rw [h.finite x hx] at hbad
      cases hbad
    | true =>
      have hall := rect_isFinite_iff.mp hfinite
      by_cases hnegative : (given.bb.x < 0.0 || given.bb.y < 0.0 || given.bb.w < 0.0 ||
          given.bb.h < 0.0) = true
      · obtain ⟨x, hx, hbelow⟩ := negative_iff.mp hnegative
        refine Or.inr ⟨fun h => h.notNegative x hx hbelow, _, if_pos hnegative, ?_⟩
        exact .negative ⟨kind, htag⟩ hall ⟨x, hx, hbelow⟩
      -- Every check has passed; of the optional fields only the font size is looked at again.
      · refine Or.inl ⟨⟨⟨kind, htag⟩, hall, ?_⟩, _, if_neg hnegative, ?_⟩
        · intro x hx hbelow
          exact hnegative (negative_iff.mpr ⟨x, hx, hbelow⟩)
        · refine ⟨htag, rfl, rfl, rfl, rfl, rfl, rfl, rfl, ?_⟩
          intro size
          simp [Option.filter_eq_some_iff, isSize]

/-! ### All boxes -/

/-- All boxes from one on are kept, or the first of them that does not conform is reported. -/
theorem acceptFrom_cases (index : Nat) (given : List GivenBox) :
    ((∀ box ∈ given, Conforms box) ∧
      ∃ boxes, acceptFrom index given = .ok boxes ∧ List.Forall₂ Keeps given boxes) ∨
    ∃ n box error, given[n]? = some box ∧ ¬ Conforms box ∧
      (∀ m < n, ∀ earlier, given[m]? = some earlier → Conforms earlier) ∧
      acceptFrom index given = .error error ∧ Fault (index + n) box error := by
  induction given generalizing index with
  | nil => exact Or.inl ⟨List.forall_mem_nil _, [], rfl, .nil⟩
  | cons first rest ih =>
    rw [acceptFrom]
    rcases accept_cases index first with ⟨hfirst, box, hbox, hkeeps⟩ |
      ⟨hfirst, error, herror, hfault⟩
    · rw [hbox]
      rcases ih (index + 1) with ⟨hrest, boxes, hboxes, hall⟩ |
        ⟨n, bad, error, hget, hbad, hearlier, herror, hfault⟩
      · refine Or.inl ⟨List.forall_mem_cons.mpr ⟨hfirst, hrest⟩, box :: boxes, ?_,
          .cons hkeeps hall⟩
        rw [hboxes]
        rfl
      -- what is found among the rest is found one place further on
      · refine Or.inr ⟨n + 1, bad, error, hget, hbad, ?_, ?_, ?_⟩
        · intro m hm earlier hm'
          cases m with
          | zero => exact Option.some.inj hm' ▸ hfirst
          | succ m => exact hearlier m (Nat.lt_of_succ_lt_succ hm) earlier hm'
        · rw [herror]
          rfl
        · rw [show index + (n + 1) = index + 1 + n by omega]
          exact hfault
    · rw [herror]
      exact Or.inr ⟨0, first, error, rfl, hfirst, fun m hm => absurd hm (Nat.not_lt_zero m), rfl,
        hfault⟩

/-- An answer is accepted exactly if all its boxes conform, and then it keeps them all, one by one;
otherwise the first box that does not conform is reported. -/
theorem readPayload_of_decoded {text : String} {given : List GivenBox}
    (h : readDocument readBoxes ((stripFence text.toList).map .char) = .ok given) :
    ((∃ boxes, readPayload text = .ok boxes) ↔ ∀ box ∈ given, Conforms box) ∧
      (∀ boxes, readPayload text = .ok boxes → List.Forall₂ Keeps given boxes) ∧
      ∀ error, readPayload text = .error error →
        ∃ n box, given[n]? = some box ∧ ¬ Conforms box ∧
          (∀ m < n, ∀ earlier, given[m]? = some earlier → Conforms earlier) ∧
          Fault n box error := by
  -- The boxes are counted from nought, so the place of a fault is the place in the payload.
  have hread : readPayload text = acceptFrom 0 given := by
    rw [readPayload, h]
  rw [hread]
  rcases acceptFrom_cases 0 given with ⟨hall, boxes, hboxes, hkeeps⟩ |
    ⟨n, box, error, hget, hbad, hearlier, herror, hfault⟩
  · rw [hboxes]
    refine ⟨iff_of_true ⟨boxes, rfl⟩ hall, ?_, ?_⟩
    · rintro _ ⟨rfl⟩
      exact hkeeps
    · rintro _ ⟨⟩
  · rw [herror]
    refine ⟨iff_of_false ?_ ?_, ?_, ?_⟩
    · rintro ⟨_, ⟨⟩⟩
    · exact fun hall => hbad (hall box (List.mem_of_getElem? hget))
    · rintro _ ⟨⟩
    · rintro _ ⟨rfl⟩
      rw [Nat.zero_add] at hfault
      exact ⟨n, box, hget, hbad, hearlier, hfault⟩

/-- An answer of which the second box is of no known kind and reaches beyond the image, like the
third. -/
def sliderAnswer : String :=
  "\x7b\"boxes\": [" ++
    "\x7b\"kind\": \"Label\", \"fontSize\": -3, " ++
      "\"bb\": \x7b\"x\": 0, \"y\": 0, \"w\": 1, \"h\": 1\x7d\x7d, " ++
    "\x7b\"kind\": \"Slider\", \"bb\": \x7b\"x\": -5, \"y\": 0, \"w\": 1, \"h\": 1\x7d\x7d, " ++
    "\x7b\"kind\": \"Image\", \"bb\": \x7b\"x\": 0, \"y\": -5, \"w\": 1, \"h\": 1\x7d\x7d]\x7d"

theorem readPayload_of_decoded_sliderAnswer :
    ∃ given, readDocument readBoxes ((stripFence sliderAnswer.toList).map .char) = .ok given ∧
      given.length = 3 ∧
      ((∃ boxes, readPayload sliderAnswer = .ok boxes) ↔ ∀ box ∈ given, Conforms box) ∧
      (∀ boxes, readPayload sliderAnswer = .ok boxes → List.Forall₂ Keeps given boxes) ∧
      ∀ error, readPayload sliderAnswer = .error error →
        ∃ n box, given[n]? = some box ∧ ¬ Conforms box ∧
          (∀ m < n, ∀ earlier, given[m]? = some earlier → Conforms earlier) ∧
          Fault n box error := by
  have hdecoded : (readDocument readBoxes ((stripFence sliderAnswer.toList).map .char)).toOption.any
      (·.length = 3) = true := by
    decide +kernel
  cases hgiven : readDocument readBoxes ((stripFence sliderAnswer.toList).map .char) with
  | error problem =>
    rw [hgiven] at hdecoded
    cases hdecoded
  | ok given =>
    rw [hgiven] at hdecoded
    exact ⟨given, rfl, of_decide_eq_true hdecoded, readPayload_of_decoded hgiven⟩

end Wireframe.Sketch
