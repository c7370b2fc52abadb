/-
Values that can be written and read.

A value that is held in memory has whole numbers of 64 bits, and objects of which the members stand
in the order of their names.  Such a value is read back from its text if its floats are and if it is
not nested too deeply.

* `Json.depth`, `Json.floats` — how deeply a value is nested, and the floats in it;
* `Json.IsProper` — whole numbers fit 64 bits, and members stand in the order of their names;
* `Readable` — what a reader with a given room reads back;
* `readable_of_isProper` — proper values of little depth are readable if their floats read back;
* `exists_sorted_eq`, `readable_sorted`, `lookup_sorted` — objects made by sorting members.
-/
import Mathlib.Data.String.Basic
import Wireframe.Proofs.Json.Numeral

namespace Wireframe

namespace Json

mutual

/-- How deeply arrays and objects are nested. -/
def depth : Json → Nat
  | .array items => itemsDepth items + 1
  | .object members => membersDepth members + 1
  | _ => 0

/-- How deeply arrays and objects are nested in items. -/
def itemsDepth : List Json → Nat
  | [] => 0
  | item :: items => max (depth item) (itemsDepth items)

/-- How deeply arrays and objects are nested in members. -/
def membersDepth : List (String × Json) → Nat
  | [] => 0
  | member :: members => max (depth member.2) (membersDepth members)

end

mutual

/-- All floats in a value. -/
def floats : Json → List Float
  | .number (.float x) => [x]
  | .array items => itemsFloats items
  | .object members => membersFloats members
  | _ => []

/-- All floats in items. -/
def itemsFloats : List Json → List Float
  | [] => []
  | item :: items => floats item ++ itemsFloats items

/-- All floats in members. -/
def membersFloats : List (String × Json) → List Float
  | [] => []
  | member :: members => floats member.2 ++ membersFloats members

end

/-- The members of an object stand in the order of their names, each name once. -/
def InOrder (members : List (String × Json)) : Prop := (members.map Prod.fst).Pairwise (· < ·)

mutual

/-- The value can be held: whole numbers fit 64 bits, and members stand in the order of their names,
as reading leaves them. -/
def IsProper : Json → Prop
  | .number (.int n) => IsWhole n
  | .array items => ItemsProper items
  | .object members => InOrder members ∧ MembersProper members
  | _ => True

/-- All items are proper. -/
def ItemsProper : List Json → Prop
  | [] => True
  | item :: items => IsProper item ∧ ItemsProper items

/-- The values of all members are proper. -/
def MembersProper : List (String × Json) → Prop
  | [] => True
  | member :: members => IsProper member.2 ∧ MembersProper members

end

/-- What a reader that may still open `room` arrays and objects reads back. -/
inductive Readable : (room : Nat) → Json → Prop
  | null {room : Nat} : Readable room .null
  | bool {room : Nat} (b : Bool) : Readable room (.bool b)
  | number {room : Nat} {n : Number} (h : n.ReadsBack) : Readable room (.number n)
  | string {room : Nat} (s : String) : Readable room (.string s)
  | array {room : Nat} {items : List Json} (h : ∀ item ∈ items, Readable room item) :
      Readable (room + 1) (.array items)
  | object {room : Nat} {members : List (String × Json)} (horder : InOrder members)
      (h : ∀ member ∈ members, Readable room member.2) : Readable (room + 1) (.object members)

mutual

theorem readable_of_isProper : (json : Json) → (room : Nat) → json.IsProper → json.depth ≤ room →
    (∀ x ∈ json.floats, (Number.float x).ReadsBack) → Readable room json
  | .null, _, _, _, _ => .null
  | .bool b, _, _, _, _ => .bool b
  | .string s, _, _, _, _ => .string s
  | .number (.int n), _, h, _, _ => .number (readsBack_int (by simpa only [IsProper] using h))
  | .number (.float x), _, _, _, hfloats => .number (hfloats x (by
      rw [floats]
      exact List.mem_singleton_self x))
  -- A value that holds others has depth, so there is room for one level more.
  | .array items, 0, _, hdepth, _ => by
      rw [depth] at hdepth
      exact absurd hdepth (Nat.not_succ_le_zero _)
  | .array items, room + 1, h, hdepth, hfloats => by
      rw [depth] at hdepth
      rw [floats] at hfloats
      rw [IsProper] at h
      exact .array (readable_items items room h (Nat.le_of_succ_le_succ hdepth) hfloats)
  | .object members, 0, _, hdepth, _ => by
      rw [depth] at hdepth
      exact absurd hdepth (Nat.not_succ_le_zero _)
  | .object members, room + 1, h, hdepth, hfloats => by
      rw [depth] at hdepth
      rw [floats] at hfloats
      rw [IsProper] at h
      exact .object h.1
        (readable_members members room h.2 (Nat.le_of_succ_le_succ hdepth) hfloats)

theorem readable_items : (items : List Json) → (room : Nat) → ItemsProper items →
    itemsDepth items ≤ room → (∀ x ∈ itemsFloats items, (Number.float x).ReadsBack) →
    ∀ item ∈ items, Readable room item
  | [], _, _, _, _ => fun item hi => absurd hi List.not_mem_nil
  | item :: items, room, h, hdepth, hfloats => by
      rw [itemsDepth] at hdepth
      rw [itemsFloats] at hfloats
      rw [ItemsProper] at h
      have hitem := readable_of_isProper item room h.1 (Nat.le_trans (Nat.le_max_left _ _) hdepth)
        fun x hx => hfloats x (List.mem_append_left _ hx)
      have hitems := readable_items items room h.2 (Nat.le_trans (Nat.le_max_right _ _) hdepth)
        fun x hx => hfloats x (List.mem_append_right _ hx)
      exact List.forall_mem_cons.mpr ⟨hitem, hitems⟩

theorem readable_members : (members : List (String × Json)) → (room : Nat) →
    MembersProper members → membersDepth members ≤ room →
    (∀ x ∈ membersFloats members, (Number.float x).ReadsBack) →
    ∀ member ∈ members, Readable room member.2
  | [], _, _, _, _ => fun member hm => absurd hm List.not_mem_nil
  | (name, value) :: members, room, h, hdepth, hfloats => by
      rw [membersDepth] at hdepth
      rw [membersFloats] at hfloats
      rw [MembersProper] at h
      have hvalue := readable_of_isProper value room h.1
        (Nat.le_trans (Nat.le_max_left _ _) hdepth)
        fun x hx => hfloats x (List.mem_append_left _ hx)
      have hmembers := readable_members members room h.2
        (Nat.le_trans (Nat.le_max_right _ _) hdepth)
        fun x hx => hfloats x (List.mem_append_right _ hx)
      exact List.forall_mem_cons.mpr ⟨hvalue, hmembers⟩

end

/-! ### Sorted members -/

theorem mem_insert {name : String} {value : Json} {members : List (String × Json)}
    {member : String × Json} (h : member ∈ insert name value members) :
    member = (name, value) ∨ member ∈ members := by
  induction members with
  | nil => exact .inl (List.mem_singleton.mp h)
  | cons first rest ih =>
      rw [insert] at h
      split at h
      · exact List.mem_cons.mp h
      · split at h
        · exact (List.mem_cons.mp h).imp_right (List.mem_cons_of_mem first)
        · rcases List.mem_cons.mp h with rfl | h
          · exact .inr List.mem_cons_self
          · exact (ih h).imp_right (List.mem_cons_of_mem first)

theorem InOrder.insert {members : List (String × Json)} (h : InOrder members) (name : String)
    (value : Json) : InOrder (Json.insert name value members) := by
  induction members with
  | nil => exact List.pairwise_singleton _ _
  | cons first rest ih =>
      obtain ⟨hfirst, hrest⟩ := List.pairwise_cons.mp h
      rw [Json.insert]
      split
      · rename_i hlt
        refine List.pairwise_cons.mpr ⟨?_, h⟩
        intro other ho
        rcases List.mem_cons.mp ho with rfl | ho
        · exact hlt
        · exact hlt.trans (hfirst other ho)
      · rename_i hge
        split
        -- the new member takes the place of the one with its name
        · rename_i heq
          exact List.pairwise_cons.mpr ⟨fun other ho => heq ▸ hfirst other ho, hrest⟩
        · rename_i hne
          refine List.pairwise_cons.mpr ⟨?_, ih hrest⟩
          intro other ho
          obtain ⟨member, hmember, rfl⟩ := List.mem_map.mp ho
          rcases mem_insert hmember with rfl | hmember
          · exact lt_of_le_of_ne (not_lt.mp hge) (Ne.symm hne)
          · exact hfirst member.1 (List.mem_map_of_mem hmember)

theorem insert_eq_append {members : List (String × Json)} {name : String}
    (h : ∀ member ∈ members, member.1 < name) (value : Json) :
    insert name value members = members ++ [(name, value)] := by
  induction members with
  | nil => rfl
  | cons first rest ih =>
      have hfirst := h first List.mem_cons_self
      rw [insert, if_neg hfirst.not_gt, if_neg hfirst.ne', List.cons_append,
        ih fun member hm => h member (List.mem_cons_of_mem first hm)]

/-- Members that stand in order are sorted. -/
theorem sorted_of_inOrder {members : List (String × Json)} (h : InOrder members) :
    sorted members = .object members := by
  have hrun (done : List (String × Json)) (horder : InOrder (done ++ members)) :
      members.foldl (fun done member => insert member.1 member.2 done) done = done ++ members := by
    induction members generalizing done with
    | nil => exact (List.append_nil done).symm
    | cons member rest ih =>
        have hlt : ∀ other ∈ done, other.1 < member.1 := by
          intro other ho
          rw [InOrder, List.map_append] at horder
          exact (List.pairwise_append.mp horder).2.2 other.1 (List.mem_map_of_mem ho) member.1
            List.mem_cons_self
        rw [List.foldl_cons, insert_eq_append hlt, ih (List.pairwise_cons.mp h).2]
        · rw [List.append_assoc, List.singleton_append]
        · rwa [List.append_assoc, List.singleton_append]
  rw [sorted, hrun [] h, List.nil_append]

/-- Sorting puts members in order, and adds none. -/
theorem exists_sorted_eq (members : List (String × Json)) :
    ∃ ordered, sorted members = .object ordered ∧ InOrder ordered ∧
      ∀ member ∈ ordered, member ∈ members := by
  have hrun (done : List (String × Json)) (horder : InOrder done) :
      InOrder (members.foldl (fun done member => insert member.1 member.2 done) done) ∧
        ∀ member ∈ members.foldl (fun done member => insert member.1 member.2 done) done,
          member ∈ done ∨ member ∈ members := by
    induction members generalizing done with
    | nil => exact ⟨horder, fun member hm => .inl hm⟩
    | cons first rest ih =>
        obtain ⟨horder', hmem⟩ := ih (insert first.1 first.2 done) (horder.insert first.1 first.2)
        refine ⟨horder', fun member hm => ?_⟩
        rcases hmem member hm with hm | hm
        · rcases mem_insert hm with rfl | hm
          · exact .inr List.mem_cons_self
          · exact .inl hm
        · exact .inr (List.mem_cons_of_mem first hm)
  obtain ⟨horder, hmem⟩ := hrun [] List.Pairwise.nil
  exact ⟨_, rfl, horder, fun member hm =>
    (hmem member hm).resolve_left fun hnil => absurd hnil List.not_mem_nil⟩

/-- An object made by sorting is readable if all its members are. -/
theorem readable_sorted {room : Nat} {members : List (String × Json)}
    (h : ∀ member ∈ members, Readable room member.2) : Readable (room + 1) (sorted members) := by
  obtain ⟨ordered, heq, horder, hmem⟩ := exists_sorted_eq members
  rw [heq]
  exact .object horder fun member hm => h member (hmem member hm)

@[simp] theorem lookup_cons_eq {β : Type} (name : String) (value : β) (members : List (String × β))
    (key : String) : ((name, value) :: members).lookup key =
      if key = name then some value else members.lookup key := by
  rw [List.lookup_cons]
  by_cases h : key = name
  · rw [if_pos h, beq_iff_eq.mpr h]
  · rw [if_neg h, beq_eq_false_iff_ne.mpr h]

theorem lookup_insert (name : String) (value : Json) (members : List (String × Json))
    (key : String) : (insert name value members).lookup key =
      if key = name then some value else members.lookup key := by
  induction members with
  | nil => exact lookup_cons_eq name value [] key
  | cons first rest ih =>
      rw [insert]
      split
      · exact lookup_cons_eq name value (first :: rest) key
      · split
        · rename_i heq
          rw [lookup_cons_eq, lookup_cons_eq, heq]
          split <;> rfl
        · rename_i hne
          rw [lookup_cons_eq, lookup_cons_eq, ih]
          by_cases hkey : key = name
          · subst hkey
            simp only [hne, if_true, if_false]
          · simp only [hkey, if_false]

/-- Of two members with one name the later counts. -/
theorem lookup_sorted (members : List (String × Json)) (key : String) :
    (members.foldl (fun done member => insert member.1 member.2 done) []).lookup key =
      members.reverse.lookup key := by
  have hrun (done : List (String × Json)) :
      (members.foldl (fun done member => insert member.1 member.2 done) done).lookup key =
        (members.reverse ++ done).lookup key := by
    induction members generalizing done with
    | nil => rfl
    | cons member rest ih =>
        rw [List.foldl_cons, ih, List.reverse_cons, List.append_assoc, List.lookup_append,
          List.lookup_append, lookup_insert, List.singleton_append, lookup_cons_eq]
  rw [hrun [], List.append_nil]

end Json

end Wireframe
