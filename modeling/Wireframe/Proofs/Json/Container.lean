/-
Arrays and objects that are read back.

A written value stands on a line of its own or behind the name of a member, and a comma or a line
break follows it.  What reads it passes over blanks first, so where it starts does not matter.

* `ReadsAs` — a reader makes a given thing of a written value;
* `ReadsAs.listOf` — arrays;
* `exists_readItems_array`, `exists_readMembers_object` — items and members, in front of anything;
* `nextName_first`, `nextName_next`, `nextName_done` — the steps from one member to the next.
-/
import Wireframe.Proofs.Json.Value

namespace Wireframe.Json

open Source

/-! ### Values in their places -/

/-- The first character of a value, which is no blank and closes no array. -/
def StartsValue : List Char → Prop
  | [] => False
  | c :: _ => isSpace c = false ∧ c ≠ ']'

/-- A reader makes `a` of the written value, wherever the value starts and as long as something
stands behind it that no value goes on with. -/
structure ReadsAs {α : Type} (read : Source → Except Problem (α × Source)) (json : Json) (a : α) :
    Prop where
  starts (level : Nat) : StartsValue (writePretty level json)
  reads (level : Nat) {source rest : Source}
    (hsource : skipSpace source = ofChars (writePretty level json) ++ rest) (hrest : Stops rest) :
    read source = .ok (a, rest)

theorem skipSpace_blanks {blanks : List Char} (h : ∀ c ∈ blanks, isSpace c = true)
    (source : Source) : skipSpace (ofChars blanks ++ source) = skipSpace source := by
  induction blanks with
  | nil => rfl
  | cons c blanks ih =>
      rw [ofChars_cons, List.cons_append, skipSpace, if_pos (h c List.mem_cons_self)]
      exact ih fun d hd => h d (List.mem_cons_of_mem c hd)

theorem skipSpace_newLine (level : Nat) (source : Source) :
    skipSpace (ofChars (newLine level) ++ source) = skipSpace source := by
  refine skipSpace_blanks ?_ source
  intro c hc
  rcases List.mem_cons.mp hc with rfl | hc
  · rfl
  · rw [List.eq_of_mem_replicate hc]
    rfl

theorem skipSpace_of_startsValue {cs : List Char} (h : StartsValue cs) (rest : Source) :
    skipSpace (ofChars cs ++ rest) = ofChars cs ++ rest := by
  match cs, h with
  | c :: cs, h =>
      rw [ofChars_cons, List.cons_append, skipSpace, if_neg (Bool.eq_false_iff.mp h.1)]

theorem skipSpace_quote (name : String) (rest : Source) :
    skipSpace (ofChars (quote name) ++ rest) = ofChars (quote name) ++ rest :=
  skipSpace_of_startsValue (by exact ⟨rfl, by decide⟩) rest

/-- A line break stops a number. -/
theorem stops_newLine (level : Nat) (rest : Source) : Stops (ofChars (newLine level) ++ rest) :=
  .inr rfl

/-! ### Items -/

section Items

variable {α β : Type} {read : Source → Except Problem (β × Source)} {f : α → Json} {g : α → β}
  {as : List α}

theorem nextItem_done (first : Bool) (level : Nat) (rest : Source) :
    nextItem first (ofChars (newLine level) ++ .char ']' :: rest) = .ok (.done rest) := by
  rw [nextItem, skipSpace_newLine]
  rfl

theorem nextItem_first {cs : List Char} (h : StartsValue cs) (level : Nat) (rest : Source) :
    nextItem true (ofChars (newLine level) ++ (ofChars cs ++ rest)) =
      .ok (.more () (ofChars cs ++ rest)) := by
  rw [nextItem, skipSpace_newLine, skipSpace_of_startsValue h]
  match cs, h with
  | c :: cs, h =>
      simp only [ofChars_cons, List.cons_append, if_neg h.2, if_true]

theorem nextItem_next {cs : List Char} (h : StartsValue cs) (level : Nat) (rest : Source) :
    nextItem false (.char ',' :: (ofChars (newLine level) ++ (ofChars cs ++ rest))) =
      .ok (.more () (ofChars cs ++ rest)) := by
  have hcomma (source : Source) : skipSpace (.char ',' :: source) = .char ',' :: source := rfl
  have hbracket : ¬ ',' = ']' := by decide
  simp only [nextItem, hcomma, hbracket, if_false, if_true, Bool.false_eq_true, skipSpace_newLine,
    skipSpace_of_startsValue h]
  match cs, h with
  | c :: cs, h =>
      simp only [ofChars_cons, List.cons_append]
      split
      · rename_i heq
        cases heq
      · rename_i heq
        cases heq
        exact absurd rfl h.2
      · rfl

/-- What stands behind an item stops it. -/
theorem stops_writeItems (level outer : Nat) (items : List Json) (rest : Source) :
    Stops (ofChars (writeItems level items) ++ (ofChars (newLine outer) ++ rest)) := by
  cases items with
  | nil =>
      rw [writeItems]
      exact stops_newLine outer rest
  | cons item items =>
      rw [writeItems]
      exact .inl rfl

theorem length_le_writeItems (level : Nat) (items : List Json) :
    items.length ≤ (writeItems level items).length := by
  induction items with
  | nil => exact Nat.zero_le _
  | cons item items ih =>
      rw [writeItems]
      simp only [List.length_cons, List.length_append]
      omega

theorem readItems_writeItems (h : ∀ a ∈ as, ReadsAs read (f a) (g a)) (level outer : Nat)
    (rest : Source) {fuel : Nat} (hfuel : as.length < fuel) :
    readItems read false fuel (ofChars (writeItems level (as.map f)) ++
      (ofChars (newLine outer) ++ .char ']' :: rest)) = .ok (as.map g, rest) := by
  induction as generalizing fuel with
  | nil =>
      obtain ⟨fuel, rfl⟩ := Nat.exists_eq_add_one_of_ne_zero (Nat.ne_zero_of_lt hfuel)
      rw [List.map_nil, writeItems, ofChars_nil, List.nil_append, readItems, nextItem_done]
      rfl
  | cons a as ih =>
      obtain ⟨fuel, rfl⟩ := Nat.exists_eq_add_one_of_ne_zero (Nat.ne_zero_of_lt hfuel)
      obtain ⟨ha, has⟩ := List.forall_mem_cons.mp h
      have hread := ha.reads level (skipSpace_of_startsValue (ha.starts level) _)
        (stops_writeItems level outer (as.map f) (.char ']' :: rest))
      have hitems := ih has (Nat.lt_of_succ_lt_succ hfuel)
      rw [List.map_cons, writeItems]
      simp only [ofChars_cons, ofChars_append, List.cons_append, List.append_assoc]
      rw [readItems, nextItem_next (ha.starts level)]
      simp only [bind, Except.bind, hread, hitems]
      rfl

/-- The items of a written array are read back from behind its bracket. -/
theorem exists_readItems_array (h : ∀ a ∈ as, ReadsAs read (f a) (g a)) (level : Nat) :
    ∃ tail, writePretty level (.array (as.map f)) = '[' :: tail ∧
      ∀ rest, readItems read true ((ofChars tail ++ rest).length + 1) (ofChars tail ++ rest) =
        .ok (as.map g, rest) := by
  cases as with
  | nil =>
      refine ⟨[']'], rfl, ?_⟩
      intro rest
      rw [readItems]
      rfl
  | cons a as =>
      obtain ⟨ha, has⟩ := List.forall_mem_cons.mp h
      refine ⟨newLine (level + 1) ++ writePretty (level + 1) (f a) ++
        writeItems (level + 1) (as.map f) ++ newLine level ++ [']'], ?_, fun rest => ?_⟩
      · rw [List.map_cons, writePretty]
        simp only [List.cons_append]
      · have hread := ha.reads (level + 1)
          (skipSpace_of_startsValue (ha.starts (level + 1)) _)
          (stops_writeItems (level + 1) level (as.map f) (.char ']' :: rest))
        -- every item is preceded by a comma, so there are no more items than characters
        have hfuel := length_le_writeItems (level + 1) (as.map f)
        simp only [ofChars_cons, ofChars_nil, ofChars_append, List.append_assoc, List.cons_append,
          List.nil_append]
        rw [readItems, nextItem_first (ha.starts (level + 1))]
        simp only [bind, Except.bind, hread]
        rw [readItems_writeItems has (level + 1) level rest]
        · rfl
        · rw [List.length_map] at hfuel
          simp only [List.length_append, List.length_cons, length_ofChars]
          omega

/-- Arrays are read back item by item. -/
theorem ReadsAs.listOf {item : Reader β} {room : Nat}
    (h : ∀ a ∈ as, ReadsAs (item room) (f a) (g a)) :
    ReadsAs (Json.listOf item (room + 1)) (.array (as.map f)) (as.map g) where
  starts level := by
    cases as with
    | nil => exact ⟨rfl, by decide⟩
    | cons a as => exact ⟨rfl, by decide⟩
  reads level {source rest} hsource hrest := by
    obtain ⟨tail, htail, hitems⟩ := exists_readItems_array h level
    rw [htail] at hsource
    rw [Json.listOf, hsource]
    exact hitems rest

end Items

/-! ### Members -/

section Members

theorem nameAt_quote (name : String) (rest : Source) :
    nameAt (ofChars (quote name) ++ rest) = .ok (.more name rest) := by
  rw [quote, List.cons_append, ofChars_cons, List.cons_append, nameAt, ofChars_append,
    List.append_assoc]
  have hread := readString_quote name rest
  simp only [ofChars_cons, ofChars_nil, List.cons_append, List.nil_append, hread]
  rfl

theorem nextName_done (first : Bool) (level : Nat) (rest : Source) :
    nextName first (ofChars (newLine level) ++ .char '\x7d' :: rest) = .ok (.done rest) := by
  rw [nextName, skipSpace_newLine]
  rfl

theorem nextName_first (level : Nat) (name : String) (rest : Source) :
    nextName true (ofChars (newLine level) ++ (ofChars (quote name) ++ rest)) =
      .ok (.more name rest) := by
  rw [nextName, skipSpace_newLine, skipSpace_quote]
  exact nameAt_quote name rest

theorem nextName_next (level : Nat) (name : String) (rest : Source) :
    nextName false (.char ',' :: (ofChars (newLine level) ++ (ofChars (quote name) ++ rest))) =
      .ok (.more name rest) := by
  have hname := nameAt_quote name rest
  rw [← skipSpace_quote, ← skipSpace_newLine level] at hname
  exact hname

theorem skipSpace_behindColon {cs : List Char} (h : StartsValue cs) (rest : Source) :
    skipSpace (.char ' ' :: (ofChars cs ++ rest)) = ofChars cs ++ rest :=
  skipSpace_of_startsValue h rest

/-- What stands behind a member stops it. -/
theorem stops_writeMembers (level outer : Nat) (members : List (String × Json)) (rest : Source) :
    Stops (ofChars (writeMembers level members) ++ (ofChars (newLine outer) ++ rest)) := by
  cases members with
  | nil =>
      rw [writeMembers]
      exact stops_newLine outer rest
  | cons member members =>
      rw [writeMembers]
      exact .inl rfl

theorem length_le_writeMembers (level : Nat) (members : List (String × Json)) :
    members.length ≤ (writeMembers level members).length := by
  induction members with
  | nil => exact Nat.zero_le _
  | cons member members ih =>
      rw [writeMembers]
      simp only [List.length_cons, List.length_append]
      omega

theorem expectColon_colon (source : Source) : expectColon (.char ':' :: source) = .ok source := rfl

variable {read : Source → Except Problem (Json × Source)} {members : List (String × Json)}

theorem readMembers_writeMembers (h : ∀ member ∈ members, ReadsAs read member.2 member.2)
    (level outer : Nat) (rest : Source) {fuel : Nat} (hfuel : members.length < fuel) :
    readMembers read false fuel (ofChars (writeMembers level members) ++
      (ofChars (newLine outer) ++ .char '\x7d' :: rest)) = .ok (members, rest) := by
  induction members generalizing fuel with
  | nil =>
      obtain ⟨fuel, rfl⟩ := Nat.exists_eq_add_one_of_ne_zero (Nat.ne_zero_of_lt hfuel)
      rw [writeMembers, ofChars_nil, List.nil_append, readMembers, nextName_done]
      rfl
  | cons member members ih =>
      obtain ⟨fuel, rfl⟩ := Nat.exists_eq_add_one_of_ne_zero (Nat.ne_zero_of_lt hfuel)
      obtain ⟨name, value⟩ := member
      obtain ⟨hvalue, hmembers⟩ := List.forall_mem_cons.mp h
      -- the value ends where a comma or the line of the closing brace stops it
      have hread := hvalue.reads level (skipSpace_behindColon (hvalue.starts level) _)
        (stops_writeMembers level outer members (.char '\x7d' :: rest))
      have hrest := ih hmembers (Nat.lt_of_succ_lt_succ hfuel)
      rw [writeMembers]
      simp only [ofChars_cons, ofChars_append, List.cons_append, List.append_assoc]
      rw [readMembers, nextName_next]
      simp only [bind, Except.bind, expectColon_colon, hread, hrest]
      rfl

/-- What stands behind the brace of a written object that has members. -/
def objectTail (level : Nat) (name : String) (value : Json) (members : List (String × Json)) :
    List Char :=
  newLine (level + 1) ++ quote name ++ ':' :: ' ' :: writePretty (level + 1) value ++
    writeMembers (level + 1) members ++ newLine level ++ ['\x7d']

section Tails

variable (level : Nat) (name : String) (value : Json) (members : List (String × Json))

theorem writePretty_object_cons :
    writePretty level (.object ((name, value) :: members)) =
      '\x7b' :: objectTail level name value members := by
  rw [writePretty, objectTail]
  simp only [List.cons_append]

theorem ofChars_objectTail_append (rest : Source) :
    ofChars (objectTail level name value members) ++ rest =
      ofChars (newLine (level + 1)) ++ (ofChars (quote name) ++ .char ':' :: .char ' ' ::
        (ofChars (writePretty (level + 1) value) ++ (ofChars (writeMembers (level + 1) members) ++
          (ofChars (newLine level) ++ .char '\x7d' :: rest)))) := by
  simp only [objectTail, ofChars_cons, ofChars_nil, ofChars_append, List.append_assoc,
    List.cons_append, List.nil_append]

/-- There is a symbol for each member, and another one. -/
theorem length_lt_objectTail (rest : Source) :
    members.length < (ofChars (objectTail level name value members) ++ rest).length := by
  have hmembers := length_le_writeMembers (level + 1) members
  simp only [objectTail, List.length_append, List.length_cons, length_ofChars]
  omega

end Tails

/-- The members of a written object are read back from behind its brace. -/
theorem exists_readMembers_object (h : ∀ member ∈ members, ReadsAs read member.2 member.2)
    (level : Nat) : ∃ tail, writePretty level (.object members) = '\x7b' :: tail ∧
      ∀ rest, readMembers read true ((ofChars tail ++ rest).length + 1) (ofChars tail ++ rest) =
        .ok (members, rest) := by
  cases members with
  | nil =>
      refine ⟨['\x7d'], rfl, ?_⟩
      intro rest
      rw [readMembers]
      rfl
  | cons member members =>
      obtain ⟨name, value⟩ := member
      obtain ⟨hvalue, hmembers⟩ := List.forall_mem_cons.mp h
      refine ⟨_, writePretty_object_cons level name value members, fun rest => ?_⟩
      have hread := hvalue.reads (level + 1)
        (skipSpace_behindColon (hvalue.starts (level + 1)) _)
        (stops_writeMembers (level + 1) level members (.char '\x7d' :: rest))
      have hlength := length_lt_objectTail level name value members rest
      generalize (ofChars (objectTail level name value members) ++ rest).length = fuel at hlength ⊢
      rw [ofChars_objectTail_append, readMembers, nextName_first]
      simp only [bind, Except.bind, expectColon_colon, hread]
      rw [readMembers_writeMembers hmembers (level + 1) level rest hlength]
      rfl

end Members

end Wireframe.Json
