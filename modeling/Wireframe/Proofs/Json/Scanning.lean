/-
How far readers of values reach.

A reader of values passes over blanks and then takes the symbols of one value, which starts with
something that closes no array.

* `Scans` — readers of values;
* `scans_readText`, `scans_readFloat`, `scans_readInt32` — texts and numbers;
* `scans_optional` — values that may be `null`.
-/
import Wireframe.Proofs.Json.Extent

namespace Wireframe.Json

open Source

variable {α β : Type}

/-! ### Readers of values -/

/-- Something starts here that closes no array. -/
def OpensValue : Source → Prop
  | [] => False
  | symbol :: _ => symbol ≠ .char ']'

/-- A reader that passes over blanks and takes a value, which starts with something that closes no
array. -/
structure Scans (read : Source → Except Problem (α × Source)) : Prop where
  skips (source : Source) : read (skipSpace source) = read source
  starts {source rest : Source} {a : α} (h : read source = .ok (a, rest)) :
    ∃ symbol taken, skipSpace source = symbol :: (taken ++ rest) ∧ symbol ≠ .char ']' ∧
      ∀ other, Alike rest other → read (symbol :: (taken ++ other)) = .ok (a, other)

namespace Scans

variable {read : Source → Except Problem (α × Source)}

theorem nil (h : Scans read) (result : α × Source) : read [] ≠ .ok result := by
  intro hread
  obtain ⟨symbol, taken, hsource, -⟩ := h.starts hread
  cases hsource

theorem takes (h : Scans read) {source rest : Source} {a : α}
    (hread : read source = .ok (a, rest)) : Takes read source (a, ·) rest := by
  obtain ⟨symbol, taken, hsource, -, hother⟩ := h.starts hread
  exact .blanks h.skips ⟨symbol :: taken, hsource, hother⟩

/-- What is read of a source stands there as a text that can be read alone. -/
theorem exists_text (h : Scans read) {source rest : Source} {a : α}
    (hread : read source = .ok (a, rest)) :
    ∃ text, source = text ++ rest ∧ read text = .ok (a, []) := by
  obtain ⟨text, hsource, hother⟩ := h.takes hread
  refine ⟨text, hsource, ?_⟩
  have halone := hother [] (ends_nil.alike rest)
  rwa [List.append_nil] at halone

/-- What can be read alone is read in front of anything that no number goes on with. -/
theorem append (h : Scans read) {text other : Source} {a : α} (hread : read text = .ok (a, []))
    (hother : Ends other) : read (text ++ other) = .ok (a, other) := by
  obtain ⟨taken, htext, hread⟩ := h.takes hread
  rw [htext, List.append_nil]
  exact hread other (hother.alike [])

theorem of_cons (hskips : ∀ source, read (skipSpace source) = read source)
    (hnil : ∀ result, read [] ≠ .ok result)
    (hcons : ∀ {symbol tail rest a}, skipSpace (symbol :: tail) = symbol :: tail →
      read (symbol :: tail) = .ok (a, rest) →
        symbol ≠ .char ']' ∧ Takes read (symbol :: tail) (a, ·) rest) : Scans read where
  skips := hskips
  starts {source rest a} hread := by
    have hsame := skipSpace_skipSpace source
    rw [← hskips] at hread
    cases hsource : skipSpace source with
    | nil =>
      rw [hsource] at hread
      exact absurd hread (hnil _)
    | cons symbol tail =>
      rw [hsource] at hread hsame
      obtain ⟨hsymbol, htakes⟩ := hcons hsame hread
      obtain ⟨first, taken, htail, hother⟩ := htakes.exists_cons hnil
      obtain ⟨rfl, rfl⟩ := List.cons_eq_cons.mp htail
      exact ⟨symbol, taken, rfl, hsymbol, hother⟩

/-- What is made of a value leaves alone what stands behind it. -/
theorem bind {f : α × Source → Except Problem (β × Source)} (h : Scans read)
    (hf : ∀ {a left b rest}, f (a, left) = .ok (b, rest) →
      left = rest ∧ ∀ other, f (a, other) = .ok (b, other)) :
    Scans (fun source => read source >>= f) where
  skips source := by rw [h.skips]
  starts {source rest b} hresult := by
    obtain ⟨⟨a, left⟩, hread, hb⟩ := bind_eq_ok.mp hresult
    obtain ⟨rfl, hf⟩ := hf hb
    obtain ⟨symbol, taken, hsource, hsymbol, hother⟩ := h.starts hread
    exact ⟨symbol, taken, hsource, hsymbol, fun other halike =>
      bind_eq_ok.mpr ⟨_, hother other halike, hf other⟩⟩

end Scans

theorem scans_readText (room : Nat) : Scans (readText room) := by
  refine .of_cons (fun source => ?_) nofun fun {symbol tail rest text} hsame h => ?_
  · simp only [readText, skipSpace_skipSpace]
  · unfold readText at h
    rw [hsame] at h
    split at h
    · rename_i heq
      cases heq
      exact ⟨by decide, (takes_readString h).cons fun _ => rfl⟩
    · cases h

theorem scans_readAnyNumber (room : Nat) : Scans (readAnyNumber room) := by
  refine .of_cons (fun source => ?_) nofun fun {symbol tail rest n} hsame h => ?_
  · simp only [readAnyNumber, skipSpace_skipSpace]
  · unfold readAnyNumber at h
    rw [hsame] at h
    split at h
    · rename_i c _ heq
      cases heq
      split at h
      · rename_i hc
        refine ⟨?_, (takes_readNumber h).of_cons nofun fun source => ?_⟩
        · rintro ⟨⟩
          cases hc
        · unfold readAnyNumber
          rw [skipSpace_of_eq_cons hsame]
          exact if_pos hc
      · cases h
    · cases h

theorem scans_readFloat (room : Nat) : Scans (readFloat room) := by
  refine (scans_readAnyNumber room).bind fun h => ?_
  cases h
  exact ⟨rfl, fun _ => rfl⟩

theorem scans_readInt32 (room : Nat) : Scans (readInt32 room) := by
  refine (scans_readAnyNumber room).bind fun {n left i rest} h => ?_
  cases n with
  | float x => cases h
  | int n =>
    dsimp only at h ⊢
    split at h
    · rename_i hrange
      cases h
      exact ⟨rfl, fun other => if_pos hrange⟩
    · cases h

theorem scans_optional {inner : Reader α} {room : Nat} (h : Scans (inner room)) :
    Scans (optional inner room) := by
  refine .of_cons (fun source => ?_) (fun result hread => ?_)
    fun {symbol tail rest a} hsame hread => ?_
  · simp only [optional, skipSpace_skipSpace]
  · obtain ⟨read, hinner, -⟩ := bind_eq_ok.mp hread
    exact h.nil read hinner
  · unfold optional at hread
    rw [hsame] at hread
    -- The word `null` gives nothing; all else is left to the inner reader.
    split at hread
    · rename_i heq
      cases heq
      obtain ⟨left, hword, hread⟩ := bind_eq_ok.mp hread
      cases hread
      refine ⟨by decide, Takes.cons ?_ fun _ => rfl⟩
      exact (takes_expectWord hword).map fun _ => rfl
    · rename_i hnull
      obtain ⟨⟨b, left⟩, hinner, hread⟩ := bind_eq_ok.mp hread
      cases hread
      obtain ⟨first, taken, hsource, hsymbol, hother⟩ := h.starts hinner
      rw [hsame] at hsource
      obtain ⟨rfl, rfl⟩ := List.cons_eq_cons.mp hsource
      -- What is taken opens with the same symbol, so that it is not taken for `null` either.
      refine ⟨hsymbol, symbol :: taken, rfl, fun other halike => ?_⟩
      unfold optional
      rw [List.cons_append, skipSpace_of_eq_cons hsame]
      split
      · rename_i heq
        cases heq
        exact absurd rfl (hnull _)
      · exact bind_eq_ok.mpr ⟨_, hother other halike, rfl⟩

end Wireframe.Json
