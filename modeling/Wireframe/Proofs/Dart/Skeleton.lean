/-
Code up to its texts.

The skeleton of an expression or an outline is what is left of it when all its texts are empty.
Code that is written from trees with one skeleton is alike, whatever the texts are, as long as no
piece of raw code leaves a literal open.

* `isWhole` — raw code on one line that leaves no literal open, and trees of nothing else;
* `skeleton` — trees without their texts;
* `Expr.alike_write`, `Outline.alike_write` — what is written from a tree and from its skeleton;
* `Outline.alike_writeAll_of_skeletons` — what is written from two trees with one skeleton.
-/
import Wireframe.Proofs.Dart.Masking

namespace Wireframe.Dart

/-! ### Raw code -/

/-- Raw code on one line that leaves no literal open. -/
def isWhole (code : String) : Bool :=
  Mode.code.after code.toList == .code && code.toList.all (!Text.isControl ·)

theorem isWhole_iff {code : String} : isWhole code ↔
    Mode.code.after code.toList = .code ∧ ∀ c ∈ code.toList, Text.isControl c = false := by
  simp [isWhole]

/-- A character that opens no literal and is no control character. -/
def isPlain (c : Char) : Bool := c != '\'' && !Text.isControl c

theorem isWhole_of_isPlain {code : String} (h : ∀ c ∈ code.toList, isPlain c) : isWhole code := by
  have hplain : ∀ c ∈ code.toList, c ≠ '\'' ∧ Text.isControl c = false := by
    intro c hc
    simpa [isPlain] using h c hc
  refine isWhole_iff.mpr ⟨Mode.after_code ?_, fun c hc => (hplain c hc).2⟩
  intro hquote
  exact (hplain _ hquote).1 rfl

@[simp] theorem isWhole_append {a b : String} (ha : isWhole a) (hb : isWhole b) :
    isWhole (a ++ b) := by
  rw [isWhole_iff] at *
  rw [String.toList_append, Mode.after_append, ha.1, hb.1]
  exact ⟨rfl, List.forall_mem_append.mpr ⟨ha.2, hb.2⟩⟩

theorem alike_of_isWhole {code : String} (h : isWhole code) : Alike code.toList code.toList :=
  .refl (isWhole_iff.mp h).1

/-! ### Pieces -/

namespace Piece

/-- The piece leaves no literal open. -/
@[simp] def isWhole : Piece → Bool
  | raw code => Dart.isWhole code
  | quoted _ => true

/-- A piece without its text. -/
@[simp] def skeleton : Piece → Piece
  | raw code => raw code
  | quoted _ => quoted ""

theorem alike_write {piece : Piece} (h : piece.isWhole) :
    Alike piece.write piece.skeleton.write := by
  cases piece with
  | raw code => exact alike_of_isWhole h
  | quoted text => exact alike_quote text ""

end Piece

theorem alike_writePieces {pieces : List Piece} (h : pieces.all Piece.isWhole) :
    Alike (writePieces pieces) (writePieces (pieces.map Piece.skeleton)) := by
  rw [writePieces, writePieces, List.flatMap_map]
  exact Alike.flatMap fun piece hp => Piece.alike_write (List.all_eq_true.mp h piece hp)

theorem alike_blanks (n : Nat) : Alike (List.replicate n ' ') (List.replicate n ' ') := by
  refine .refl (Mode.after_code ?_)
  intro h
  exact absurd (List.eq_of_mem_replicate h) (by decide)

theorem alike_newLine (n : Nat) : Alike (newLine n) (newLine n) :=
  (alike_blanks n).cons (by decide)

/-! ### Expressions -/

namespace Expr

mutual

/-- No raw code of the expression leaves a literal open. -/
@[simp] def isWhole : Expr → Bool
  | .inline pieces => pieces.all Piece.isWhole
  | .closure statements => statements.all (·.all Piece.isWhole)
  | .named label value => Dart.isWhole label && isWhole value
  | .call head args => Dart.isWhole head && areWhole args
  | .list items => areWhole items

/-- No raw code of the expressions leaves a literal open. -/
@[simp] def areWhole : List Expr → Bool
  | [] => true
  | e :: rest => isWhole e && areWhole rest

end

mutual

/-- An expression without its texts. -/
@[simp] def skeleton : Expr → Expr
  | .inline pieces => .inline (pieces.map Piece.skeleton)
  | .closure statements => .closure (statements.map (·.map Piece.skeleton))
  | .named label value => .named label (skeleton value)
  | .call head args => .call head (skeletons args)
  | .list items => .list (skeletons items)

/-- Expressions without their texts. -/
@[simp] def skeletons : List Expr → List Expr
  | [] => []
  | e :: rest => skeleton e :: skeletons rest

end

theorem skeletons_eq_map (es : List Expr) : skeletons es = es.map skeleton := by
  induction es with
  | nil => rfl
  | cons e es ih => rw [skeletons, ih, List.map_cons]

theorem alike_closure {statements : List (List Piece)}
    (h : statements.all (·.all Piece.isWhole)) (n : Nat) :
    Alike ((closure statements).write n) ((closure statements).skeleton.write n) := by
  have lines := Alike.flatMap (l := statements)
    (f := fun s => newLine (n + 2) ++ writePieces s ++ [';'])
    (g := fun s => newLine (n + 2) ++ writePieces (s.map Piece.skeleton) ++ [';'])
    fun s hs => ((alike_newLine (n + 2)).append
      (alike_writePieces (List.all_eq_true.mp h s hs))).append (.refl rfl)
  simp only [write, skeleton, List.flatMap_map]
  -- the head `() {`, the statements on lines of their own, and the closing brace
  refine .cons (by decide) (.cons (by decide) (.cons (by decide) (.cons (by decide) ?_)))
  exact (lines.append (alike_newLine n)).append (.refl rfl)

mutual

/-- What is written from an expression and from its skeleton. -/
theorem alike_write : (e : Expr) → e.isWhole → (n : Nat) → Alike (e.write n) (e.skeleton.write n)
  | .inline _, h, _ => by
      rw [isWhole] at h
      exact alike_writePieces h
  | .closure _, h, n => by
      rw [isWhole] at h
      exact alike_closure h n
  | .named label value, h, n => by
      rw [isWhole, Bool.and_eq_true] at h
      -- Code in a skeleton has its literals emptied, and the structure around them is the same.
      simp only [write, skeleton]
      exact (alike_of_isWhole h.1).append
        (.cons (by decide) (.cons (by decide) (alike_write value h.2 n)))
  | .call head [], h, n => by
      rw [isWhole, Bool.and_eq_true] at h
      simp only [write, skeleton, skeletons]
      exact (alike_of_isWhole h.1).append (.refl rfl)
  | .call head (arg :: args), h, n => by
      rw [isWhole, Bool.and_eq_true] at h
      have lines := alike_writeLines (arg :: args) h.2 (n + 2)
      simp only [write, skeleton, skeletons] at lines ⊢
      exact (((alike_of_isWhole h.1).append (.cons (by decide) lines)).append
        (alike_newLine n)).append (.refl rfl)
  | .list [], _, n => by
      simp only [write, skeleton, skeletons]
      exact .refl rfl
  | .list (item :: items), h, n => by
      rw [isWhole] at h
      have lines := alike_writeLines (item :: items) h (n + 2)
      simp only [write, skeleton, skeletons] at lines ⊢
      exact ((Alike.cons (by decide) lines).append (alike_newLine n)).append (.refl rfl)

/-- What is written from expressions below each other and from their skeletons. -/
theorem alike_writeLines : (es : List Expr) → areWhole es → (n : Nat) →
    Alike (writeLines n es) (writeLines n (skeletons es))
  | [], _, _ => .refl rfl
  | e :: rest, h, n => by
      rw [areWhole, Bool.and_eq_true] at h
      simp only [writeLines, skeletons]
      exact ((alike_newLine n).append (alike_write e h.1 n)).append
        (.cons (by decide) (alike_writeLines rest h.2 n))

end

end Expr

/-! ### Outlines -/

namespace Outline

mutual

/-- No raw code of the outline leaves a literal open. -/
@[simp] def isWhole : Outline → Bool
  | .blank => true
  | .line pieces => pieces.all Piece.isWhole
  | .item value => value.isWhole
  | .group heads body tail => heads.all (Dart.isWhole ·.1) && areWhole body && Dart.isWhole tail

/-- No raw code of the outlines leaves a literal open. -/
@[simp] def areWhole : List Outline → Bool
  | [] => true
  | outline :: rest => isWhole outline && areWhole rest

end

mutual

/-- An outline without its texts. -/
@[simp] def skeleton : Outline → Outline
  | .blank => .blank
  | .line pieces => .line (pieces.map Piece.skeleton)
  | .item value => .item value.skeleton
  | .group heads body tail => .group heads (skeletons body) tail

/-- Outlines without their texts. -/
@[simp] def skeletons : List Outline → List Outline
  | [] => []
  | outline :: rest => skeleton outline :: skeletons rest

end

theorem skeletons_eq_map (outlines : List Outline) :
    skeletons outlines = outlines.map skeleton := by
  induction outlines with
  | nil => rfl
  | cons o rest ih => rw [skeletons, ih, List.map_cons]

theorem skeletons_append (a b : List Outline) :
    skeletons (a ++ b) = skeletons a ++ skeletons b := by
  rw [skeletons_eq_map, skeletons_eq_map, skeletons_eq_map, List.map_append]

theorem alike_writeHeads {heads : List (String × Bracket)}
    (h : heads.all (Dart.isWhole ·.1)) : Alike (writeHeads heads) (writeHeads heads) := by
  refine Alike.flatMap ?_
  intro head hm
  have hwhole := List.all_eq_true.mp h head hm
  refine (alike_of_isWhole hwhole).append (.refl ?_)
  cases head.2 <;> rfl

theorem alike_writeClosing (heads : List (String × Bracket)) :
    Alike (writeClosing heads) (writeClosing heads) := by
  refine .refl (Mode.after_code ?_)
  intro h
  obtain ⟨head, -, hc⟩ := List.mem_map.mp h
  cases hb : head.2 <;> rw [hb] at hc <;> exact absurd hc (by decide)

mutual

/-- What is written from an outline and from its skeleton. -/
theorem alike_write : (o : Outline) → o.isWhole → (n : Nat) → Alike (o.write n) (o.skeleton.write n)
  | .blank, _, _ => .refl rfl
  | .line _, h, n => by
      rw [isWhole] at h
      simp only [write, skeleton]
      exact ((alike_blanks n).append (alike_writePieces h)).append (.refl rfl)
  | .item value, h, n => by
      rw [isWhole] at h
      simp only [write, skeleton]
      exact ((alike_blanks n).append (value.alike_write h n)).append (.refl rfl)
  | .group heads body tail, h, n => by
      rw [isWhole, Bool.and_eq_true, Bool.and_eq_true] at h
      obtain ⟨⟨hheads, hbody⟩, htail⟩ := h
      have lines := alike_writeAll body hbody (n + 2)
      simp only [write, skeleton]
      have opened := ((alike_blanks n).append (alike_writeHeads hheads)).append
        (.cons (c := '\n') (by decide) lines)
      have closed := ((opened.append (alike_blanks n)).append (alike_writeClosing heads)).append
        (alike_of_isWhole htail)
      exact closed.append (.refl rfl)

/-- What is written from outlines below each other and from their skeletons. -/
theorem alike_writeAll : (os : List Outline) → areWhole os → (n : Nat) →
    Alike (writeAll n os) (writeAll n (skeletons os))
  | [], _, _ => .refl rfl
  | o :: rest, h, n => by
      rw [areWhole, Bool.and_eq_true] at h
      simp only [writeAll, skeletons]
      exact (alike_write o h.1 n).append (alike_writeAll rest h.2 n)

end

/-- What is written from two lists of outlines with one skeleton. -/
theorem alike_writeAll_of_skeletons {a b : List Outline} (ha : areWhole a) (hb : areWhole b)
    (h : skeletons a = skeletons b) (n : Nat) : Alike (writeAll n a) (writeAll n b) := by
  have hright := alike_writeAll b hb n
  rw [← h] at hright
  exact (alike_writeAll a ha n).trans hright.symm

end Outline

end Wireframe.Dart
