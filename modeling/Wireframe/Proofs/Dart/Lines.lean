/-
Code line by line.

The lines of written code are those of its outline: no literal and no piece of raw code breaks a
line, and an expression breaks its own lines only in front of blanks.  So what stands at the left
margin of a file is what the outline puts there.

* `isControl_of_mem_quote` — literals hold no control characters;
* `Hangs`, `Expr.hangs_write` — code of which every line but the first starts with blanks;
* `Outline.lines`, `Outline.fields_write` — the lines of an outline;
* `Outline.margin_of_mem_lines` — lines that are indented.
-/
import Wireframe.Proofs.Dart.Skeleton
import Wireframe.Proofs.Text.Words

namespace Wireframe.Dart

/-! ### Literals -/

theorem isControl_of_mem_hexText {n : Nat} {c : Char} (h : c ∈ hexText n) :
    Text.isControl c = false := by
  obtain ⟨d, hd, rfl⟩ := mem_hexText h
  have digits : ∀ d < 16, Text.isControl (Nat.digitChar d) = false := by decide
  exact digits d hd

theorem isControl_of_mem_escape {c d : Char} (h : d ∈ escape c) : Text.isControl d = false := by
  have hpair {x : Char} (hx : Text.isControl x = false) (h : d ∈ ['\\', x]) :
      Text.isControl d = false := by
    rcases List.mem_pair.mp h with rfl | rfl
    · decide
    · exact hx
  unfold escape at h
  split_ifs at h with _ _ _ _ _ _ hcontrol
  · exact hpair (by decide) h
  · exact hpair (by decide) h
  · exact hpair (by decide) h
  · exact hpair (by decide) h
  · exact hpair (by decide) h
  · exact hpair (by decide) h
  -- a code point stands in braces
  · rcases List.mem_append.mp h with h | h
    · simp only [List.mem_cons] at h
      rcases h with rfl | rfl | rfl | h
      · decide
      · decide
      · decide
      · exact isControl_of_mem_hexText h
    · rw [List.mem_singleton.mp h]
      decide
  · rw [List.mem_singleton.mp h]
    simpa using hcontrol

/-- A literal is written without control characters, whatever the text is. -/
theorem isControl_of_mem_quote {s : String} {c : Char} (h : c ∈ quote s) :
    Text.isControl c = false := by
  rcases List.mem_cons.mp h with rfl | h
  · decide
  rcases List.mem_append.mp h with h | h
  · obtain ⟨d, -, hc⟩ := List.mem_flatMap.mp h
    exact isControl_of_mem_escape hc
  · rw [List.mem_singleton.mp h]
    decide

theorem isControl_of_mem_writePieces {pieces : List Piece} (h : pieces.all Piece.isWhole) {c : Char}
    (hc : c ∈ writePieces pieces) : Text.isControl c = false := by
  obtain ⟨piece, hpiece, hc⟩ := List.mem_flatMap.mp hc
  have hwhole := List.all_eq_true.mp h piece hpiece
  cases piece with
  | raw code => exact (isWhole_iff.mp hwhole).2 c hc
  | quoted text => exact isControl_of_mem_quote hc

theorem newLine_not_mem {cs : List Char} (h : ∀ c ∈ cs, Text.isControl c = false) : '\n' ∉ cs := by
  intro hmem
  exact absurd (h _ hmem) (by decide)

/-! ### Expressions -/

/-- Every line but the first starts with the given number of blanks. -/
inductive Hangs (n : Nat) : List Char → Prop
  | nil : Hangs n []
  | cons {c : Char} {cs : List Char} (hc : c ≠ '\n') (h : Hangs n cs) : Hangs n (c :: cs)
  | newLine {cs : List Char} (h : Hangs n cs) : Hangs n (Dart.newLine n ++ cs)

namespace Hangs

variable {n k : Nat} {cs es : List Char}

theorem append (hc : Hangs n cs) (he : Hangs n es) : Hangs n (cs ++ es) := by
  induction hc with
  | nil => exact he
  | cons hc _ ih => exact .cons hc ih
  | newLine _ ih =>
    rw [List.append_assoc]
    exact .newLine ih

theorem of_not_mem (h : '\n' ∉ cs) : Hangs n cs := by
  induction cs with
  | nil => exact .nil
  | cons c cs ih =>
    obtain ⟨hc, hcs⟩ := not_or.mp (List.mem_cons.not.mp h)
    exact .cons (fun e => hc e.symm) (ih hcs)

theorem of_isWhole {code : String} (h : isWhole code) : Hangs n code.toList :=
  .of_not_mem (newLine_not_mem (isWhole_iff.mp h).2)

theorem writePieces {pieces : List Piece} (h : pieces.all Piece.isWhole) :
    Hangs n (writePieces pieces) :=
  .of_not_mem (newLine_not_mem fun _ => isControl_of_mem_writePieces h)

theorem blanks (k : Nat) : Hangs n (List.replicate k ' ') := by
  refine .of_not_mem ?_
  intro hmem
  exact absurd (List.eq_of_mem_replicate hmem) (by decide)

theorem lineBreak (h : n ≤ k) : Hangs n (Dart.newLine k) := by
  have hbreak : Dart.newLine k = Dart.newLine n ++ List.replicate (k - n) ' ' := by
    rw [Dart.newLine, Dart.newLine, List.cons_append, List.replicate_append_replicate,
      Nat.add_sub_cancel' h]
  rw [hbreak]
  exact .newLine (.blanks _)

theorem flatMap {α : Type} {f : α → List Char} {l : List α} (h : ∀ a ∈ l, Hangs n (f a)) :
    Hangs n (l.flatMap f) :=
  flatMap_of_append .nil .append h

/-- What stands in front of the first line break is added to the first line. -/
theorem fields_append {front : List Char} (hfront : '\n' ∉ front) (cs : List Char) :
    ∃ first others, Text.fields '\n' cs = first :: others ∧
      Text.fields '\n' (front ++ cs) = (front ++ first) :: others := by
  induction front with
  | nil =>
    cases hfields : Text.fields '\n' cs with
    | nil => exact absurd hfields (Text.fields_ne_nil cs)
    | cons first others => exact ⟨first, others, rfl, hfields⟩
  | cons c front ih =>
    obtain ⟨hc, hrest⟩ := not_or.mp (List.mem_cons.not.mp hfront)
    obtain ⟨first, others, hfirst, hfields⟩ := ih hrest
    refine ⟨first, others, hfirst, ?_⟩
    rw [List.cons_append, Text.fields, if_neg fun e => hc e.symm, hfields]
    rfl

/-- The lines after the first one. -/
theorem blanks_of_mem_tail (h : Hangs n cs) {line : List Char}
    (hline : line ∈ (Text.fields '\n' cs).tail) : List.replicate n ' ' <+: line := by
  induction h with
  | nil => cases hline
  | @cons c cs hc _ ih =>
    have hone : '\n' ∉ [c] := by simpa using fun e => hc e.symm
    obtain ⟨first, others, hfirst, hfields⟩ := fields_append hone cs
    rw [List.singleton_append] at hfields
    rw [hfields] at hline
    rw [hfirst] at ih
    exact ih hline
  | @newLine cs _ ih =>
    have hblanks : '\n' ∉ List.replicate n ' ' := by
      intro hmem
      exact absurd (List.eq_of_mem_replicate hmem) (by decide)
    obtain ⟨first, others, hfirst, hfields⟩ := fields_append hblanks cs
    rw [Dart.newLine, List.cons_append, Text.fields, if_pos rfl, List.tail_cons, hfields] at hline
    rw [hfirst] at ih
    rcases List.mem_cons.mp hline with rfl | hline
    · exact List.prefix_append _ _
    · exact ih hline

end Hangs

namespace Expr

theorem hangs_closure {statements : List (List Piece)} (h : statements.all (·.all Piece.isWhole))
    {n k : Nat} (hk : n ≤ k) : Hangs n ((closure statements).write k) := by
  have hlines : Hangs n (statements.flatMap
      fun s => newLine (k + 2) ++ writePieces s ++ [';']) := by
    refine .flatMap ?_
    intro s hs
    have hpieces : Hangs n (writePieces s) := .writePieces (List.all_eq_true.mp h s hs)
    exact ((Hangs.lineBreak (by omega)).append hpieces).append (.of_not_mem (by decide))
  have hhead : Hangs n ['(', ')', ' ', '\x7b'] := .of_not_mem (by decide)
  exact hhead.append ((hlines.append (.lineBreak hk)).append (.of_not_mem (by decide)))

mutual

/-- The lines of an expression start with as many blanks as those that it starts at. -/
theorem hangs_write {n : Nat} : (e : Expr) → e.isWhole → (k : Nat) → n ≤ k → Hangs n (e.write k)
  | .inline _, h, _, _ => by
      rw [isWhole] at h
      exact .writePieces h
  | .closure _, h, _, hk => by
      rw [isWhole] at h
      exact hangs_closure h hk
  | .named label value, h, k, hk => by
      rw [isWhole, Bool.and_eq_true] at h
      exact (Hangs.of_isWhole h.1).append
        (.cons (by decide) (.cons (by decide) (hangs_write value h.2 k hk)))
  | .call head [], h, _, _ => by
      rw [isWhole, Bool.and_eq_true] at h
      exact (Hangs.of_isWhole h.1).append (.of_not_mem (by decide))
  -- The lines of the arguments and the last one stand at least as deep as the call.
  | .call head (arg :: args), h, k, hk => by
      rw [isWhole, Bool.and_eq_true] at h
      have hlines : Hangs n (writeLines (k + 2) (arg :: args)) :=
        hangs_writeLines _ h.2 _ (by omega)
      exact (((Hangs.of_isWhole h.1).append (.cons (by decide) hlines)).append
        (.lineBreak hk)).append (.of_not_mem (by decide))
  | .list [], _, _, _ => .cons (by decide) (.cons (by decide) .nil)
  | .list (item :: items), h, k, hk => by
      rw [isWhole] at h
      have hlines : Hangs n (writeLines (k + 2) (item :: items)) :=
        hangs_writeLines _ h _ (by omega)
      exact ((Hangs.cons (by decide) hlines).append (.lineBreak hk)).append
        (.of_not_mem (by decide))

theorem hangs_writeLines {n : Nat} : (es : List Expr) → areWhole es → (k : Nat) → n ≤ k →
    Hangs n (writeLines k es)
  | [], _, _, _ => .nil
  | e :: rest, h, k, hk => by
      rw [areWhole, Bool.and_eq_true] at h
      exact ((Hangs.lineBreak hk).append (hangs_write e h.1 k hk)).append
        (.cons (by decide) (hangs_writeLines rest h.2 k hk))

end

end Expr

/-! ### Outlines -/

namespace Outline

mutual

/-- The lines of an outline. -/
def lines (indentation : Nat) : Outline → List (List Char)
  | .blank => [[]]
  | .line pieces => [margin indentation ++ writePieces pieces]
  | .item value => Text.fields '\n' (margin indentation ++ value.write indentation ++ [','])
  | .group heads body tail =>
      (margin indentation ++ writeHeads heads) :: linesAll (indentation + 2) body ++
        [margin indentation ++ writeClosing heads ++ tail.toList]

/-- The lines of outlines below each other. -/
def linesAll (indentation : Nat) : List Outline → List (List Char)
  | [] => []
  | outline :: rest => lines indentation outline ++ linesAll indentation rest

end

theorem linesAll_append (n : Nat) (a b : List Outline) :
    linesAll n (a ++ b) = linesAll n a ++ linesAll n b := by
  induction a with
  | nil => rfl
  | cons o rest ih => rw [List.cons_append, linesAll, linesAll, ih, List.append_assoc]

theorem writeAll_append (n : Nat) (a b : List Outline) :
    writeAll n (a ++ b) = writeAll n a ++ writeAll n b := by
  induction a with
  | nil => rfl
  | cons o rest ih => rw [List.cons_append, writeAll, writeAll, ih, List.append_assoc]

theorem linesAll_eq_flatMap (n : Nat) (outlines : List Outline) :
    linesAll n outlines = outlines.flatMap (lines n) := by
  induction outlines with
  | nil => rfl
  | cons o rest ih => rw [linesAll, ih, List.flatMap_cons]

theorem newLine_not_mem_margin (n : Nat) : '\n' ∉ margin n := by
  intro hmem
  exact absurd (List.eq_of_mem_replicate hmem) (by decide)

theorem newLine_not_mem_writeHeads {heads : List (String × Bracket)}
    (h : heads.all (Dart.isWhole ·.1)) : '\n' ∉ writeHeads heads := by
  refine newLine_not_mem ?_
  intro c hc
  obtain ⟨head, hhead, hc⟩ := List.mem_flatMap.mp hc
  rcases List.mem_append.mp hc with hc | hc
  · exact (isWhole_iff.mp (List.all_eq_true.mp h head hhead)).2 c hc
  · rw [List.mem_singleton.mp hc]
    cases head.2 <;> decide

theorem newLine_not_mem_writeClosing (heads : List (String × Bracket)) :
    '\n' ∉ writeClosing heads := by
  intro hmem
  obtain ⟨head, -, hc⟩ := List.mem_map.mp hmem
  cases hb : head.2 <;> rw [hb] at hc <;> exact absurd hc (by decide)

mutual

/-- The text of an outline, taken apart at its line breaks. -/
theorem fields_write : (o : Outline) → o.isWhole → (n : Nat) → (rest : List Char) →
    Text.fields '\n' (o.write n ++ rest) = o.lines n ++ Text.fields '\n' rest
  | .blank, _, _, rest => Text.fields_append_cons [] rest
  | .line pieces, h, n, rest => by
      rw [isWhole] at h
      -- A line of code has no break but the one at its end.
      have hline : '\n' ∉ margin n ++ writePieces pieces := by
        rw [List.mem_append, not_or]
        exact ⟨newLine_not_mem_margin n, newLine_not_mem fun _ => isControl_of_mem_writePieces h⟩
      rw [write, List.append_assoc, List.singleton_append, Text.fields_append_cons,
        Text.fields_of_not_mem hline]
      rfl
  -- An expression may take several lines, and the comma ends the last of them.
  | .item value, _, n, rest => by
      have hbreak : margin n ++ value.write n ++ [',', '\n'] ++ rest =
          (margin n ++ value.write n ++ [',']) ++ '\n' :: rest := by simp
      rw [write, hbreak, Text.fields_append_cons, lines]
  | .group heads body tail, h, n, rest => by
      rw [isWhole, Bool.and_eq_true, Bool.and_eq_true] at h
      obtain ⟨⟨hheads, hbody⟩, htail⟩ := h
      -- The first and the last line of a group have no breaks; between them are the lines of its
      -- body.
      have hfirst : '\n' ∉ margin n ++ writeHeads heads := by
        rw [List.mem_append, not_or]
        exact ⟨newLine_not_mem_margin n, newLine_not_mem_writeHeads hheads⟩
      have hlast : '\n' ∉ margin n ++ writeClosing heads ++ tail.toList := by
        rw [List.mem_append, List.mem_append, not_or, not_or]
        exact ⟨⟨newLine_not_mem_margin n, newLine_not_mem_writeClosing heads⟩,
          newLine_not_mem (isWhole_iff.mp htail).2⟩
      have hbreaks : (group heads body tail).write n ++ rest = (margin n ++ writeHeads heads) ++
          '\n' :: (writeAll (n + 2) body ++
            ((margin n ++ writeClosing heads ++ tail.toList) ++ '\n' :: rest)) := by
        simp [write]
      rw [hbreaks, Text.fields_append_cons, Text.fields_of_not_mem hfirst,
        fields_writeAll body hbody (n + 2), Text.fields_append_cons,
        Text.fields_of_not_mem hlast, lines]
      simp

theorem fields_writeAll : (os : List Outline) → areWhole os → (n : Nat) → (rest : List Char) →
    Text.fields '\n' (writeAll n os ++ rest) = linesAll n os ++ Text.fields '\n' rest
  | [], _, _, _ => rfl
  | o :: os, h, n, rest => by
      rw [areWhole, Bool.and_eq_true] at h
      rw [writeAll, List.append_assoc, fields_write o h.1 n, fields_writeAll os h.2 n, linesAll,
        List.append_assoc]

end

theorem isPrefix_margin {n k : Nat} (h : n ≤ k) : margin n <+: margin k := by
  refine ⟨margin (k - n), ?_⟩
  rw [margin, margin, margin, List.replicate_append_replicate, Nat.add_sub_cancel' h]

mutual

/-- The lines of an outline start with as many blanks as it is told to start them with. -/
theorem margin_of_mem_lines {n : Nat} : (o : Outline) → o.isWhole → (k : Nat) → n ≤ k →
    ∀ line ∈ o.lines k, line = [] ∨ margin n <+: line
  | .blank, _, _, _ => by simp [lines]
  | .line pieces, _, k, hk => by
      rw [lines, List.forall_mem_singleton]
      exact .inr ((isPrefix_margin hk).trans (List.prefix_append _ _))
  | .item value, h, k, hk => by
      rw [isWhole] at h
      -- Every line but the first begins as deep as the expression stands, and the first one with
      -- the margin.
      have hangs : Hangs n (value.write k ++ [',']) :=
        (value.hangs_write h k hk).append (.of_not_mem (by decide))
      obtain ⟨first, others, hfirst, hfields⟩ :=
        Hangs.fields_append (newLine_not_mem_margin k) (value.write k ++ [','])
      rw [lines, List.append_assoc, hfields]
      intro line hline
      rcases List.mem_cons.mp hline with rfl | hline
      · exact .inr ((isPrefix_margin hk).trans (List.prefix_append _ _))
      · refine .inr (hangs.blanks_of_mem_tail ?_)
        rwa [hfirst]
  | .group heads body tail, h, k, hk => by
      rw [isWhole, Bool.and_eq_true, Bool.and_eq_true] at h
      rw [lines, List.forall_mem_append, List.forall_mem_cons, List.forall_mem_singleton,
        List.append_assoc]
      exact ⟨⟨.inr ((isPrefix_margin hk).trans (List.prefix_append _ _)),
        margin_of_mem_linesAll body h.1.2 (k + 2) (by omega)⟩,
        .inr ((isPrefix_margin hk).trans (List.prefix_append _ _))⟩

theorem margin_of_mem_linesAll {n : Nat} : (os : List Outline) → areWhole os → (k : Nat) →
    n ≤ k → ∀ line ∈ linesAll k os, line = [] ∨ margin n <+: line
  | [], _, _, _ => List.forall_mem_nil _
  | o :: os, h, k, hk => by
      rw [areWhole, Bool.and_eq_true] at h
      rw [linesAll, List.forall_mem_append]
      exact ⟨margin_of_mem_lines o h.1 k hk, margin_of_mem_linesAll os h.2 k hk⟩

end

end Outline

end Wireframe.Dart
