/-
Expressions that are moved to the right.

An expression has no empty line, so to move it is to widen its line breaks, and that is what writing
it at a level does.  So whatever stands inside of an expression could as well be written at the left
margin and moved to its place, one layer after the other.

* `Solid`, `hang` — code without empty lines, and code with wider line breaks;
* `Solid.joinWith_mapTail_shift`, `IsTidy.nest_eq_hang` — the two ways to move such code;
* `Expr.solid_write`, `Expr.write_add` — expressions have no empty lines;
* `Expr.isTidy_write`, `Expr.write_eq_nest` — expressions at a level are moved there;
* `Expr.writeLines_eq_nest` — what stands between brackets is moved to its line;
* `Expr.parts` — an expression and everything that stands in it;
* `rows`, `Outline.writeAll_items` — expressions one below the other.
-/
import Wireframe.Proofs.Dart.Closed
import Wireframe.Proofs.Dart.Indentation
import Wireframe.Proofs.Dart.Lines

namespace Wireframe.Dart

open Text

/-! ### Code without empty lines -/

/-- Code without an empty line, except that the first one may be empty. -/
inductive Solid : List Char → Prop
  | nil : Solid []
  | cons {c : Char} {cs : List Char} (hc : c ≠ '\n') (h : Solid cs) : Solid (c :: cs)
  | lineFeed {c : Char} {cs : List Char} (hc : c ≠ '\n') (h : Solid (c :: cs)) :
      Solid ('\n' :: c :: cs)

/-- Code with the given number of blanks behind every line break. -/
def hang (n : Nat) (code : List Char) : List Char :=
  code.flatMap fun c => if c = '\n' then newLine n else [c]

section Hang

variable {n : Nat} {cs : List Char}

theorem hang_append (n : Nat) (a b : List Char) : hang n (a ++ b) = hang n a ++ hang n b :=
  List.flatMap_append

theorem hang_cons {c : Char} (hc : c ≠ '\n') : hang n (c :: cs) = c :: hang n cs := by
  rw [hang, List.flatMap_cons, if_neg hc]
  rfl

theorem hang_lineFeed (n : Nat) (cs : List Char) : hang n ('\n' :: cs) = newLine n ++ hang n cs := by
  rw [hang, List.flatMap_cons, if_pos rfl, hang]

theorem hang_of_not_mem (h : '\n' ∉ cs) : hang n cs = cs := by
  induction cs with
  | nil => rfl
  | cons c cs ih =>
    obtain ⟨hc, hcs⟩ := not_or.mp (List.mem_cons.not.mp h)
    rw [hang_cons (fun e => hc e.symm), ih hcs]

theorem hang_newLine (n k : Nat) : hang n (newLine k) = newLine (n + k) := by
  have hblanks : '\n' ∉ List.replicate k ' ' := Outline.newLine_not_mem_margin k
  rw [newLine, hang_lineFeed, hang_of_not_mem hblanks, newLine, newLine, List.cons_append,
    List.replicate_append_replicate]

/-- A line of its own with a single character behind other lines. -/
theorem hang_close {c : Char} (hc : c ≠ '\n') (n k : Nat) (lines : List Char) :
    hang n (lines ++ newLine k ++ [c]) = hang n lines ++ newLine (n + k) ++ [c] := by
  rw [hang_append, hang_append, hang_newLine, hang_cons hc]
  rfl

end Hang

namespace Solid

variable {n : Nat} {cs es : List Char}

theorem append (hc : Solid cs) (he : Solid es) : Solid (cs ++ es) := by
  induction hc with
  | nil => exact he
  | cons hc _ ih => exact .cons hc ih
  | lineFeed hc _ ih => exact .lineFeed hc ih

theorem of_not_mem (h : '\n' ∉ cs) : Solid cs := by
  induction cs with
  | nil => exact .nil
  | cons c cs ih =>
    obtain ⟨hc, hcs⟩ := not_or.mp (List.mem_cons.not.mp h)
    exact .cons (fun e => hc e.symm) (ih hcs)

theorem of_isWhole {code : String} (h : isWhole code) : Solid code.toList :=
  .of_not_mem (newLine_not_mem (isWhole_iff.mp h).2)

theorem writePieces {pieces : List Piece} (h : pieces.all Piece.isWhole) :
    Solid (writePieces pieces) :=
  .of_not_mem (newLine_not_mem fun _ => isControl_of_mem_writePieces h)

/-- A line break with something else behind its blanks. -/
theorem lineBreak {c : Char} (hc : c ≠ '\n') (h : Solid cs) : Solid (newLine n ++ c :: cs) := by
  cases n with
  | zero => exact .lineFeed hc (.cons hc h)
  | succ n =>
    have hblanks : Solid (List.replicate n ' ') := .of_not_mem (Outline.newLine_not_mem_margin n)
    exact .lineFeed (by decide) (.cons (by decide) (hblanks.append (.cons hc h)))

/-- A line break with something behind it that is moved to the right. -/
theorem lineBreak_succ (h : Solid cs) : Solid (newLine (n + 1) ++ cs) := by
  have hblanks : Solid (List.replicate n ' ') := .of_not_mem (Outline.newLine_not_mem_margin n)
  exact .lineFeed (by decide) (.cons (by decide) (hblanks.append h))

theorem flatMap {α : Type} {f : α → List Char} {l : List α} (h : ∀ a ∈ l, Solid (f a)) :
    Solid (l.flatMap f) :=
  flatMap_of_append .nil .append h

theorem getLast?_ne (h : Solid cs) : cs.getLast? ≠ some '\n' := by
  induction h with
  | nil => simp
  | @cons c cs hc _ ih =>
    rw [List.getLast?_cons]
    cases hlast : cs.getLast? with
    | none => simpa using hc
    | some d =>
      rw [hlast] at ih
      exact ih
  | lineFeed _ _ ih =>
    rw [List.getLast?_cons_cons]
    exact ih

theorem isTidy (h : Solid cs) (hreturn : '\r' ∉ cs) : IsTidy cs := ⟨hreturn, h.getLast?_ne⟩

/-- To move the lines is to widen the line breaks. -/
theorem joinWith_mapTail_shift (h : Solid cs) :
    joinWith ['\n'] (mapTail (shift n) (fields '\n' cs)) = hang n cs := by
  induction h with
  | nil => rfl
  | @cons c cs hc _ ih =>
    obtain ⟨first, others, hfirst, hfields⟩ := exists_fields_cons hc cs
    rw [hfirst, mapTail] at ih
    rw [hfields, hang_cons hc, ← ih, mapTail]
    exact joinWith_append_cons [c] first _
  | @lineFeed c cs hc _ ih =>
    obtain ⟨first, others, -, hfields⟩ := exists_fields_cons hc cs
    have hne : c :: first ≠ [] := List.cons_ne_nil _ _
    rw [hfields, mapTail] at ih
    rw [fields, if_pos rfl, mapTail, hfields, List.map_cons, shift, if_neg hne, joinWith,
      joinWith_append_cons, ih, hang_lineFeed]
    rfl

end Solid

theorem IsTidy.nest_eq_hang {code : List Char} (h : IsTidy code) (hsolid : Solid code) (n : Nat) :
    nest n code = hang n code := by
  rw [h.nest_eq, hsolid.joinWith_mapTail_shift]

/-- Code that starts with a line is moved as the rest of its lines are. -/
theorem IsTidy.indent_cons {c : Char} {code : List Char} (h : IsTidy (c :: code)) (hc : c ≠ '\n')
    (n : Nat) : indent n (c :: code) = Outline.margin n ++ nest n (c :: code) := by
  obtain ⟨first, others, -, hfields⟩ := exists_fields_cons hc code
  have hne : c :: first ≠ [] := List.cons_ne_nil _ _
  rw [h.indent_eq, h.nest_eq, hfields, List.map_cons, shift, if_neg hne, joinWith_append_cons,
    mapTail]

/-! ### Expressions -/

namespace Expr

theorem solid_closure {statements : List (List Piece)} (h : statements.all (·.all Piece.isWhole))
    (k : Nat) : Solid ((closure statements).write k) := by
  have hlines : Solid (statements.flatMap
      fun s => newLine (k + 2) ++ writePieces s ++ [';']) := by
    refine .flatMap ?_
    intro s hs
    have hpieces : Solid (writePieces s) := .writePieces (List.all_eq_true.mp h s hs)
    exact (Solid.lineBreak_succ hpieces).append (.of_not_mem (by decide))
  have hhead : Solid ['(', ')', ' ', '\x7b'] := .of_not_mem (by decide)
  have hend : Solid (newLine k ++ ['\x7d']) := .lineBreak (by decide) .nil
  rw [write, List.append_assoc]
  exact hhead.append (hlines.append hend)

mutual

/-- An expression has no empty line. -/
theorem solid_write : (e : Expr) → e.isWhole → (k : Nat) → Solid (e.write k)
  | .inline _, h, _ => by
      rw [isWhole] at h
      exact .writePieces h
  | .closure _, h, k => by
      rw [isWhole] at h
      exact solid_closure h k
  | .named label value, h, k => by
      rw [isWhole, Bool.and_eq_true] at h
      exact (Solid.of_isWhole h.1).append
        (.cons (by decide) (.cons (by decide) (solid_write value h.2 k)))
  | .call head [], h, _ => by
      rw [isWhole, Bool.and_eq_true] at h
      exact (Solid.of_isWhole h.1).append (.of_not_mem (by decide))
  -- Every line of the arguments has a margin of at least two blanks, so that none is empty.
  | .call head (arg :: args), h, k => by
      rw [isWhole, Bool.and_eq_true] at h
      have hlines : Solid (writeLines (k + 2) (arg :: args)) := solid_writeLines _ h.2 (k + 1)
      rw [write, List.append_assoc, List.append_assoc]
      exact (Solid.of_isWhole h.1).append
        (.cons (by decide) (hlines.append (.lineBreak (by decide) .nil)))
  | .list [], _, _ => .cons (by decide) (.cons (by decide) .nil)
  | .list (item :: items), h, k => by
      rw [isWhole] at h
      have hlines : Solid (writeLines (k + 2) (item :: items)) := solid_writeLines _ h (k + 1)
      rw [write, List.append_assoc]
      exact .cons (by decide) (hlines.append (.lineBreak (by decide) .nil))

theorem solid_writeLines : (es : List Expr) → areWhole es → (k : Nat) →
    Solid (writeLines (k + 1) es)
  | [], _, _ => .nil
  | e :: rest, h, k => by
      rw [areWhole, Bool.and_eq_true] at h
      rw [writeLines, List.append_assoc]
      exact .lineBreak_succ ((solid_write e h.1 (k + 1)).append
        (.cons (by decide) (solid_writeLines rest h.2 k)))

end

theorem write_closure_add {statements : List (List Piece)}
    (h : statements.all (·.all Piece.isWhole)) (n k : Nat) :
    (closure statements).write (n + k) = hang n ((closure statements).write k) := by
  have hlines : hang n (statements.flatMap
      fun s => newLine (k + 2) ++ writePieces s ++ [';']) =
      statements.flatMap fun s => newLine (n + k + 2) ++ writePieces s ++ [';'] := by
    rw [hang, List.flatMap_assoc]
    refine List.flatMap_congr ?_
    intro s hs
    have hpieces := newLine_not_mem fun _ =>
      isControl_of_mem_writePieces (List.all_eq_true.mp h s hs)
    rw [← hang, hang_append, hang_append, hang_newLine, hang_of_not_mem hpieces]
    rfl
  rw [write, write, hang_close (by decide), hang_cons (by decide), hang_cons (by decide),
    hang_cons (by decide), hang_cons (by decide), hlines]

mutual

/-- An expression that is written further to the right has wider line breaks. -/
theorem write_add : (e : Expr) → e.isWhole → (n k : Nat) → e.write (n + k) = hang n (e.write k)
  -- Code in a line has no breaks, so that nothing in it hangs.
  | .inline _, h, _, _ => by
      rw [isWhole] at h
      exact (hang_of_not_mem (newLine_not_mem fun _ => isControl_of_mem_writePieces h)).symm
  | .closure _, h, n, k => by
      rw [isWhole] at h
      exact write_closure_add h n k
  | .named label value, h, n, k => by
      rw [isWhole, Bool.and_eq_true] at h
      have hlabel := newLine_not_mem (isWhole_iff.mp h.1).2
      rw [write, write, hang_append, hang_of_not_mem hlabel, hang_cons (by decide),
        hang_cons (by decide), write_add value h.2]
  | .call head [], h, n, _ => by
      rw [isWhole, Bool.and_eq_true] at h
      have hhead := newLine_not_mem (isWhole_iff.mp h.1).2
      rw [write, write, hang_append, hang_of_not_mem hhead, hang_of_not_mem (by decide)]
  -- The arguments stand deeper by two, whatever the depth of the call.
  | .call head (arg :: args), h, n, k => by
      rw [isWhole, Bool.and_eq_true] at h
      have hhead := newLine_not_mem (isWhole_iff.mp h.1).2
      rw [write, write, hang_close (by decide), hang_append, hang_of_not_mem hhead,
        hang_cons (by decide), ← write_addLines _ h.2]
      rfl
  | .list [], _, n, _ => rfl
  | .list (item :: items), h, n, k => by
      rw [isWhole] at h
      rw [write, write, hang_close (by decide), hang_cons (by decide), ← write_addLines _ h]
      rfl

theorem write_addLines : (es : List Expr) → areWhole es → (n k : Nat) →
    writeLines (n + k) es = hang n (writeLines k es)
  | [], _, _, _ => rfl
  | e :: rest, h, n, k => by
      rw [areWhole, Bool.and_eq_true] at h
      rw [writeLines, writeLines, hang_append, hang_append, hang_newLine, write_add e h.1,
        hang_cons (by decide), write_addLines rest h.2]

end

/-! Code that closes what it opens holds no control characters but line feeds. -/

theorem isTidy_write {e : Expr} (h : e.isClosed) (k : Nat) : IsTidy (e.write k) := by
  refine (e.solid_write (e.isWhole_of_isClosed h) k).isTidy ?_
  intro hreturn
  exact absurd ((e.closed_write h k).control _ hreturn (by decide)) (by decide)

/-- To write an expression at a level is to write it at the left margin and to move it there. -/
theorem write_eq_nest {e : Expr} (h : e.isClosed) (n : Nat) : e.write n = nest n (e.write 0) := by
  have hwhole := e.isWhole_of_isClosed h
  rw [(isTidy_write h 0).nest_eq_hang (e.solid_write hwhole 0), ← e.write_add hwhole, Nat.add_zero]

/-- The lines between brackets are expressions that are moved. -/
theorem writeLines_eq_nest {es : List Expr} (h : areClosed es) (n : Nat) :
    writeLines n es =
      es.flatMap fun e => newLine n ++ nest n (e.write 0) ++ [','] := by
  induction es with
  | nil => rfl
  | cons e rest ih =>
    rw [areClosed, Bool.and_eq_true] at h
    rw [writeLines, write_eq_nest h.1, ih h.2, List.flatMap_cons, List.append_assoc,
      List.append_assoc, List.append_assoc, List.singleton_append]

mutual

/-- An expression and everything that stands in it. -/
def parts : Expr → List Expr
  | .inline pieces => [.inline pieces]
  | .closure statements => [.closure statements]
  | .named label value => .named label value :: parts value
  | .call head args => .call head args :: partsAll args
  | .list items => .list items :: partsAll items

/-- Expressions and everything that stands in them. -/
def partsAll : List Expr → List Expr
  | [] => []
  | e :: rest => parts e ++ partsAll rest

end

mutual

theorem isClosed_of_mem_parts : (e : Expr) → e.isClosed → ∀ part ∈ e.parts, part.isClosed
  | .inline _, h => List.forall_mem_singleton.mpr h
  | .closure _, h => List.forall_mem_singleton.mpr h
  | .named label value, h => by
      refine List.forall_mem_cons.mpr ⟨h, isClosed_of_mem_parts value ?_⟩
      rw [isClosed, Bool.and_eq_true] at h
      exact h.2
  | .call head args, h => by
      refine List.forall_mem_cons.mpr ⟨h, isClosed_of_mem_partsAll args ?_⟩
      rw [isClosed, Bool.and_eq_true] at h
      exact h.2
  | .list items, h => by
      refine List.forall_mem_cons.mpr ⟨h, isClosed_of_mem_partsAll items ?_⟩
      rwa [isClosed] at h

theorem isClosed_of_mem_partsAll : (es : List Expr) → areClosed es →
    ∀ part ∈ partsAll es, part.isClosed
  | [], _ => List.forall_mem_nil _
  | e :: rest, h => by
      rw [areClosed, Bool.and_eq_true] at h
      exact List.forall_mem_append.mpr
        ⟨isClosed_of_mem_parts e h.1, isClosed_of_mem_partsAll rest h.2⟩

end

/-- A call starts a line. -/
theorem exists_cons_write_call {head : String} {args : List Expr} (h : (call head args).isWhole)
    (k : Nat) : ∃ c cs, c ≠ '\n' ∧ (call head args).write k = c :: cs := by
  rw [isWhole, Bool.and_eq_true] at h
  have hhead := newLine_not_mem (isWhole_iff.mp h.1).2
  have hwrite : ∃ cs, (call head args).write k = head.toList ++ '(' :: cs := by
    cases args with
    | nil => exact ⟨_, rfl⟩
    | cons arg args => exact ⟨_, by rw [write, List.append_assoc, List.append_assoc]; rfl⟩
  obtain ⟨cs, hcs⟩ := hwrite
  rw [hcs]
  cases hcode : head.toList with
  | nil => exact ⟨_, _, by decide, rfl⟩
  | cons c rest =>
    rw [hcode] at hhead
    exact ⟨c, _, fun e => hhead (e ▸ List.mem_cons_self), rfl⟩

end Expr

/-! ### Expressions one below the other -/

/-- Expressions one below the other, with commas between them. -/
def rows (es : List Expr) : List Char := [',', '\n'].intercalate (es.map (Expr.write 0))

theorem rows_singleton (e : Expr) : rows [e] = e.write 0 := by
  rw [rows, List.map_singleton, List.intercalate_singleton]

theorem rows_cons_cons (e next : Expr) (rest : List Expr) :
    rows (e :: next :: rest) = e.write 0 ++ ',' :: '\n' :: rows (next :: rest) := by
  rw [rows, List.map_cons, List.map_cons, List.intercalate_cons_cons, List.append_assoc]
  rfl

/-- Expressions that are calls, and that close what they open. -/
def AreClosedCalls (es : List Expr) : Prop :=
  ∀ e ∈ es, e.isClosed ∧ ∃ head args, e = .call head args

section Rows

variable {es : List Expr}

theorem solid_rows (h : AreClosedCalls es) (hne : es ≠ []) :
    ∃ c cs, c ≠ '\n' ∧ rows es = c :: cs ∧ Solid (c :: cs) := by
  induction es with
  | nil => exact absurd rfl hne
  | cons e rest ih =>
    obtain ⟨⟨hclosed, head, args, rfl⟩, hrest⟩ := List.forall_mem_cons.mp h
    have hwhole := Expr.isWhole_of_isClosed _ hclosed
    obtain ⟨c, cs, hc, hcs⟩ := Expr.exists_cons_write_call hwhole 0
    have hfirst : Solid (c :: cs) := hcs ▸ Expr.solid_write _ hwhole 0
    cases rest with
    | nil => exact ⟨c, cs, hc, by rw [rows_singleton, hcs], hfirst⟩
    | cons next rest =>
      obtain ⟨d, ds, hd, hds, hsolid⟩ := ih hrest (List.cons_ne_nil _ _)
      refine ⟨c, cs ++ ',' :: '\n' :: d :: ds, hc, by rw [rows_cons_cons, hcs, hds]; rfl, ?_⟩
      exact hfirst.append (.cons (by decide) (.lineFeed hd hsolid))

theorem return_not_mem_rows (h : AreClosedCalls es) : '\r' ∉ rows es := by
  induction es with
  | nil => exact List.not_mem_nil
  | cons e rest ih =>
    obtain ⟨⟨hclosed, -⟩, hrest⟩ := List.forall_mem_cons.mp h
    have he := (Expr.isTidy_write hclosed 0).noReturn
    cases rest with
    | nil => rwa [rows_singleton]
    | cons next rest =>
      rw [rows_cons_cons, List.mem_append, List.mem_cons, List.mem_cons, not_or, not_or, not_or]
      exact ⟨he, by decide, by decide, ih hrest⟩

theorem isTidy_rows (h : AreClosedCalls es) (hne : es ≠ []) : IsTidy (rows es) := by
  obtain ⟨c, cs, -, hrows, hsolid⟩ := solid_rows h hne
  exact (hrows ▸ hsolid).isTidy (return_not_mem_rows h)

namespace Outline

theorem writeAll_items_eq_hang (h : AreClosedCalls es) (hne : es ≠ []) (n : Nat) :
    writeAll n (es.map .item) = margin n ++ hang n (rows es) ++ [',', '\n'] := by
  induction es with
  | nil => exact absurd rfl hne
  | cons e rest ih =>
    obtain ⟨⟨hclosed, -⟩, hrest⟩ := List.forall_mem_cons.mp h
    have he : e.write n = hang n (e.write 0) := e.write_add (e.isWhole_of_isClosed hclosed) n 0
    cases rest with
    | nil =>
      rw [List.map_singleton, writeAll, writeAll, List.append_nil, write, he, rows_singleton]
    | cons next rest =>
      rw [List.map_cons, writeAll, ih hrest (List.cons_ne_nil _ _), rows_cons_cons, hang_append,
        write, hang_cons (by decide), hang_lineFeed, he]
      simp only [newLine, margin, List.append_assoc, List.cons_append, List.nil_append]

/-- Expressions one below the other are written as the text that they make, moved to the right. -/
theorem writeAll_items (h : AreClosedCalls es) (hne : es ≠ []) (n : Nat) :
    writeAll n (es.map .item) = indent n (rows es) ++ [',', '\n'] := by
  obtain ⟨c, cs, hc, hrows, hsolid⟩ := solid_rows h hne
  have htidy := isTidy_rows h hne
  rw [writeAll_items_eq_hang h hne]
  rw [hrows] at htidy ⊢
  rw [htidy.indent_cons hc, htidy.nest_eq_hang hsolid]

end Outline

end Rows

end Wireframe.Dart
