/-
Answers in a Markdown fence.

A fence is three backticks, with an info string on the line of the first ones.  What stands in it is
read as if there were no fence, whatever it is: it may hold backticks or end with them, it may have
many lines, and it may be no good.

* `stripFence_eq_trim` — a text that begins no fence is trimmed;
* `stripFence_fenced` — a fence is taken off with everything that belongs to it;
* `readPayload_fenced` — an answer in a fence is read like the answer itself.
-/
import Wireframe.Proofs.Text.Trimming
import Wireframe.Sketch.Payload

namespace Wireframe.Sketch

open Text

theorem stripFence_eq_trim {cs : List Char} (h : ¬ fence <+: trimWhile isBlank cs) :
    stripFence cs = trimWhile isBlank cs := by
  have hnone : fence.isPrefixOf? (trimWhile isBlank cs) = none := by
    rw [Option.eq_none_iff_forall_ne_some]
    intro rest hrest
    exact h ⟨rest, List.isPrefixOf?_eq_some_iff_append_eq.mp hrest⟩
  rw [stripFence]
  simp only [hnone]

/-- A text that begins a fence is what stands behind its first line, without the closing fence. -/
theorem stripFence_of_fence {cs rest : List Char} (h : trimWhile isBlank cs = fence ++ rest) :
    stripFence cs = trimWhile isBlank
      ((fence.isSuffixOf? (dropEndWhile isBlank (afterFirstLine rest))).getD
        (afterFirstLine rest)) := by
  have hrest : fence.isPrefixOf? (trimWhile isBlank cs) = some rest :=
    List.isPrefixOf?_eq_some_iff_append_eq.mpr h.symm
  rw [stripFence]
  simp only [hrest]

theorem afterFirstLine_append {info : List Char} (h : '\n' ∉ info) (rest : List Char) :
    afterFirstLine (info ++ '\n' :: rest) = rest := by
  have hinfo : ∀ c ∈ info, decide (c ≠ '\n') = true := by
    intro c hc
    exact decide_eq_true fun hbreak => h (hbreak ▸ hc)
  have hline : (info ++ '\n' :: rest).dropWhile (· ≠ '\n') = '\n' :: rest := by
    rw [List.dropWhile_append_of_pos hinfo]
    rfl
  rw [afterFirstLine]
  simp only [hline]

/-- A closed text ends with its fence, so there is nothing to trim behind it. -/
theorem dropEndWhile_fence (cs : List Char) :
    dropEndWhile isBlank (cs ++ fence) = cs ++ fence := by
  rw [show cs ++ fence = (cs ++ ['`', '`']) ++ ['`'] by rw [List.append_assoc]; rfl]
  exact dropEndWhile_concat rfl _

/-- A fence is taken off with its info string and with everything that is blank around the text. -/
theorem stripFence_fenced {before info text behind after : List Char} (hinfo : '\n' ∉ info)
    (hbefore : ∀ c ∈ before, isBlank c = true) (hbehind : ∀ c ∈ behind, isBlank c = true)
    (hafter : ∀ c ∈ after, isBlank c = true) :
    stripFence (before ++ (fence ++ (info ++ '\n' :: (text ++ behind ++ fence))) ++ after) =
      trimWhile isBlank text := by
  have htrim : trimWhile isBlank
      (before ++ (fence ++ (info ++ '\n' :: (text ++ behind ++ fence))) ++ after) =
        fence ++ (info ++ '\n' :: (text ++ behind ++ fence)) := by
    rw [trimWhile_append hbefore hafter]
    -- the fenced text begins and ends with a backtick
    rw [show fence ++ (info ++ '\n' :: (text ++ behind ++ fence)) =
      '`' :: ('`' :: '`' :: (info ++ '\n' :: (text ++ behind ++ ['`', '`']))) ++ ['`'] by
        simp [fence]]
    exact trimWhile_of_ends rfl rfl _
  have hclosed : fence.isSuffixOf? (text ++ behind ++ fence) = some (text ++ behind) :=
    List.isSuffixOf?_eq_some_iff_append_eq.mpr rfl
  rw [stripFence_of_fence htrim, afterFirstLine_append hinfo, dropEndWhile_fence, hclosed]
  show trimWhile isBlank ([] ++ text ++ behind) = _
  exact trimWhile_append (List.forall_mem_nil _) hbehind text

/-- The end of a line: a line feed, which may follow a carriage return. -/
def IsLineEnd (text : String) : Prop := text = "\n" ∨ text = "\r\n"

/-- An answer in a fence is read like the answer itself, whether it is good or not. -/
theorem readPayload_fenced {text info before after first last : String}
    (htext : ¬ fence <+: trimWhile isBlank text.toList) (hinfo : '\n' ∉ info.toList)
    (hbefore : isBlankText before = true) (hafter : isBlankText after = true)
    (hfirst : IsLineEnd first) (hlast : IsLineEnd last) :
    readPayload (before ++ "```" ++ info ++ first ++ text ++ last ++ "```" ++ after) =
      readPayload text := by
  -- a carriage return at the end of the first line belongs to the info string
  obtain ⟨info', hinfo', hline⟩ : ∃ info', '\n' ∉ info' ∧
      info.toList ++ first.toList = info' ++ ['\n'] := by
    rcases hfirst with rfl | rfl
    · exact ⟨info.toList, hinfo, rfl⟩
    · refine ⟨info.toList ++ ['\r'], ?_, by rw [List.append_assoc]; rfl⟩
      simpa using hinfo
  have hbehind : ∀ c ∈ last.toList, isBlank c = true := by
    refine List.all_eq_true.mp ?_
    rcases hlast with rfl | rfl <;> rfl
  have hlist : (before ++ "```" ++ info ++ first ++ text ++ last ++ "```" ++ after).toList =
      before.toList ++ (fence ++ (info' ++ '\n' :: (text.toList ++ last.toList ++ fence))) ++
        after.toList := by
    have hfence : "```".toList = fence := rfl
    simp only [String.toList_append, hfence, List.append_assoc]
    rw [← List.append_assoc info.toList, hline]
    simp only [List.append_assoc, List.cons_append, List.nil_append]
  have hstrip : stripFence
      (before ++ "```" ++ info ++ first ++ text ++ last ++ "```" ++ after).toList =
        stripFence text.toList := by
    rw [hlist, stripFence_fenced hinfo' (List.all_eq_true.mp hbefore) hbehind
      (List.all_eq_true.mp hafter), stripFence_eq_trim htext]
  rw [readPayload, readPayload, hstrip]

/-- An answer of two lines in which a label shows a fence. -/
def fenceInLabel : String :=
  "\x7b\"boxes\": [\x7b\"kind\": \"Label\", \"text\": \"```\",\r\n" ++
    "\"bb\": \x7b\"x\": 1, \"y\": 2, \"w\": 3, \"h\": 4\x7d\x7d]\x7d"

theorem readPayload_fenced_fenceInLabel :
    ¬ fence <+: trimWhile isBlank fenceInLabel.toList ∧ '\n' ∉ "json".toList ∧
      isBlankText "\u3000\n" = true ∧ isBlankText " \t" = true ∧ IsLineEnd "\r\n" ∧
      IsLineEnd "\n" ∧ (readPayload fenceInLabel).isOk = true ∧
      readPayload ("\u3000\n" ++ "```" ++ "json" ++ "\r\n" ++ fenceInLabel ++ "\n" ++ "```" ++
        " \t") = readPayload fenceInLabel := by
  have htext : ¬ fence <+: trimWhile isBlank fenceInLabel.toList := by decide +kernel
  exact ⟨htext, by decide, by decide, by decide, Or.inr rfl, Or.inl rfl, by decide +kernel,
    readPayload_fenced htext (by decide) (by decide) (by decide) (Or.inr rfl) (Or.inl rfl)⟩

end Wireframe.Sketch
