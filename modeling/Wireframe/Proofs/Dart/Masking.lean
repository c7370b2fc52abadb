/-
Code without its texts.

A reader that knows nothing of code but its literals stands in code, inside a literal, or behind a
backslash in one: a quote opens a literal, a backslash takes the next character with it, and the
next quote closes it.  Masked code keeps both quotes of a literal and nothing between them.  What such a
reader finds in written code is what was meant as a text, whatever the text is.

* `Mode`, `Mode.after` — where the reader stands, and where it stands some characters later;
* `mask` — masked code;
* `Alike` — two stretches of code that are the same once they are masked;
* `alike_quote` — all texts are alike when they are quoted.
-/
import Mathlib.Data.List.Basic
import Wireframe.Dart.Outline

namespace Wireframe.Dart

/-! ### Readers -/

/-- Where a reader of code stands. -/
inductive Mode
  /-- In code. -/
  | code
  /-- Inside a literal. -/
  | literal
  /-- Behind a backslash in a literal. -/
  | escape
deriving DecidableEq, Repr

namespace Mode

/-- Where the reader stands after a character. -/
def next : Mode → Char → Mode
  | code, c => if c = '\'' then literal else code
  | literal, c => if c = '\\' then escape else if c = '\'' then code else literal
  | escape, _ => literal

/-- Where the reader stands after some characters. -/
def after (mode : Mode) (cs : List Char) : Mode := cs.foldl next mode

/-- The character is kept when code is masked. -/
def keeps : Mode → Char → Bool
  | code, _ => true
  | literal, c => c == '\''
  | escape, _ => false

@[simp] theorem after_nil (mode : Mode) : mode.after [] = mode := rfl

@[simp] theorem after_cons (mode : Mode) (c : Char) (cs : List Char) :
    mode.after (c :: cs) = (mode.next c).after cs := rfl

theorem after_append (mode : Mode) (cs es : List Char) :
    mode.after (cs ++ es) = (mode.after cs).after es := List.foldl_append

end Mode

/-- The characters that masking keeps. -/
def maskFrom : Mode → List Char → List Char
  | _, [] => []
  | mode, c :: cs =>
      if mode.keeps c then c :: maskFrom (mode.next c) cs else maskFrom (mode.next c) cs

/-- Code with nothing between the quotes of its literals. -/
def mask (code : String) : String := String.ofList (maskFrom .code code.toList)

example : mask "f('it\\'s', g('$\x7bx\x7d'))" = "f('', g(''))" := by decide +kernel

theorem maskFrom_append (mode : Mode) (cs es : List Char) :
    maskFrom mode (cs ++ es) = maskFrom mode cs ++ maskFrom (mode.after cs) es := by
  induction cs generalizing mode with
  | nil => rfl
  | cons c cs ih =>
      simp only [List.cons_append, maskFrom, Mode.after_cons, ih]
      by_cases hc : mode.keeps c <;> simp [hc]

/-- Without a quote the reader stays in code. -/
theorem Mode.after_code {cs : List Char} (h : '\'' ∉ cs) : Mode.code.after cs = .code := by
  induction cs with
  | nil => rfl
  | cons c cs ih =>
      obtain ⟨hc, hcs⟩ := not_or.mp (List.mem_cons.not.mp h)
      rw [after_cons, next, if_neg fun e => hc e.symm]
      exact ih hcs

/-- What holds of no characters and is kept when some are put behind others holds of characters that
are joined. -/
theorem flatMap_of_append {α : Type} {P : List Char → Prop} (hnil : P [])
    (happend : ∀ {cs es}, P cs → P es → P (cs ++ es)) {f : α → List Char} {l : List α}
    (h : ∀ a ∈ l, P (f a)) : P (l.flatMap f) := by
  induction l with
  | nil => exact hnil
  | cons a l ih =>
      obtain ⟨ha, hl⟩ := List.forall_mem_cons.mp h
      rw [List.flatMap_cons]
      exact happend ha (ih hl)

/-! ### Texts -/

/-- What stays inside a literal and leaves nothing behind when it is masked. -/
structure Inside (cs : List Char) : Prop where
  after : Mode.literal.after cs = .literal
  masked : maskFrom .literal cs = []

theorem Inside.append {cs es : List Char} (hc : Inside cs) (he : Inside es) :
    Inside (cs ++ es) where
  after := by rw [Mode.after_append, hc.after, he.after]
  masked := by
    rw [maskFrom_append, hc.masked, hc.after, he.masked]
    rfl

theorem Inside.flatMap {f : Char → List Char} (h : ∀ c, Inside (f c)) (cs : List Char) :
    Inside (cs.flatMap f) :=
  flatMap_of_append ⟨rfl, rfl⟩ .append fun c _ => h c

/-- Characters that mean nothing special in a literal. -/
theorem inside_of_plain {cs : List Char} (h : ∀ c ∈ cs, c ≠ '\\' ∧ c ≠ '\'') : Inside cs := by
  induction cs with
  | nil => exact ⟨rfl, rfl⟩
  | cons c cs ih =>
      obtain ⟨hb, hq⟩ := h c List.mem_cons_self
      have hcs : Inside cs := ih fun d hd => h d (List.mem_cons_of_mem c hd)
      have hnext : Mode.literal.next c = .literal := by simp [Mode.next, hb, hq]
      constructor
      · rw [Mode.after_cons, hnext, hcs.after]
      · rw [maskFrom, hnext, hcs.masked]
        simp [Mode.keeps, hq]

theorem mem_hexText {n : Nat} {c : Char} (h : c ∈ hexText n) : ∃ d < 16, c = Nat.digitChar d := by
  induction n using Nat.strongRecOn with
  | ind n ih =>
      by_cases hn : n < 16
      · rw [hexText, Nat.toDigits_of_lt_base hn] at h
        exact ⟨n, hn, List.mem_singleton.mp h⟩
      · rw [hexText, Nat.toDigits_of_base_le (by decide) (Nat.le_of_not_lt hn),
          List.mem_append] at h
        rcases h with h | h
        · exact ih (n / 16) (by omega) h
        · exact ⟨n % 16, by omega, List.mem_singleton.mp h⟩

theorem inside_hexText (n : Nat) : Inside (hexText n) := by
  apply inside_of_plain
  intro c hc
  obtain ⟨d, hd, rfl⟩ := mem_hexText hc
  have digits : ∀ d < 16, Nat.digitChar d ≠ '\\' ∧ Nat.digitChar d ≠ '\'' := by decide
  exact digits d hd

/-- No character leaves the literal once it is escaped. -/
theorem inside_escape (c : Char) : Inside (escape c) := by
  unfold escape
  split
  case isTrue => exact ⟨rfl, rfl⟩
  case isFalse hb =>
    split
    case isTrue => exact ⟨rfl, rfl⟩
    case isFalse hq =>
      -- behind the first backslash the reader takes any character
      repeat' split
      · exact ⟨rfl, rfl⟩
      · exact ⟨rfl, rfl⟩
      · exact ⟨rfl, rfl⟩
      · exact ⟨rfl, rfl⟩
      · have head : Inside ['\\', 'u', '\x7b'] := ⟨rfl, rfl⟩
        have tail : Inside ['\x7d'] := ⟨rfl, rfl⟩
        exact (head.append (inside_hexText c.toNat)).append tail
      · exact inside_of_plain fun d hd => by
          obtain rfl := List.mem_singleton.mp hd
          exact ⟨hb, hq⟩

/-! ### Code -/

/-- Two stretches of code that leave no literal open and are the same once they are masked. -/
structure Alike (cs es : List Char) : Prop where
  left : Mode.code.after cs = .code
  right : Mode.code.after es = .code
  masked : maskFrom .code cs = maskFrom .code es

namespace Alike

variable {cs cs' es es' : List Char}

theorem refl (h : Mode.code.after cs = .code) : Alike cs cs := ⟨h, h, rfl⟩

theorem symm (h : Alike cs es) : Alike es cs := ⟨h.right, h.left, h.masked.symm⟩

theorem trans (h : Alike cs es) (h' : Alike es es') : Alike cs es' :=
  ⟨h.left, h'.right, h.masked.trans h'.masked⟩

theorem append (h : Alike cs es) (h' : Alike cs' es') : Alike (cs ++ cs') (es ++ es') where
  left := by rw [Mode.after_append, h.left, h'.left]
  right := by rw [Mode.after_append, h.right, h'.right]
  masked := by
    rw [maskFrom_append, maskFrom_append, h.left, h.right, h.masked, h'.masked]

theorem cons {c : Char} (hc : c ≠ '\'') (h : Alike cs es) : Alike (c :: cs) (c :: es) := by
  have hone : Alike [c] [c] := refl (Mode.after_code (by simpa using hc.symm))
  exact hone.append h

theorem flatMap {α : Type} {f g : α → List Char} {l : List α} (h : ∀ a ∈ l, Alike (f a) (g a)) :
    Alike (l.flatMap f) (l.flatMap g) := by
  induction l with
  | nil => exact refl rfl
  | cons a l ih =>
      rw [List.flatMap_cons, List.flatMap_cons]
      exact (h a List.mem_cons_self).append (ih fun b hb => h b (List.mem_cons_of_mem a hb))

end Alike

theorem maskFrom_quote (s : String) : maskFrom .code (quote s) = ['\'', '\''] := by
  have h := Inside.flatMap inside_escape s.toList
  rw [quote, List.cons_append, maskFrom, maskFrom_append]
  simp only [Mode.keeps, Mode.next, ↓reduceIte, h.masked, h.after]
  rfl

theorem after_quote (s : String) : Mode.code.after (quote s) = .code := by
  have h := Inside.flatMap inside_escape s.toList
  rw [quote, List.cons_append, Mode.after_cons, Mode.after_append]
  simp only [Mode.next, ↓reduceIte, h.after]
  rfl

/-- All texts are alike when they are quoted. -/
theorem alike_quote (s t : String) : Alike (quote s) (quote t) where
  left := after_quote s
  right := after_quote t
  masked := by rw [maskFrom_quote, maskFrom_quote]

end Wireframe.Dart
