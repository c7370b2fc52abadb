/-
Words of a text.

* `runs` — the longest stretches of characters of a class, from left to right;
* `fields` — what stands between the separators of a text, empty or not;
* `joinWith` — texts set one after the other with a separator between them.
-/
namespace Wireframe.Text

/-- The longest stretches of characters that satisfy `p`. -/
def runs (p : Char → Bool) : List Char → List (List Char)
  | [] => []
  | c :: rest =>
      if p c then
        match rest, runs p rest with
        | d :: _, run :: others => if p d then (c :: run) :: others else [c] :: run :: others
        | _, others => [c] :: others
      else runs p rest

/-- What stands between the characters `separator`: one text more than there are separators. -/
def fields (separator : Char) : List Char → List (List Char)
  | [] => [[]]
  | c :: rest =>
      if c = separator then [] :: fields separator rest
      else
        match fields separator rest with
        | field :: others => (c :: field) :: others
        | [] => [[c]]

/-- Lists set one after the other with `separator` between them. -/
def joinWith {α : Type} (separator : List α) : List (List α) → List α
  | [] => []
  | [word] => word
  | word :: next :: others => word ++ separator ++ joinWith separator (next :: others)

theorem not_mem_runs_nil (p : Char → Bool) (cs : List Char) : [] ∉ runs p cs := by
  fun_induction runs p cs <;> simp_all

example : runs Char.isAlpha "ab--c d".toList = ["ab".toList, "c".toList, "d".toList] := by
  decide +kernel

end Wireframe.Text
