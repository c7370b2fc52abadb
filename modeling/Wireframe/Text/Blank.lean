/-
Blank characters, trimming and control characters.

*Blank* is the Unicode property `White_Space`; *control* is the general category `Cc`.  Both are
wider than the ASCII classes, and blank names, targets and addresses are recognised by them
everywhere in the library.

* `isBlank`, `isControl` — the two classes;
* `trimBlank` — a text without the blanks at both ends;
* `isBlankText` — nothing but blanks.
-/
namespace Wireframe.Text

/-- The 25 characters of the property `White_Space`. -/
def isBlank (c : Char) : Bool :=
  let n := c.toNat
  (9 ≤ n && n ≤ 13) || n == 0x20 || n == 0x85 || n == 0xA0 || n == 0x1680 ||
    (0x2000 ≤ n && n ≤ 0x200A) || n == 0x2028 || n == 0x2029 || n == 0x202F || n == 0x205F ||
    n == 0x3000

/-- The 65 characters of the category `Cc`. -/
def isControl (c : Char) : Bool :=
  let n := c.toNat
  n ≤ 0x1F || (0x7F ≤ n && n ≤ 0x9F)

/-- The characters left after dropping those that satisfy `p` from the end. -/
def dropEndWhile (p : Char → Bool) (cs : List Char) : List Char :=
  (cs.reverse.dropWhile p).reverse

/-- The characters left after dropping those that satisfy `p` from both ends. -/
def trimWhile (p : Char → Bool) (cs : List Char) : List Char :=
  dropEndWhile p (cs.dropWhile p)

/-- A text without the blanks at its ends. -/
def trimBlank (s : String) : String :=
  String.ofList (trimWhile isBlank s.toList)

/-- A text of nothing but blanks. -/
def isBlankText (s : String) : Bool :=
  s.toList.all isBlank

end Wireframe.Text
