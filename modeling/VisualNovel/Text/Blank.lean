/-
  Blank characters, and the operations on text that see them: `trim` drops the
  blanks at both ends and `countWords` counts the runs of other characters.  A blank is a
  character with the `White_Space` property of Unicode.
-/
namespace VisualNovel.Text

/-- The characters with the `White_Space` property. -/
def isBlank (c : Char) : Bool :=
  let n := c.toNat
  (0x09 ≤ n && n ≤ 0x0D) || n == 0x20 || n == 0x85 || n == 0xA0 || n == 0x1680 ||
    (0x2000 ≤ n && n ≤ 0x200A) || n == 0x2028 || n == 0x2029 || n == 0x202F ||
    n == 0x205F || n == 0x3000

/-- The text without the blanks at its two ends. -/
def trim (cs : List Char) : List Char :=
  ((cs.dropWhile isBlank).reverse.dropWhile isBlank).reverse

/-- The words that begin in a text; `inside` says that it continues a word. -/
def countWords : (inside : Bool) → List Char → Nat
  | _, [] => 0
  | inside, c :: cs =>
    if isBlank c then countWords false cs
    else (if inside then 0 else 1) + countWords true cs

/-- The number of words of a text. -/
def wordCount (s : String) : Nat := countWords false s.toList

/-- The upper-case letters of ASCII become lower-case ones. -/
def lower (cs : List Char) : List Char := cs.map Char.toLower

end VisualNovel.Text
