/-
  Replacing every occurrence of a pattern, from left to right and without
  overlaps.
-/
namespace VisualNovel.Text

/-- Copies a text with `word` in place of each occurrence of `pattern`, after
    `skip` characters that belong to an occurrence already replaced. -/
def replaceFrom (pattern word : List Char) : (skip : Nat) → List Char → List Char
  | _, [] => []
  | skip + 1, _ :: cs => replaceFrom pattern word skip cs
  | 0, c :: cs =>
    if pattern.isPrefixOf (c :: cs) then
      word ++ replaceFrom pattern word (pattern.length - 1) cs
    else c :: replaceFrom pattern word 0 cs

/-- The text with `word` in place of each occurrence of `pattern`; an empty
    pattern occurs nowhere. -/
def replace (pattern word text : String) : String :=
  if pattern.isEmpty then text
  else String.ofList (replaceFrom pattern.toList word.toList 0 text.toList)

end VisualNovel.Text
