/-
  Writing documents as texts, each item and each member on a line of its own and
  indented by two blanks for every list or object around it.

  * `Json.text` is the text of a document.
-/
import VisualNovel.Json.Basic
import VisualNovel.Number.Decimal
import VisualNovel.Text.Hex

namespace VisualNovel.Json

/-- A character inside quotes. -/
def escaped (c : Char) : List Char :=
  if c = '"' then ['\\', '"']
  else if c = '\\' then ['\\', '\\']
  else if c = '\x08' then ['\\', 'b']
  else if c = '\x0c' then ['\\', 'f']
  else if c = '\n' then ['\\', 'n']
  else if c = '\r' then ['\\', 'r']
  else if c = '\t' then ['\\', 't']
  else if c < ' ' then '\\' :: 'u' :: Hex.digits 4 c.toNat
  else [c]

/-- A text in quotes. -/
def quoted (s : String) : List Char := '"' :: (s.toList.flatMap escaped ++ ['"'])

/-- A new line at a depth. -/
def newLine (depth : Nat) : List Char := '\n' :: List.replicate (2 * depth) ' '

/-- The text of a number; one without a finite value is written as nothing. -/
def Number.chars : Number → List Char
  | .natural n => Nat.toDigits 10 n
  | .negative n => '-' :: Nat.toDigits 10 n
  | .double x => if x.isFinite then (Numeral.storedDouble.text x).toList else "null".toList
  | .single x => if x.isFinite then (Numeral.storedSingle.text x).toList else "null".toList

mutual

/-- The text of a document at a depth. -/
def chars (depth : Nat) : Json → List Char
  | .boolean true => "true".toList
  | .boolean false => "false".toList
  | .number n => n.chars
  | .string s => quoted s
  | .array [] _ => ['[', ']']
  | .array (j :: js) _ =>
    '[' :: (newLine (depth + 1) ++ (chars (depth + 1) j ++ itemChars depth js))
  | .object [] _ => ['{', '}']
  | .object ((name, j) :: ms) _ =>
    '{' :: (newLine (depth + 1) ++
      (nameChars name ++ (':' :: ' ' :: (chars (depth + 1) j ++ memberChars depth ms))))
  | _ => "null".toList

/-- The further items of a list at a depth, and its end. -/
def itemChars (depth : Nat) : List Json → List Char
  | [] => newLine depth ++ [']']
  | j :: js => ',' :: (newLine (depth + 1) ++ (chars (depth + 1) j ++ itemChars depth js))

/-- The further members of an object at a depth, and its end. -/
def memberChars (depth : Nat) : List (Name × Json) → List Char
  | [] => newLine depth ++ ['}']
  | (name, j) :: ms =>
    ',' :: (newLine (depth + 1) ++
      (nameChars name ++ (':' :: ' ' :: (chars (depth + 1) j ++ memberChars depth ms))))

/-- The name of a member in quotes. -/
def nameChars : Name → List Char
  | .text s => quoted s
  | _ => ['"', '"']

end

/-- The text of a document. -/
def text (j : Json) : String := String.ofList (j.chars 0)

end VisualNovel.Json
