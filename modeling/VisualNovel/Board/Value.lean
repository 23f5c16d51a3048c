/-
  The values of registers.

  * `Value.parse?` reads an authored literal as a value of a kind, `Value.text`
    writes a value as it is shown;
  * `Value.agrees` is equality as the story sees it, in which a number that is
    none equals nothing.
-/
import VisualNovel.Named
import VisualNovel.Number.Decimal
import VisualNovel.Number.Literal

namespace VisualNovel

/-- The kinds of registers. -/
inductive RegisterKind where
  | string
  | float
  | boolean
  deriving DecidableEq, Repr

instance : Named RegisterKind where
  all := [.string, .float, .boolean]
  name
    | .string => "String"
    | .float => "Float"
    | .boolean => "Boolean"
  find_name a := by cases a <;> decide

/-- What a register holds. -/
inductive Value where
  | string (s : String)
  | float (x : Binary32)
  | boolean (b : Bool)
  deriving DecidableEq

namespace Value

def kind : Value → RegisterKind
  | string _ => .string
  | float _ => .float
  | boolean _ => .boolean

/-- The value that a literal denotes in a kind.  Texts are taken as they are,
    blanks around numbers and truth values do not count, and truth values may be
    written in any case. -/
def parse? (kind : RegisterKind) (literal : String) : Option Value :=
  match kind with
  | .string => some (string literal)
  | .float => (Literal.read? (Text.trim literal.toList)).map float
  | .boolean =>
    let word := Text.lower (Text.trim literal.toList)
    if word = "true".toList then some (boolean true)
    else if word = "false".toList then some (boolean false)
    else none

theorem kind_of_parse? {kind : RegisterKind} {literal : String} {v : Value}
    (h : parse? kind literal = some v) : v.kind = kind := by
  unfold parse? at h
  split at h
  · simp only [Option.some.injEq] at h
    subst h
    rfl
  · obtain ⟨x, -, rfl⟩ := Option.map_eq_some_iff.1 h
    rfl
  · dsimp only at h
    split at h
    · cases h
      rfl
    · split at h
      · cases h
        rfl
      · cases h

/-- The number that a value is. -/
def float? : Value → Option Binary32
  | float x => some x
  | _ => none

/-- The value as it is shown. -/
def text : Value → String
  | string s => s
  | float x => Numeral.spoken.text x
  | boolean b => if b then "true" else "false"

/-- Equality as conditions see it: numbers are compared as numbers. -/
def agrees : Value → Value → Bool
  | string s, string t => decide (s = t)
  | float x, float y => x.same y
  | boolean a, boolean b => a == b
  | _, _ => false

end Value

end VisualNovel
