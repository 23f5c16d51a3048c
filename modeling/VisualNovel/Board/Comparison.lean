/-
  The comparisons that conditions make.
-/
import VisualNovel.Named
import VisualNovel.Number.Format

namespace VisualNovel

/-- A comparison of two values. -/
inductive Comparison where
  | equalTo
  | notEqualTo
  | greaterThan
  | lessThan
  | greaterThanOrEqualTo
  | lessThanOrEqualTo
  deriving DecidableEq, Repr

instance : Named Comparison where
  all := [.equalTo, .notEqualTo, .greaterThan, .lessThan, .greaterThanOrEqualTo,
    .lessThanOrEqualTo]
  name
    | .equalTo => "EqualTo"
    | .notEqualTo => "NotEqualTo"
    | .greaterThan => "GreaterThan"
    | .lessThan => "LessThan"
    | .greaterThanOrEqualTo => "GreaterThanOrEqualTo"
    | .lessThanOrEqualTo => "LessThanOrEqualTo"
  find_name a := by cases a <;> decide

namespace Comparison

/-- Whether a comparison holds, given when values are the same and when one is
    less than another. -/
def holds {α : Type} (same less : α → α → Bool) : Comparison → α → α → Bool
  | equalTo, a, b => same a b
  | notEqualTo, a, b => !same a b
  | greaterThan, a, b => less b a
  | lessThan, a, b => less a b
  | greaterThanOrEqualTo, a, b => less b a || same a b
  | lessThanOrEqualTo, a, b => less a b || same a b

/-- The comparison of two numbers. -/
def numbers {f : Format} (c : Comparison) (x y : Binary f) : Bool :=
  c.holds Binary.same Binary.less x y

/-- The comparison of two texts, character by character. -/
def texts (c : Comparison) (s t : String) : Bool :=
  c.holds (fun a b => decide (a = b)) (fun a b => decide (a < b)) s t

end Comparison

end VisualNovel
