/-
  How the story changes its registers and asks about them.

  * `Change` writes to a register: it sets it or, if it is a number, raises or
    lowers it;
  * `Check` compares a register with a literal.
-/
import VisualNovel.Board.Basic
import VisualNovel.Board.Comparison
import VisualNovel.Number.Arithmetic

namespace VisualNovel

/-- What a change does with its operand. -/
inductive Operation where
  | set
  | increase
  | decrease
  deriving DecidableEq, Repr

instance : Named Operation where
  all := [.set, .increase, .decrease]
  name
    | .set => "Set"
    | .increase => "Increase"
    | .decrease => "Decrease"
  find_name a := by cases a <;> decide

/-- The new number of a register. -/
def Operation.apply : Operation → Binary32 → Binary32 → Binary32
  | set, _, operand => operand
  | increase, old, operand => old.add operand
  | decrease, old, operand => old.sub operand

/-- A change of a register. -/
structure Change where
  target : Target
  operation : Operation
  literal : String
  deriving DecidableEq, Repr

namespace Change

/-- What came of a change. -/
inductive Outcome where
  | applied (previous current : Value)
  /-- No board has the register. -/
  | missingEntry
  /-- The literal denotes no value of the kind of the target. -/
  | invalidLiteral
  deriving DecidableEq

/-- The new value of a register: numbers follow the operation, all else is set. -/
def result (c : Change) : Value → Value → Value
  | .float old, .float operand => .float (c.operation.apply old operand)
  | _, operand => operand

/-- Applies a change; one that cannot be made changes nothing. -/
def apply (c : Change) (bs : Boards) : Boards × Outcome :=
  match bs.get? c.target with
  | none => (bs, .missingEntry)
  | some old =>
    match Value.parse? c.target.kind c.literal with
    | none => (bs, .invalidLiteral)
    | some operand =>
      let new := c.result old operand
      ((bs.set? c.target new).getD bs, .applied old new)

end Change

/-- A question about a register. -/
structure Check where
  target : Target
  comparison : Comparison
  literal : String
  deriving DecidableEq, Repr

namespace Check

/-- What came of a question. -/
inductive Outcome where
  | decided (b : Bool)
  /-- No board has the register. -/
  | missingEntry
  /-- The literal denotes no value of the kind of the target. -/
  | invalidLiteral
  deriving DecidableEq, Repr

/-- The answer, if there is one. -/
def Outcome.branch? : Outcome → Option Bool
  | decided b => some b
  | _ => none

/-- Compares a value with an operand: numbers by their order; of all else only
    equality is asked. -/
def holds (c : Check) : Value → Value → Bool
  | .float x, .float y => c.comparison.numbers x y
  | v, w => if c.comparison = .equalTo then v.agrees w else !v.agrees w

/-- Answers a question. -/
def answer (c : Check) (bs : Boards) : Outcome :=
  match bs.get? c.target with
  | none => .missingEntry
  | some v =>
    match Value.parse? c.target.kind c.literal with
    | none => .invalidLiteral
    | some w => .decided (c.holds v w)

end Check

end VisualNovel
