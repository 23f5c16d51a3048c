/-
  From tokens to documents.  The lists and objects that are open form a stack of
  frames; `value`, `member` and `next` each consume tokens and hand over to one
  another, so the whole recursion is on the tokens.

  * `Json.read` is the document of a text, and whether text follows it.
-/
import VisualNovel.Json.Token

namespace VisualNovel.Json

/-- A list or an object that is open, with what it holds so far, last first; an
    object waits for the value of a member. -/
inductive Frame where
  | list (items : List Json)
  | object (members : List (Name × Json)) (name : Name)

/-- The deepest nesting that a reader follows. -/
def depthLimit : Nat := 127

/-- A list or an object inside the frames of a stack. -/
def nested (stack : List Frame) (j : Json) : Json :=
  if (stack.drop (depthLimit - 1)).isEmpty then j else .tooDeep j

/-- The document whose last part is a value inside the frames of a stack. -/
def unwind : List Frame → Json → Json
  | [], j => j
  | .list items :: stack, j =>
    unwind stack (nested stack (.array (j :: items).reverse (some .malformed)))
  | .object members name :: stack, j =>
    unwind stack (nested stack (.object ((name, j) :: members).reverse (some .malformed)))

mutual

/-- Reads a value. -/
def value (stack : List Frame) : List Token → Json × Bool
  | [] => (unwind stack (.broken .missing), false)
  | .scalar (.broken b) :: _ => (unwind stack (.broken b), false)
  | .scalar j :: ts => next stack j ts
  | .quoted (.whole s) :: ts => next stack (.string s) ts
  | .quoted .unpaired :: ts => next stack .unreadable ts
  | .quoted (.cut r p) :: _ => (unwind stack (.broken (.quoted r p)), false)
  | .openList :: .closeList :: ts => next stack (nested stack (.array [] none)) ts
  | .openList :: ts => value (.list [] :: stack) ts
  | .openObject :: .closeObject :: ts => next stack (nested stack (.object [] none)) ts
  | .openObject :: ts => member stack [] ts
  | _ :: _ => (unwind stack junk, false)

/-- Reads the name of a member, and the colon. -/
def member (stack : List Frame) (members : List (Name × Json)) : List Token → Json × Bool
  | [] => noName .truncated .truncated
  | .quoted (.cut r p) :: _ => noName r p
  | .quoted (.whole s) :: ts => colon (.text s) ts
  | .quoted .unpaired :: ts => colon .unreadable ts
  | _ :: _ => noName .malformed .malformed
where
  noName (read passed : Fault) : Json × Bool :=
    (unwind (.object members (.absent read passed) :: stack) junk, false)
  colon (name : Name) : List Token → Json × Bool
    | .colon :: ts => value (.object members name :: stack) ts
    | [] => (unwind (.object members name :: stack) (.broken .missing), false)
    | _ :: _ => (unwind (.object members name :: stack) junk, false)

/-- Goes on after a value. -/
def next : List Frame → Json → List Token → Json × Bool
  | [], j, ts => (j, !ts.isEmpty)
  | .list items :: stack, j, ts =>
    match ts with
    | .comma :: ts => value (.list (j :: items) :: stack) ts
    | .closeList :: ts => next stack (nested stack (.array (j :: items).reverse none)) ts
    | [] => (unwind stack (nested stack (.array (j :: items).reverse (some .truncated))), false)
    | _ :: _ =>
      (unwind stack (nested stack (.array (j :: items).reverse (some .malformed))), false)
  | .object members name :: stack, j, ts =>
    match ts with
    | .comma :: ts => member stack ((name, j) :: members) ts
    | .closeObject :: ts =>
      next stack (nested stack (.object ((name, j) :: members).reverse none)) ts
    | [] =>
      (unwind stack (nested stack (.object ((name, j) :: members).reverse (some .truncated))),
        false)
    | _ :: _ =>
      (unwind stack (nested stack (.object ((name, j) :: members).reverse (some .malformed))),
        false)

end

/-- The document of a text, and whether more text follows it. -/
def read (text : String) : Json × Bool := value [] (tokens text.toList)

end VisualNovel.Json
