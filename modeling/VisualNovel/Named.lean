/-
  Closed vocabularies: types whose values are told apart by their names.

  * `Named.ofName?` finds the value with a name; `Named.ofName?_name` says that
    every value is found under its own.
-/
namespace VisualNovel

/-- A type of finitely many values with distinct names. -/
class Named (α : Type) where
  /-- The values, in the order in which they are counted. -/
  all : List α
  name : α → String
  find_name : ∀ a : α, all.find? (fun b => name b == name a) = some a

namespace Named

variable {α : Type} [Named α]

/-- The value with a name. -/
def ofName? (s : String) : Option α := (all : List α).find? fun a => name a == s

@[simp] theorem ofName?_name (a : α) : ofName? (name a) = some a := find_name a

end Named

end VisualNovel
