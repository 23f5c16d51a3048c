/-
  Records as documents: a form lists the fields of a record in order, and is
  filled in from an object by name or from a list by position.

  * `Form α` makes an `α` of its fields;
  * `Form.decoder` reads a record in either way, `Form.fill` fills a form in from
    the members of an object.
-/
import VisualNovel.Json.Decoder

namespace VisualNovel

/-- A record to be filled in; `value` is what a field was filled in with. -/
inductive Form : Type → Type 1 where
  | of {α : Type} (a : α) : Form α
  | field {α β : Type} (form : Form (β → α)) (name : String) (read : Decoder β)
      (absent : Option β) (value : Option β) : Form α

namespace Form

open Json (Fault)

variable {α β : Type}

/-- Adds a field that must be there. -/
def required (form : Form (β → α)) (name : String) (read : Decoder β) : Form α :=
  form.field name read none none

/-- Adds a field that may be left out. -/
def optional (form : Form (β → α)) (name : String) (read : Decoder β) (absent : β) : Form α :=
  form.field name read (some absent) none

/-- The names of the fields. -/
def names : {α : Type} → Form α → List String
  | _, of _ => []
  | _, field form name _ _ _ => form.names ++ [name]

/-- Fills in the field of a name, if there is one; no field is filled in twice. -/
def put (source : Source) (name : String) (j : Json) :
    {α : Type} → Form α → Except Fault (Option (Form α))
  | _, of _ => .ok none
  | _, field form n read absent value =>
    if n = name then
      match value with
      | some _ => .error .unfit
      | none => (read source j).map fun b => some (form.field n read absent (some b))
    else (put source name j form).map fun r => r.map fun form' =>
      form'.field n read absent value

/-- Fills in the fields from the members of an object.  What `other` finds wrong
    with a member that is no field counts as a fault. -/
def fill (source : Source) (other : Json → Option Fault) :
    List (Json.Name × Json) → Form α → Except Fault (Form α)
  | [], form => .ok form
  | (.text name, j) :: ms, form =>
    (form.put source name j).bind fun
      | some form' => fill source other ms form'
      | none => (Decoder.ensure (other j)).bind fun _ => fill source other ms form
  | (.unreadable, _) :: _, _ => .error .malformed
  | (.absent read _, _) :: _, _ => .error read

/-- Fills in the fields from the items of a list, as far as they go; the items
    left over are returned. -/
def place (source : Source) :
    {α : Type} → Form α → List Json → Except Fault (Form α × List Json)
  | _, of a, items => .ok (of a, items)
  | _, field form name read absent value, items =>
    (place source form items).bind fun
      | (form', []) => .ok (form'.field name read absent value, [])
      | (form', j :: js) => (read source j).map fun b =>
        (form'.field name read absent (some b), js)

/-- The record that was filled in, if nothing is missing. -/
def finish : {α : Type} → Form α → Except Fault α
  | _, of a => .ok a
  | _, field form _ _ absent value =>
    match value.or absent with
    | none => .error .unfit
    | some b => form.finish.map fun f => f b

/-- Reads a record from an object. -/
def objectDecoder (form : Form α) (other : Json → Option Fault) : Decoder α
  | source, .object members flaw =>
    (form.fill source other members).bind fun form' =>
      (Decoder.ensure flaw).bind fun _ => form'.finish
  | _, j => .error j.mismatch

/-- Reads a record from an object or a list.  Members that are no fields are
    passed over. -/
def decoder (form : Form α) : Decoder α
  | source, .array items flaw =>
    (form.place source items).bind fun
      | (form', []) => (Decoder.ensure flaw).bind fun _ => form'.finish
      | (_, _ :: _) => .error (Decoder.tooMany source)
  | source, j => form.objectDecoder Json.passing? source j

end Form

end VisualNovel
