/-
  Boards as documents.
-/
import VisualNovel.Board.Rule
import VisualNovel.Json.Form

namespace VisualNovel

open Decoder

/-- An integer of thirty-two bits as a value. -/
def Json.ofInt32 (n : Int32) : Json := .ofInt n.toInt

namespace Value

def decoder : Decoder Value := oneOf [
  ("String", .holding (map .string Decoder.string)),
  ("Float", .holding (map .float (binary .single))),
  ("Boolean", .holding (map .boolean Decoder.boolean))]

def toJson : Value → Json
  | string s => .record [("String", .string s)]
  | float x => .record [("Float", .ofSingle x)]
  | boolean b => .record [("Boolean", .boolean b)]

end Value

namespace Entry

def decoder : Decoder Entry :=
  ((Form.of Entry.mk).required "key" string).required "value" Value.decoder |>.decoder

def toJson (e : Entry) : Json := .record [("key", .string e.key), ("value", e.value.toJson)]

end Entry

namespace Board

def decoder : Decoder Board :=
  (Form.of Board.mk).required "name" string
    |>.optional "id" int32 0
    |>.optional "strings" (list Entry.decoder) []
    |>.optional "floats" (list Entry.decoder) []
    |>.optional "booleans" (list Entry.decoder) []
    |>.decoder

def toJson (b : Board) : Json := .record [
  ("name", .string b.name),
  ("id", .ofInt32 b.id),
  ("strings", .list (b.strings.map Entry.toJson)),
  ("floats", .list (b.floats.map Entry.toJson)),
  ("booleans", .list (b.booleans.map Entry.toJson))]

end Board

namespace Boards

def decoder : Decoder Boards := list Board.decoder

def toJson (bs : Boards) : Json := .list (bs.map Board.toJson)

end Boards

namespace Target

def decoder : Decoder Target :=
  (Form.of Target.mk).required "board" string
    |>.required "key" string
    |>.required "kind" named
    |>.decoder

def toJson (t : Target) : Json := .record [
  ("board", .string t.board), ("key", .string t.key), ("kind", .string (Named.name t.kind))]

end Target

end VisualNovel
