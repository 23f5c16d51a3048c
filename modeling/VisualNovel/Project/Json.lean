/-
  Projects as documents.
-/
import VisualNovel.Project.Basic
import VisualNovel.Scene.Json

namespace VisualNovel

open Decoder

namespace Character

def decoder : Decoder Character :=
  (Form.of Character.mk).required "name" string
    |>.optional "sprites" Table.decoder .empty
    |>.optional "sounds" Table.decoder .empty
    |>.decoder

def toJson (c : Character) : Json := .record [
  ("name", .string c.name), ("sprites", c.sprites.toJson), ("sounds", c.sounds.toJson)]

end Character

namespace Project

def decoder : Decoder Project :=
  (Form.of Project.mk).required "name" string
    |>.optional "characters" (list Character.decoder) []
    |>.optional "scenes" (list Scene.decoder) []
    |>.optional "blackboards" Boards.decoder []
    |>.decoder

def toJson (p : Project) : Json := .record [
  ("name", .string p.name), ("characters", .list (p.characters.map Character.toJson)),
  ("scenes", .list (p.scenes.map Scene.toJson)), ("blackboards", Boards.toJson p.boards)]

/-- The text of a project. -/
def text (p : Project) : String := p.toJson.text

/-- The project that a text denotes. -/
def read (text : String) : Except SceneError Project :=
  (decode decoder text).mapError .unreadable

end Project

end VisualNovel
