/-
  Projects: the scenes, characters and boards of one story.
-/
import VisualNovel.Board.Basic
import VisualNovel.Scene.Basic

namespace VisualNovel

/-- A character and its assets. -/
structure Character where
  name : String
  /-- The paths of the sprites. -/
  sprites : Table := .empty
  /-- The paths of the voice cues. -/
  sounds : Table := .empty
  deriving DecidableEq

/-- The parts of a story. -/
structure Project where
  name : String
  characters : List Character := []
  scenes : List Scene := []
  boards : Boards := []
  deriving DecidableEq

namespace Project

/-- The first scene of a name. -/
def scene? (p : Project) (name : String) : Option Scene :=
  p.scenes.find? fun s => decide (s.name = name)

/-- The first character of a name. -/
def character? (p : Project) (name : String) : Option Character :=
  p.characters.find? fun c => decide (c.name = name)

/-- The number of words that the player may read. -/
def wordCount (p : Project) : Nat := (p.scenes.map Scene.wordCount).foldr (· + ·) 0

end Project

end VisualNovel
