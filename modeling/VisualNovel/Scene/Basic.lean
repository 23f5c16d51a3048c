/-
  Scenes: nodes, the connections between them and the table of backgrounds.
-/
import VisualNovel.Scene.Node
import VisualNovel.Table

namespace VisualNovel

/-- A scene of a story. -/
structure Scene where
  name : String
  id : Int32 := 0
  nodes : List Node := []
  connections : List Connection := []
  /-- The paths of the backgrounds. -/
  backgrounds : Table := .empty
  deriving DecidableEq

namespace Scene

/-- The first node of an identity. -/
def node? (s : Scene) (id : NodeId) : Option Node := s.nodes.find? fun n => decide (n.id = id)

/-- The node at which the scene is entered: its first gate that is open. -/
def entry? (s : Scene) : Option Node := s.nodes.find? Node.isEntry

/-- The scene with one more node. -/
def addNode (s : Scene) (n : Node) : Scene := { s with nodes := s.nodes ++ [n] }

/-- The scene with a background. -/
def addBackground (s : Scene) (key path : String) : Scene :=
  { s with backgrounds := s.backgrounds.insert key path }

/-- The number of words that the player may read. -/
def wordCount (s : Scene) : Nat := (s.nodes.map fun n => n.content.wordCount).foldr (· + ·) 0

end Scene

end VisualNovel
