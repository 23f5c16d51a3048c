/-
  Sessions: the scene that is played, the boards of the session, and what was
  visited and shown.
-/
import VisualNovel.Project.Basic
import VisualNovel.Scene.Index

namespace VisualNovel

/-- A session of playback. -/
structure Session where
  scene : Scene
  index : ConnectionIndex
  index_eq : index = .ofScene scene
  boards : Boards
  /-- The nodes visited since the scene was entered, each once. -/
  visited : List NodeId := []
  /-- The characters on screen, in the order in which they came. -/
  characters : List String := []
  /-- The speaker and the text of the line that is shown. -/
  line : Option (String × String) := none
  /-- The choices that are shown. -/
  choices : List String := []
  /-- The scenes that were entered since the last wait, with the boards at that
      time. -/
  entries : List (String × Boards) := []

namespace Session

/-- Opens a session on a scene, with the boards of the project. -/
def open? (p : Project) (name : String) : Option Session :=
  (p.scene? name).map fun scene =>
    { scene, index := .ofScene scene, index_eq := rfl, boards := p.boards }

/-- Forgets what is shown. -/
def clearPresentation (s : Session) : Session :=
  { s with characters := [], line := none, choices := [] }

/-- Forgets what was visited. -/
def resetVisited (s : Session) : Session := { s with visited := [] }

/-- Moves to another scene, with the boards of the project unless they are carried
    over. -/
def moveTo (s : Session) (p : Project) (scene : Scene) (carry : Bool) : Session :=
  { s with
    scene, index := .ofScene scene, index_eq := rfl
    boards := if carry then s.boards else p.boards
    visited := [], characters := [], line := none, choices := [] }

/-- Moves to the scene of a name, if there is one. -/
def switchScene? (s : Session) (p : Project) (name : String) (carry : Bool) : Option Session :=
  (p.scene? name).map fun scene => s.moveTo p scene carry

def hasVisited (s : Session) (n : NodeId) : Bool := s.visited.contains n

/-- Records a visit. -/
def visit (s : Session) (n : NodeId) : Session :=
  if s.hasVisited n then s else { s with visited := s.visited ++ [n] }

def isOnScreen (s : Session) (character : String) : Bool := s.characters.contains character

/-- Records that a character came on. -/
def showCharacter (s : Session) (character : String) : Session :=
  if s.isOnScreen character then s
  else { s with characters := s.characters ++ [character] }

/-- Records that a character went off. -/
def hideCharacter (s : Session) (character : String) : Session :=
  { s with characters := s.characters.filter fun c => decide (c ≠ character) }

/-- Whether the scene was entered before with boards that agree with these, and no
    wait in between. -/
def isRepeated (s : Session) : Bool :=
  s.entries.any fun e => decide (e.1 = s.scene.name) && Boards.agree e.2 s.boards

/-- Records that the scene is entered. -/
def noteEntry (s : Session) : Session :=
  { s with entries := s.entries ++ [(s.scene.name, s.boards)] }

/-- Records a wait. -/
def noteWait (s : Session) : Session := { s with entries := [] }

end Session

end VisualNovel
