/-
  Building scenes by labels.  Nodes are placed under labels and linked by them, in
  any order; all is checked when the scene is built.

  * `Blueprint.place` and `Blueprint.link` write a blueprint, `Blueprint.build`
    makes the scene.
-/
import VisualNovel.Scene.Edit

namespace VisualNovel

/-- A link that is still to be made, between an output of one labelled node and an
    input of another. -/
structure Link where
  source : String
  output : Nat
  target : String
  input : Nat
  deriving DecidableEq, Repr

/-- The nodes under their labels, in the order in which they were placed. -/
abbrev Labels := List (String × NodeId)

/-- A scene in the making. -/
structure Blueprint where
  scene : Scene
  labels : Labels := []
  links : List Link := []

namespace Blueprint

/-- The empty blueprint of a scene with a name. -/
def named (name : String) : Blueprint := { scene := { name } }

/-- Places a node under a label. -/
def place (b : Blueprint) (label : String) (n : Node) : Blueprint :=
  { b with scene := b.scene.addNode n, labels := b.labels ++ [(label, n.id)] }

/-- Adds a background. -/
def addBackground (b : Blueprint) (key path : String) : Blueprint :=
  { b with scene := b.scene.addBackground key path }

/-- Asks for a link. -/
def link (b : Blueprint) (l : Link) : Blueprint := { b with links := b.links ++ [l] }

/-- The first label that was used before. -/
def repeated? : (used : List String) → Labels → Option String
  | _, [] => none
  | used, (label, _) :: ls =>
    if used.contains label then some label else repeated? (label :: used) ls

/-- The node under a label. -/
def lookup (labels : Labels) (label : String) : Except SceneError NodeId :=
  match labels.lookup label with
  | some id => .ok id
  | none => .error (.unknownLabel label)

/-- The connector at a position of a labelled node, if there is one. -/
def connectorAt (connector : Option ConnectorId) (label : String) (position : Nat) :
    Except SceneError ConnectorId :=
  match connector with
  | some c => .ok c
  | none => .error (.positionOutOfRange label position)

/-- Makes a link. -/
def wire (labels : Labels) (s : Scene) (l : Link) : Except SceneError Scene := do
  let sourceNode ← lookup labels l.source
  let targetNode ← lookup labels l.target
  let source ←
    connectorAt ((s.node? sourceNode).bind fun n => n.output? l.output) l.source l.output
  let target ←
    connectorAt ((s.node? targetNode).bind fun n => n.input? l.input) l.target l.input
  (s.connect source target).map Prod.fst

/-- The scene with all links made in order, if each label was used once. -/
def build (b : Blueprint) : Except SceneError Scene :=
  match repeated? [] b.labels with
  | some label => .error (.duplicateLabel label)
  | none => b.links.foldlM (wire b.labels) b.scene

end Blueprint

end VisualNovel
