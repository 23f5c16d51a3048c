/-
  Look-up tables over the connections of a scene, made once and asked often.

  * `ConnectionIndex.ofScene` makes the tables;
  * `ConnectionIndex.follow?` is where an output leads, `ConnectionIndex.successor?`
    where a node leads whose content does not say.
-/
import Std.Data.HashMap
import VisualNovel.Scene.Basic

namespace VisualNovel

/-- A connection under its source: its position in the scene, and its target. -/
structure Outgoing where
  position : Nat
  target : ConnectorId
  deriving DecidableEq, Repr

/-- The tables of a scene. -/
structure ConnectionIndex where
  /-- The nodes that inputs belong to. -/
  owners : Std.HashMap ConnectorId NodeId
  /-- The connections that leave a connector, in the order of the scene. -/
  outgoing : Std.HashMap ConnectorId (List Outgoing)
  /-- The positions of the nodes. -/
  slots : Std.HashMap NodeId Nat
  /-- The number of connections. -/
  count : Nat

namespace ConnectionIndex

/-- Records the inputs of a node; of several nodes with one input the last counts. -/
def own (owners : Std.HashMap ConnectorId NodeId) (n : Node) : Std.HashMap ConnectorId NodeId :=
  n.inputs.foldl (fun owners c => owners.insert c.id n.id) owners

/-- Records a connection, after those that leave the same connector. -/
def leave (outgoing : Std.HashMap ConnectorId (List Outgoing)) (x : Connection × Nat) :
    Std.HashMap ConnectorId (List Outgoing) :=
  outgoing.insert x.1.source (outgoing.getD x.1.source [] ++ [⟨x.2, x.1.target⟩])

/-- The tables of a scene. -/
def ofScene (s : Scene) : ConnectionIndex where
  owners := s.nodes.foldl own ∅
  outgoing := s.connections.zipIdx.foldl leave ∅
  slots := s.nodes.zipIdx.foldl (fun slots x => slots.insert x.1.id x.2) ∅
  count := s.connections.length

variable (index : ConnectionIndex)

/-- The node that an input belongs to. -/
def owner? (input : ConnectorId) : Option NodeId := index.owners[input]?

/-- The connections that leave a connector. -/
def leaving (source : ConnectorId) : List Outgoing := index.outgoing.getD source []

/-- The connectors that a connector leads to, in the order of the scene. -/
def targets (source : ConnectorId) : List ConnectorId :=
  (index.leaving source).map Outgoing.target

/-- The node that the first connection of an output leads to. -/
def follow? (source : ConnectorId) : Option NodeId :=
  (index.leaving source).head?.bind fun o => index.owner? o.target

/-- The one of two connections that comes first in the scene. -/
def earlier (a b : Outgoing) : Outgoing := if b.position < a.position then b else a

/-- The first connection of the scene that leaves a node. -/
def first? (n : Node) : Option Outgoing :=
  match n.outputs.filterMap fun c => (index.leaving c.id).head? with
  | [] => none
  | o :: os => some (os.foldl earlier o)

/-- The node that the first connection leads to that leaves a node. -/
def successor? (n : Node) : Option NodeId :=
  (index.first? n).bind fun o => index.owner? o.target

/-- The node of an identity in the scene that the index was made from. -/
def node? (s : Scene) (id : NodeId) : Option Node :=
  (index.slots[id]?.bind fun slot => s.nodes[slot]?).filter fun n => decide (n.id = id)

end ConnectionIndex

end VisualNovel
