/-
  Connectors, by which nodes are attached to one another, and the connections
  between them.
-/
import VisualNovel.Named
import VisualNovel.Uuid

namespace VisualNovel

/-- The direction of a connector.  Connections run from outputs to inputs. -/
inductive Flow where
  | input
  | output
  deriving DecidableEq, Repr

instance : Named Flow where
  all := [.input, .output]
  name
    | .input => "Input"
    | .output => "Output"
  find_name a := by cases a <;> decide

/-- A point of attachment of a node.  It is marked as connected while a connection
    touches it. -/
structure Connector where
  id : ConnectorId
  title : String := ""
  flow : Flow
  connected : Bool := false
  deriving DecidableEq, Repr

/-- A directed link between two connectors. -/
structure Connection where
  source : ConnectorId
  target : ConnectorId
  deriving DecidableEq, Repr

/-- Whether a connector is one of the ends. -/
def Connection.touches (c : Connection) (id : ConnectorId) : Bool :=
  decide (c.source = id) || decide (c.target = id)

/-- A row of new connectors. -/
def Connector.row (flow : Flow) (count : Nat) (id : Nat → ConnectorId) : List Connector :=
  (List.range count).map fun i => { id := id i, flow }

end VisualNovel
