/-
  What can go wrong when a scene is edited, built or read.
-/
import VisualNovel.Json.Basic
import VisualNovel.Scene.Node

namespace VisualNovel

/-- The name of a kind of fault. -/
def Json.Fault.name : Json.Fault → String
  | malformed => "Syntax"
  | truncated => "Eof"
  | unfit => "Data"

/-- Why a scene could not be edited, built or read. -/
inductive SceneError where
  | nodeNotFound (node : NodeId)
  | connectorNotFound (connector : ConnectorId)
  | sameFlow (flow : Flow)
  | alreadyConnected (connector : ConnectorId)
  | wrongContent (node : NodeId) (expected found : String)
  | switchBlocked (node : NodeId) (switch : Switch)
  | choiceOutOfRange (node : NodeId) (index count : Nat)
  | combinerNeedsInput (node : NodeId)
  | unknownLabel (label : String)
  | duplicateLabel (label : String)
  | positionOutOfRange (label : String) (position : Nat)
  | unreadable (fault : Json.Fault)
  deriving DecidableEq

namespace SceneError

/-- What is said about an error. -/
def message : SceneError → String
  | nodeNotFound n => s!"node {n.text} not found in scene"
  | connectorNotFound c => s!"connector {c.text} not found in scene"
  | sameFlow flow => s!"cannot connect two {Named.name flow} connectors"
  | alreadyConnected c => s!"connector {c.text} is already connected"
  | wrongContent n expected found => s!"node {n.text} is a {found} node, expected {expected}"
  | switchBlocked n switch =>
    s!"cannot switch state node {n.text} to {Named.name switch} while it is connected"
  | choiceOutOfRange n index count =>
    s!"choice {index} out of range for node {n.text} ({count} choices)"
  | combinerNeedsInput n => s!"combiner {n.text} must keep at least one input"
  | unknownLabel label => "no node labelled `" ++ label ++ "`"
  | duplicateLabel label => "label `" ++ label ++ "` is used by more than one node"
  | positionOutOfRange label position =>
    "node `" ++ label ++ s!"` has no connector at port {position}"
  | unreadable fault => fault.name

/-- The code that tools know an error by. -/
def code : SceneError → String
  | nodeNotFound _ => "storyweave::graph::node_not_found"
  | connectorNotFound _ => "storyweave::graph::connector_not_found"
  | sameFlow _ => "storyweave::graph::same_flow"
  | alreadyConnected _ => "storyweave::graph::already_connected"
  | wrongContent .. => "storyweave::graph::wrong_variant"
  | switchBlocked .. => "storyweave::graph::switch_blocked"
  | choiceOutOfRange .. => "storyweave::graph::choice_out_of_range"
  | combinerNeedsInput _ => "storyweave::graph::combiner_needs_input"
  | unknownLabel _ => "storyweave::graph::unknown_label"
  | duplicateLabel _ => "storyweave::graph::duplicate_label"
  | positionOutOfRange .. => "storyweave::graph::port_out_of_range"
  | unreadable _ => "storyweave::graph::serde_json"

/-- The advice that goes with an error. -/
def help? : SceneError → Option String
  | sameFlow _ => some "Connections run from an output connector to an input connector."
  | alreadyConnected _ => some "Disconnect the existing connection first."
  | switchBlocked .. =>
    some "Remove the connections on the side that would disappear, then switch."
  | unknownLabel _ => some "Register the node on the builder before linking to it."
  | positionOutOfRange .. =>
    some "Combiner inputs must be added with Scene::add_combiner_input before use."
  | _ => none

end SceneError

end VisualNovel
