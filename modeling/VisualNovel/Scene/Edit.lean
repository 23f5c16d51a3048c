/-
  Editing scenes.  Each operation checks everything first and then cannot fail.

  * `Scene.connect` joins two free connectors, `Scene.disconnect?` undoes the first
    connection that touches a connector;
  * `Scene.removeNode`, `Scene.setSwitch`, `Scene.addChoice`, `Scene.removeChoice`,
    `Scene.addInput` and `Scene.removeInput` change single nodes.
-/
import VisualNovel.Scene.Basic
import VisualNovel.Scene.Error

namespace VisualNovel

/-- Changes the first item that satisfies a condition. -/
def modifyFirst {α : Type} (p : α → Bool) (f : α → α) : List α → List α
  | [] => []
  | a :: as => if p a then f a :: as else a :: modifyFirst p f as

namespace Node

/-- Marks the first connector of an identity, inputs first. -/
def mark (connected : Bool) (c : ConnectorId) (n : Node) : Node :=
  let is (x : Connector) := decide (x.id = c)
  let put (x : Connector) := { x with connected }
  if n.inputs.any is then { n with inputs := modifyFirst is put n.inputs }
  else { n with outputs := modifyFirst is put n.outputs }

/-- Records where the output of an identity leads: at the first choice that leaves
    through it, or else as the successor of the node. -/
def refer (source : ConnectorId) (next : Option NodeId) (n : Node) : Node :=
  match n.content, n.outputs.findIdx? (fun x => decide (x.id = source)) with
  | .choice choices, some i =>
    { n with
      content := .choice
        (modifyFirst (fun c => decide (c.output = i)) (fun c => { c with next }) choices) }
  | _, _ => { n with next }

end Node

namespace Scene

/-- The first connector of an identity, and the node that it belongs to. -/
def locate? (s : Scene) (c : ConnectorId) : Option (NodeId × Connector) :=
  s.nodes.findSome? fun n => (n.connector? c).map fun x => (n.id, x)

/-- Changes the first node of an identity. -/
def modifyNode (s : Scene) (id : NodeId) (f : Node → Node) : Scene :=
  { s with nodes := modifyFirst (fun n => decide (n.id = id)) f s.nodes }

/-- Marks the first connector of an identity. -/
def mark (s : Scene) (c : ConnectorId) (connected : Bool) : Scene :=
  { s with nodes := modifyFirst (fun n => n.owns c) (Node.mark connected c) s.nodes }

/-- Marks a connector as connected exactly if some connection touches it. -/
def refresh (s : Scene) (c : ConnectorId) : Scene :=
  s.mark c (s.connections.any fun x => x.touches c)

/-! ## Connections -/

/-- Joins an output of one node to an input of another. -/
def join (s : Scene) (source : ConnectorId) (sourceNode : NodeId) (target : ConnectorId)
    (targetNode : NodeId) : Scene :=
  let s := (s.mark source true).mark target true
  let s := s.modifyNode targetNode fun n => { n with previous := some sourceNode }
  let s := s.modifyNode sourceNode (Node.refer source (some targetNode))
  { s with connections := s.connections ++ [⟨source, target⟩] }

/-- Connects two connectors, given in either order.  Both must be free. -/
def connect (s : Scene) (a b : ConnectorId) : Except SceneError (Scene × Connection) :=
  match s.locate? a with
  | none => .error (.connectorNotFound a)
  | some (aNode, aEnd) =>
    match s.locate? b with
    | none => .error (.connectorNotFound b)
    | some (bNode, bEnd) =>
      if aEnd.flow = bEnd.flow then .error (.sameFlow aEnd.flow)
      else if aEnd.flow = .output then
        if aEnd.connected then .error (.alreadyConnected a)
        else if bEnd.connected then .error (.alreadyConnected b)
        else .ok (s.join a aNode b bNode, ⟨a, b⟩)
      else if bEnd.connected then .error (.alreadyConnected b)
      else if aEnd.connected then .error (.alreadyConnected a)
      else .ok (s.join b bNode a aNode, ⟨b, a⟩)

/-- The scene after a connection was taken out of its list: the references to the
    ends are forgotten and their marks renewed. -/
def release (s : Scene) (c : Connection) : Scene :=
  let sourceNode := s.locate? c.source
  let targetNode := s.locate? c.target
  let s := match targetNode with
    | some (n, _) => s.modifyNode n fun n => { n with previous := none }
    | none => s
  let s := match sourceNode with
    | some (n, _) => s.modifyNode n (Node.refer c.source none)
    | none => s
  (s.refresh c.source).refresh c.target

/-- Undoes the first connection that touches a connector. -/
def disconnect? (s : Scene) (id : ConnectorId) : Option (Scene × Connection) :=
  match s.connections.find? fun c => c.touches id with
  | none => none
  | some c =>
    some ({ s with connections := s.connections.eraseP fun c => c.touches id }.release c, c)

@[simp] theorem connections_modifyNode (s : Scene) (id : NodeId) (f : Node → Node) :
    (s.modifyNode id f).connections = s.connections := rfl

@[simp] theorem connections_mark (s : Scene) (c : ConnectorId) (connected : Bool) :
    (s.mark c connected).connections = s.connections := rfl

@[simp] theorem connections_refresh (s : Scene) (c : ConnectorId) :
    (s.refresh c).connections = s.connections := rfl

@[simp] theorem connections_release (s : Scene) (c : Connection) :
    (s.release c).connections = s.connections := by
  simp only [release, connections_refresh]
  split <;> split <;> rfl

theorem length_disconnect? {s s' : Scene} {id : ConnectorId} {c : Connection}
    (h : s.disconnect? id = some (s', c)) : s'.connections.length < s.connections.length := by
  unfold disconnect? at h
  split at h
  · cases h
  · rename_i x hx
    simp only [Option.some.injEq, Prod.mk.injEq] at h
    rw [← h.1, connections_release]
    have hm := List.mem_of_find?_eq_some hx
    have ht := List.find?_some hx
    have := List.length_eraseP_of_mem (p := fun c => c.touches id) hm ht
    have := List.length_pos_of_mem hm
    simp only
    omega

/-- Undoes every connection that touches a connector. -/
def disconnectAll (s : Scene) (id : ConnectorId) : Scene :=
  match _h : s.disconnect? id with
  | none => s
  | some (s', _) => s'.disconnectAll id
termination_by s.connections.length
decreasing_by exact length_disconnect? _h

/-! ## Nodes -/

/-- Takes the first node of an identity away, with all connections to it. -/
def removeNode (s : Scene) (id : NodeId) : Except SceneError (Scene × Node) :=
  match s.node? id with
  | none => .error (.nodeNotFound id)
  | some n =>
    let s := n.connectors.foldl (fun s c => s.disconnectAll c.id) s
    match s.node? id with
    | none => .error (.nodeNotFound id)
    | some n => .ok ({ s with nodes := s.nodes.eraseP fun n => decide (n.id = id) }, n)

/-- Turns a gate into an entry or an exit and gives it new connectors.  None of the
    connectors on the side that it loses may be connected. -/
def setSwitch (s : Scene) (id : NodeId) (switch : Switch) (connector : Nat → ConnectorId) :
    Except SceneError Scene :=
  match s.node? id with
  | none => .error (.nodeNotFound id)
  | some n =>
    match n.content with
    | .state _ =>
      let lost := match switch with
        | .enter => n.inputs
        | .exit => n.outputs
      if lost.any Connector.connected then .error (.switchBlocked id switch)
      else .ok <| s.modifyNode id fun n =>
        { n with
          content := .state switch
          inputs := Connector.row .input switch.layout.1 connector
          outputs := Connector.row .output switch.layout.2 fun i =>
            connector (switch.layout.1 + i) }
    | content => .error (.wrongContent id "State" content.kindName)

/-- Adds a choice and an output for it; the position of the choice is returned. -/
def addChoice (s : Scene) (id : NodeId) (text : String) (connector : ConnectorId) :
    Except SceneError (Scene × Nat) :=
  match s.node? id with
  | none => .error (.nodeNotFound id)
  | some n =>
    match n.content with
    | .choice choices =>
      .ok (s.modifyNode id fun n =>
        { n with
          outputs := n.outputs ++ [{ id := connector, flow := .output }]
          content := .choice (choices ++ [{ text, output := n.outputs.length }]) },
        choices.length)
    | content => .error (.wrongContent id "Choice" content.kindName)

/-- The choices without the one at a position; those that leave through a later
    output than it move up. -/
def dropChoice (choices : List Choice) (index output : Nat) : List Choice :=
  (choices.eraseIdx index).map fun c =>
    if output < c.output then { c with output := c.output - 1 } else c

/-- Removes a choice, the output that it leaves through and the connections of that
    output. -/
def removeChoice (s : Scene) (id : NodeId) (index : Nat) : Except SceneError Scene :=
  match s.node? id with
  | none => .error (.nodeNotFound id)
  | some n =>
    match n.content with
    | .choice choices =>
      match choices[index]? with
      | none => .error (.choiceOutOfRange id index choices.length)
      | some c =>
        let s := match n.output? c.output with
          | some connector => s.disconnectAll connector
          | none => s
        .ok <| s.modifyNode id fun n =>
          { n with
            outputs := n.outputs.eraseIdx c.output
            content := match n.content with
              | .choice choices => .choice (dropChoice choices index c.output)
              | content => content }
    | content => .error (.wrongContent id "Choice" content.kindName)

/-- Gives a combiner one more input. -/
def addInput (s : Scene) (id : NodeId) (connector : ConnectorId) : Except SceneError Scene :=
  match s.node? id with
  | none => .error (.nodeNotFound id)
  | some n =>
    match n.content with
    | .combiner =>
      .ok <| s.modifyNode id fun n =>
        { n with inputs := n.inputs ++ [{ id := connector, flow := .input }] }
    | content => .error (.wrongContent id "Combiner" content.kindName)

/-- Takes the last input of a combiner away; one is always left. -/
def removeInput (s : Scene) (id : NodeId) : Except SceneError Scene :=
  match s.node? id with
  | none => .error (.nodeNotFound id)
  | some n =>
    match n.content with
    | .combiner =>
      if n.inputs.length ≤ 1 then .error (.combinerNeedsInput id)
      else
        let s := match n.inputs.getLast? with
          | some c => s.disconnectAll c.id
          | none => s
        .ok <| s.modifyNode id fun n => { n with inputs := n.inputs.dropLast }
    | content => .error (.wrongContent id "Combiner" content.kindName)

end Scene

end VisualNovel
