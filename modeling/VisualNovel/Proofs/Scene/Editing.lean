/-
  Runs of editing.  A run begins with an empty scene and goes on call by call; calls
  that fail are part of it.

  * `Edit` is a call with its arguments, and with the identities that are made in it;
  * `Scene.edit` is the scene after a call, `Scene.Edited` says that a scene is reached
    by calls that each meet a condition.
-/
import VisualNovel.Proofs.Scene.Shape

namespace VisualNovel

/-- A call of an editing operation.  Where nodes or connectors are made in it, it says
    under which identities. -/
inductive Edit where
  | addNode (content : Content) (id : NodeId) (connector : Nat → ConnectorId)
  /-- Adds a combiner with a number of inputs. -/
  | addCombiner (inputs : Nat) (id : NodeId) (connector : Nat → ConnectorId)
  | connect (a b : ConnectorId)
  | disconnect (c : ConnectorId)
  | removeNode (id : NodeId)
  | setSwitch (id : NodeId) (switch : Switch) (connector : Nat → ConnectorId)
  | addChoice (id : NodeId) (text : String) (connector : ConnectorId)
  | removeChoice (id : NodeId) (index : Nat)
  | addInput (id : NodeId) (connector : ConnectorId)
  | removeInput (id : NodeId)

namespace Edit

/-- The identities that are made in a call. -/
def made : Edit → List Uuid
  | addNode content id connector => (Node.make content id connector).ids
  | addCombiner inputs id connector => (Node.combiner inputs id connector).ids
  | setSwitch _ _ connector => [(connector 0).uuid]
  | addChoice _ _ connector | addInput _ connector => [connector.uuid]
  | connect .. | disconnect _ | removeNode _ | removeChoice .. | removeInput _ => []

/-- What is made in a call does not collide: neither with itself nor with what is
    there. -/
def Fresh (s : Scene) (e : Edit) : Prop := e.made.Nodup ∧ ∀ u ∈ e.made, u ∉ s.ids

/-- A gate is only ever asked for what it is not. -/
def Flips (s : Scene) : Edit → Prop
  | setSwitch id switch _ => ∀ n, s.node? id = some n → n.content ≠ .state switch
  | _ => True

end Edit

namespace Scene

/-- The scene after an operation that may fail. -/
def settled (s : Scene) : Except SceneError Scene → Scene
  | .ok s' => s'
  | .error _ => s

/-- The scene after a call. -/
def edit (s : Scene) : Edit → Scene
  | .addNode content id connector => s.addNode (.make content id connector)
  | .addCombiner inputs id connector => s.addNode (.combiner inputs id connector)
  | .connect a b => s.settled ((s.connect a b).map Prod.fst)
  | .disconnect c => ((s.disconnect? c).map Prod.fst).getD s
  | .removeNode id => s.settled ((s.removeNode id).map Prod.fst)
  | .setSwitch id switch connector => s.settled (s.setSwitch id switch connector)
  | .addChoice id text connector => s.settled ((s.addChoice id text connector).map Prod.fst)
  | .removeChoice id index => s.settled (s.removeChoice id index)
  | .addInput id connector => s.settled (s.addInput id connector)
  | .removeInput id => s.settled (s.removeInput id)

/-- The scenes that come of an empty one by calls that each meet a condition. -/
inductive Edited (ok : Scene → Edit → Prop) : Scene → Prop where
  | empty (name : String) : Edited ok { name }
  | edit {s : Scene} {e : Edit} : Edited ok s → ok s e → Edited ok (s.edit e)

/-- An entry and an exit. -/
def gates : Scene :=
  (({ name := "Passage" } : Scene).edit (.addNode (.state .enter) ⟨⟨0⟩⟩ fun _ => ⟨⟨1⟩⟩)).edit
    (.addNode (.state .exit) ⟨⟨2⟩⟩ fun _ => ⟨⟨3⟩⟩)

/-- An entry that leads straight to an exit. -/
def passage : Scene := gates.edit (.connect ⟨⟨1⟩⟩ ⟨⟨3⟩⟩)

/-- What holds of a scene holds after an operation, if it holds whenever that succeeds. -/
theorem settled_induction {P : Scene → Prop} {s : Scene} {r : Except SceneError Scene} (h : P s)
    (hr : ∀ s', r = .ok s' → P s') : P (s.settled r) := by
  cases r with
  | ok s' => exact hr s' rfl
  | error => exact h

/-- The same for an operation that returns more than a scene. -/
theorem settled_map_induction {α : Type} {P : Scene → Prop} {s : Scene}
    {r : Except SceneError (Scene × α)} (h : P s) (hr : ∀ s' a, r = .ok (s', a) → P s') :
    P (s.settled (r.map Prod.fst)) := by
  rcases r with _ | ⟨s', a⟩
  · exact h
  · exact hr s' a rfl

end Scene

end VisualNovel
