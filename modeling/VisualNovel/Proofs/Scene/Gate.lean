/-
  Gates that are asked to change.  Only one side of a gate is checked, the one that it
  is to lose; but the connectors of both sides are made anew.

  * `Scene.setSwitch_eq_ok`: what a change of a gate has checked, and what it does;
  * `Scene.setSwitch_based_iff`: when the connections of the scene survive it.
-/
import VisualNovel.Proofs.Scene.Editing
import VisualNovel.Proofs.Scene.Wiring

namespace VisualNovel

namespace Node

/-- The node as a gate, with new connectors. -/
def asGate (switch : Switch) (connector : Nat → ConnectorId) (n : Node) : Node :=
  { n with
    content := .state switch
    inputs := Connector.row .input switch.layout.1 connector
    outputs := Connector.row .output switch.layout.2 fun i => connector (switch.layout.1 + i) }

/-- The connectors that must be free for a gate to become what it is asked to be. -/
def lost (n : Node) : Switch → List Connector
  | .enter => n.inputs
  | .exit => n.outputs

/-- The connectors on the other side, which nobody checks. -/
def kept (n : Node) : Switch → List Connector
  | .enter => n.outputs
  | .exit => n.inputs

theorem mem_connectors_iff {n : Node} {x : Connector} (switch : Switch) :
    x ∈ n.connectors ↔ x ∈ n.lost switch ∨ x ∈ n.kept switch := by
  cases switch with
  | enter => exact List.mem_append
  | exit => exact List.mem_append.trans or_comm

theorem connectors_asGate (switch : Switch) (connector : Nat → ConnectorId) (n : Node) :
    (n.asGate switch connector).connectors =
      [{ id := connector 0, flow := match switch with | .enter => .output | .exit => .input }] := by
  cases switch <;> rfl

end Node

namespace Scene

/-- A gate that changes had no connected connector on the side that it loses. -/
theorem setSwitch_eq_ok {s s' : Scene} {id : NodeId} {switch : Switch}
    {connector : Nat → ConnectorId} (h : s.setSwitch id switch connector = .ok s') :
    ∃ n old, s.node? id = some n ∧ n.content = .state old ∧
      (∀ x ∈ n.lost switch, x.connected = false) ∧
      s' = s.modifyNode id (Node.asGate switch connector) := by
  unfold setSwitch at h
  split at h
  · cases h
  rename_i n hn
  split at h
  · rename_i old hold
    dsimp only at h
    split_ifs at h with hlost
    cases h
    refine ⟨n, old, hn, hold, ?_, rfl⟩
    cases switch <;> simpa [Node.lost] using hlost
  · cases h

/-- The connections of a scene and the marks of its connectors survive the change of a
    gate exactly if nothing touches the new connector and if every connector on the
    side that is not checked is free, or has a double at another node. -/
theorem setSwitch_based_iff {s s' : Scene} {id : NodeId} {n : Node} {switch : Switch}
    {connector : Nat → ConnectorId} (hj : Joined s.connectors s.connections)
    (hm : Marked s.connectors s.connections) (hn : s.node? id = some n)
    (hs : s.setSwitch id switch connector = .ok s') :
    (Based s'.connectors s'.connections ∧ Marked s'.connectors s'.connections) ↔
      (∀ c ∈ s.connections, c.touches (connector 0) = false) ∧
      ∀ x ∈ n.kept switch, x.connected = true →
        ∃ m ∈ s.nodes.eraseP (fun n => decide (n.id = id)), ∃ y ∈ m.connectors, y.id = x.id := by
  obtain ⟨n', old, hn', -, hlost, rfl⟩ := setSwitch_eq_ok hs
  obtain rfl := Option.some.inj (hn.symm.trans hn')
  obtain ⟨-, before, after, hnodes, hmod, herase⟩ := nodes_modifyNode hn
  have hold := connectors_perm hnodes
  have hnew := connectors_perm (hmod (Node.asGate switch connector))
  rw [Node.connectors_asGate] at hnew
  rw [based_perm hnew, marked_perm hnew, connections_modifyNode, List.singleton_append,
    based_marked_cons_iff ((based_perm hold).1 hj.based) ((marked_perm hold).1 hm) rfl, herase]
  refine and_congr_right fun _ => forall_congr' fun x => ?_
  have hrest : (∃ y ∈ (before ++ after).flatMap Node.connectors, y.id = x.id) ↔
      ∃ m ∈ before ++ after, ∃ y ∈ m.connectors, y.id = x.id := by
    simp only [List.mem_flatMap]
    grind
  rw [hrest, Node.mem_connectors_iff switch]
  -- the connectors on the side that was checked are free anyway
  constructor
  · exact fun h hx => h (.inr hx)
  · rintro h (hx | hx) hx'
    · simp [hlost x hx] at hx'
    · exact h hx hx'

/-- A gate that is free may change. -/
theorem setSwitch_based_gates :
    Joined gates.connectors gates.connections ∧ Marked gates.connectors gates.connections ∧
    ∃ n s', gates.node? ⟨⟨0⟩⟩ = some n ∧
      gates.setSwitch ⟨⟨0⟩⟩ .exit (fun _ => ⟨⟨4⟩⟩) = .ok s' ∧
      Based s'.connectors s'.connections ∧ Marked s'.connectors s'.connections := by
  have hj : Joined gates.connectors gates.connections := by decide
  have hm : Marked gates.connectors gates.connections := by decide
  have hn : gates.node? ⟨⟨0⟩⟩ = some _ := rfl
  have hs : gates.setSwitch ⟨⟨0⟩⟩ .exit (fun _ => ⟨⟨4⟩⟩) = .ok _ := rfl
  exact ⟨hj, hm, _, _, hn, hs, (setSwitch_based_iff hj hm hn hs).2 ⟨by decide, by decide⟩⟩

/-- The entry of the passage, asked to be the entry that it is, leaves the passage
    with a connection from nowhere. -/
theorem setSwitch_orphans :
    ∃ s', passage.setSwitch ⟨⟨0⟩⟩ .enter (fun _ => ⟨⟨4⟩⟩) = .ok s' ∧
      Joined passage.connectors passage.connections ∧
      Marked passage.connectors passage.connections ∧
      ∃ c ∈ s'.connections, ∀ x ∈ s'.connectors, x.id ≠ c.source :=
  ⟨_, rfl, by decide, by decide, by decide⟩

end Scene

end VisualNovel
