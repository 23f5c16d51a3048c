/-
  The answers that a scene gives to whoever reads through its lists, and those that its
  look-up tables give.  Nothing is asked of the scene: identities may be used twice,
  connections may fork, come in any order and end nowhere.

  * `Scene.owner?` is the last node with an input;
  * `ConnectionIndex.scans`: the tables answer as the lists do.
-/
import VisualNovel.Proofs.Scene.Way

namespace VisualNovel

/-- The last node that has a connector among its inputs. -/
def Scene.owner? (s : Scene) (input : ConnectorId) : Option NodeId :=
  (s.nodes.filter fun n => n.inputs.any fun x => decide (x.id = input)).getLast?.map Node.id

namespace ConnectionIndex
variable (s : Scene)

theorem owner?_eq_scan (input : ConnectorId) : (ofScene s).owner? input = s.owner? input := by
  rw [owner?_ofScene, Scene.owner?, List.getLast?_filter]
  rfl

theorem targets_eq_scan (source : ConnectorId) :
    (ofScene s).targets source =
      (s.connections.filter fun c => decide (c.source = source)).map Connection.target := by
  have hfilter : (s.connections.filter fun c => decide (c.source = source)) =
      (s.connections.zipIdx.filter fun x => decide (x.1.source = source)).map Prod.fst := by
    have hmap : s.connections = s.connections.zipIdx.map Prod.fst := by simp
    exact (congrArg (List.filter _) hmap).trans List.filter_map
  rw [targets, leaving_ofScene, hfilter, List.map_map, List.map_map]
  rfl

variable {s}

/-- Where no two nodes have one identity, the last of an identity is the first. -/
theorem node?_eq_scan (h : (s.nodes.map Node.id).Nodup) (id : NodeId) :
    (ofScene s).node? s id = s.node? id := by
  have honce : s.nodes.Pairwise fun m n => ¬((m.id == id) = true ∧ (n.id == id) = true) := by
    refine (List.pairwise_map.1 h).imp fun hne => ?_
    rintro ⟨hm, hn⟩
    exact hne ((beq_iff_eq.1 hm).trans (beq_iff_eq.1 hn).symm)
  rw [node?_ofScene, find?_reverse honce]
  rfl

end ConnectionIndex

/-- A node leads to the last node that owns the target of the first connection from any of its
    outputs, and nowhere if nobody owns that target, whatever connections come after it; an
    output alone does so too.  The targets of an output are those of its connections in order.
    Where no two nodes have one identity, a node is found by it as in the scene; how often
    connectors occur does not matter. -/
theorem ConnectionIndex.scans (s : Scene) :
    (∀ n : Node, (ofScene s).successor? n =
      (s.connections.find? fun c => n.outputs.any fun o => decide (o.id = c.source)).bind
        fun c => s.owner? c.target) ∧
    (∀ source, (ofScene s).follow? source =
      (s.connections.find? fun c => decide (c.source = source)).bind fun c => s.owner? c.target) ∧
    (∀ source, (ofScene s).targets source =
      (s.connections.filter fun c => decide (c.source = source)).map Connection.target) ∧
    (∀ input, (ofScene s).owner? input = s.owner? input) ∧
    ((s.nodes.map Node.id).Nodup → ∀ id, (ofScene s).node? s id = s.node? id) := by
  have howner : (fun c : Connection => (ofScene s).owner? c.target) = fun c => s.owner? c.target :=
    funext fun c => owner?_eq_scan s c.target
  refine ⟨fun n => ?_, fun source => ?_, targets_eq_scan s, owner?_eq_scan s, node?_eq_scan⟩
  · rw [successor?_ofScene, howner]
    rfl
  · rw [follow?_ofScene, howner]
    rfl

/-- An entry that forks, first to nowhere and then to an exit whose input occurs twice. -/
def Scene.forked : Scene where
  name := "Forked"
  nodes := [
    { id := ⟨⟨0⟩⟩, outputs := [{ id := ⟨⟨1⟩⟩, flow := .output }, { id := ⟨⟨2⟩⟩, flow := .output }],
      content := .state .enter },
    { id := ⟨⟨3⟩⟩, inputs := [{ id := ⟨⟨4⟩⟩, flow := .input }], content := .state .exit },
    { id := ⟨⟨5⟩⟩, inputs := [{ id := ⟨⟨4⟩⟩, flow := .input }], content := .combiner }]
  connections := [⟨⟨⟨2⟩⟩, ⟨⟨6⟩⟩⟩, ⟨⟨⟨1⟩⟩, ⟨⟨4⟩⟩⟩, ⟨⟨⟨2⟩⟩, ⟨⟨4⟩⟩⟩]

/-- The entry leads nowhere, though its first output alone leads to the last owner of the
    input, and though its second output has a target that is owned. -/
theorem ConnectionIndex.scans_forked :
    (Scene.forked.nodes.map Node.id).Nodup ∧ ∃ n,
      (ofScene .forked).node? .forked ⟨⟨0⟩⟩ = some n ∧ (ofScene .forked).successor? n = none ∧
      (ofScene .forked).follow? ⟨⟨1⟩⟩ = some ⟨⟨5⟩⟩ ∧ (ofScene .forked).follow? ⟨⟨2⟩⟩ = none ∧
      (ofScene .forked).targets ⟨⟨2⟩⟩ = [⟨⟨6⟩⟩, ⟨⟨4⟩⟩] := by
  obtain ⟨hsuccessor, hfollow, htargets, -, hnode⟩ := ConnectionIndex.scans .forked
  have hdistinct : (Scene.forked.nodes.map Node.id).Nodup := by decide
  exact ⟨hdistinct, _, (hnode hdistinct _).trans rfl, (hsuccessor _).trans rfl,
    (hfollow _).trans rfl, (hfollow _).trans rfl, (htargets _).trans rfl⟩

end VisualNovel
