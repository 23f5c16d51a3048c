/-
  Where nodes lead, read off the list of connections alone.

  * `Scene.departure?` is the first connection that leaves any of some outputs,
    `Scene.arrival?` the node that a connection ends at;
  * `Scene.Distinct`: no two nodes and no two connectors of a scene have one identity;
  * `Scene.Distinct.owner?_ofScene`, `Scene.Distinct.node?_ofScene`: then the look-up tables
    find what the lists hold.
-/
import Mathlib.Data.List.Nodup
import VisualNovel.Proofs.Scene.Index
import VisualNovel.Proofs.Scene.Shape

namespace VisualNovel

section
variable {α : Type} {as : List α} {p : α → Bool}

/-- Where no two items satisfy a condition, the first that does is the last. -/
theorem find?_reverse (h : as.Pairwise fun a b => ¬(p a = true ∧ p b = true)) :
    as.reverse.find? p = as.find? p := by
  induction as with
  | nil => rfl
  | cons a as ih =>
    obtain ⟨hfirst, hrest⟩ := List.pairwise_cons.1 h
    rw [List.reverse_cons, List.find?_append, ih hrest, List.find?_singleton, List.find?_cons]
    cases ha : p a with
    | true =>
      have hnone : as.find? p = none :=
        List.find?_eq_none.2 fun b hb hpb => hfirst b hb ⟨ha, hpb⟩
      rw [hnone]
      rfl
    | false => simp

end

namespace Scene

/-- The first connection that leaves any of some outputs. -/
def departure? (s : Scene) (outputs : List Connector) : Option Connection :=
  s.connections.find? fun c => outputs.any fun o => decide (o.id = c.source)

/-- The node that has the end of a connection among its inputs. -/
def arrival? (s : Scene) (c : Connection) : Option NodeId :=
  (s.nodes.find? fun n => n.inputs.any fun x => decide (x.id = c.target)).map Node.id

/-- A scene in which identities are not used twice. -/
structure Distinct (s : Scene) : Prop where
  nodes : (s.nodes.map Node.id).Nodup
  connectors : (s.connectors.map Connector.id).Nodup

namespace Distinct
variable {s : Scene}

/-- An input belongs to one node only. -/
theorem owner (h : s.Distinct) (c : ConnectorId) :
    s.nodes.Pairwise fun m n =>
      ¬((m.inputs.any fun x => x.id == c) = true ∧ (n.inputs.any fun x => x.id == c) = true) := by
  have hpairs := h.connectors
  rw [Scene.connectors, List.map_flatMap, List.nodup_flatMap] at hpairs
  refine hpairs.2.imp fun hdis => ?_
  rintro ⟨hm, hn⟩
  obtain ⟨x, hx, hxc⟩ := List.any_eq_true.1 hm
  obtain ⟨y, hy, hyc⟩ := List.any_eq_true.1 hn
  rw [beq_iff_eq] at hxc hyc
  exact hdis (List.mem_map.2 ⟨x, List.mem_append_left _ hx, hxc⟩)
    (List.mem_map.2 ⟨y, List.mem_append_left _ hy, hyc⟩)

theorem owner?_ofScene (h : s.Distinct) (c : Connection) :
    (ConnectionIndex.ofScene s).owner? c.target = s.arrival? c := by
  rw [ConnectionIndex.owner?_ofScene, find?_reverse (h.owner c.target)]
  rfl

theorem node?_ofScene (h : s.Distinct) {n : Node} (hn : n ∈ s.nodes) :
    (ConnectionIndex.ofScene s).node? s n.id = some n := by
  have hpairs : s.nodes.Pairwise fun a b => ¬((a.id == n.id) = true ∧ (b.id == n.id) = true) := by
    refine (List.pairwise_map.1 h.nodes).imp fun hne => ?_
    rintro ⟨ha, hb⟩
    exact hne ((beq_iff_eq.1 ha).trans (beq_iff_eq.1 hb).symm)
  rw [ConnectionIndex.node?_ofScene, find?_reverse hpairs]
  obtain ⟨m, hm⟩ : ∃ m, (s.nodes.find? fun m => m.id == n.id) = some m :=
    Option.isSome_iff_exists.1 (List.find?_isSome.2 ⟨n, hn, beq_self_eq_true n.id⟩)
  have hid := List.find?_some hm
  rw [hm, List.inj_on_of_nodup_map h.nodes (List.mem_of_find?_eq_some hm) hn (beq_iff_eq.1 hid)]

end Distinct

end Scene

end VisualNovel
