/-
  What nodes record of their neighbours.  A node refers back to the node before it, and
  forth to the node after it; where it has choices, each of them has its own way on.  A
  reference goes by some connectors of its node.

  * `Node.references`, `Scene.references`: all references of a node and of a scene;
  * `Reference.told`: what a reference is when a connection was made or undone;
  * `Node.references_told`: the references of a node are told alike;
  * `Scene.references_join`, `Scene.references_release`: so are those of all nodes, when
    connectors are joined and when a connection is released.
-/
import Mathlib.Data.List.Pairwise
import VisualNovel.Proofs.Scene.Layout
import VisualNovel.Proofs.Scene.Way

namespace VisualNovel

/-- Where a reference of a node leads. -/
inductive Bearing where
  | back
  | forth
  /-- The way of a choice. -/
  | way
  deriving DecidableEq

/-- The end of a connection that is at a node which refers by it. -/
def Bearing.near : Bearing → Connection → ConnectorId
  | back, c => c.target
  | forth, c | way, c => c.source

/-- A reference of a node: whom it names, and the connectors of the node that it goes by. -/
structure Reference where
  bearing : Bearing
  node : Option NodeId
  ends : List ConnectorId

namespace Reference

/-- A connection is one that the reference goes by. -/
def Meets (r : Reference) (c : Connection) : Prop := r.bearing.near c ∈ r.ends

instance (r : Reference) (c : Connection) : Decidable (r.Meets c) :=
  inferInstanceAs (Decidable (_ ∈ _))

/-- The reference after its node was told of a connection, with new names for the nodes at
    both ends. -/
def told (c : Connection) (source target : Option NodeId) (r : Reference) : Reference :=
  if r.Meets c then { r with node := if r.bearing = .back then source else target } else r

variable {c : Connection} {source target : Option NodeId} {r : Reference}

theorem told_of_meets (h : r.Meets c) :
    r.told c source target = { r with node := if r.bearing = .back then source else target } :=
  if_pos h

theorem told_of_not_meets (h : ¬r.Meets c) : r.told c source target = r := if_neg h

end Reference

namespace Node

/-- A connection leaves the node. -/
def Sends (n : Node) (c : Connection) : Prop := c.source ∈ n.outputs.map Connector.id

/-- A connection ends at the node. -/
def Receives (n : Node) (c : Connection) : Prop := c.target ∈ n.inputs.map Connector.id

instance (n : Node) (c : Connection) : Decidable (n.Sends c) := inferInstanceAs (Decidable (_ ∈ _))

instance (n : Node) (c : Connection) : Decidable (n.Receives c) :=
  inferInstanceAs (Decidable (_ ∈ _))

/-- The references of a node to what comes after it. -/
def ways (n : Node) : List Reference :=
  match n.content with
  | .choice choices => choices.map fun c => ⟨.way, c.next, (n.output? c.output).toList⟩
  | _ => [⟨.forth, n.next, n.outputs.map Connector.id⟩]

/-- All references of a node. -/
def references (n : Node) : List Reference :=
  ⟨.back, n.previous, n.inputs.map Connector.id⟩ :: n.ways

theorem ways_of_choice {n : Node} {choices : List Choice} (h : n.content = .choice choices) :
    n.ways = choices.map fun c => ⟨.way, c.next, (n.output? c.output).toList⟩ := by
  rw [ways, h]

theorem ways_of_other {n : Node} (h : ∀ choices, n.content ≠ .choice choices) :
    n.ways = [⟨.forth, n.next, n.outputs.map Connector.id⟩] := by
  unfold ways
  split
  · rename_i choices hc
    exact absurd hc (h choices)
  · rfl

theorem output?_eq (n : Node) (i : Nat) : n.output? i = (n.outputs.map Connector.id)[i]? :=
  List.getElem?_map.symm

theorem output?_mem {n : Node} {i : Nat} {x : ConnectorId} (h : n.output? i = some x) :
    x ∈ n.outputs.map Connector.id := by
  rw [output?_eq] at h
  exact List.mem_of_getElem? h

/-- What comes after a node is referred to by its outputs. -/
theorem ways_ends {n : Node} {r : Reference} (h : r ∈ n.ways) :
    r.bearing ≠ .back ∧ ∀ x ∈ r.ends, x ∈ n.outputs.map Connector.id := by
  by_cases hc : ∃ choices, n.content = .choice choices
  · obtain ⟨choices, hc⟩ := hc
    rw [ways_of_choice hc] at h
    obtain ⟨c, -, rfl⟩ := List.mem_map.1 h
    exact ⟨by simp, fun x hx => output?_mem (Option.mem_toList.1 hx)⟩
  · rw [ways_of_other fun choices hc' => hc ⟨choices, hc'⟩] at h
    obtain rfl := List.mem_singleton.1 h
    exact ⟨by simp, fun x hx => hx⟩

theorem meets_ways {n : Node} {r : Reference} (h : r ∈ n.ways) {c : Connection} :
    r.Meets c ↔ c.source ∈ r.ends := by
  obtain ⟨hb, -⟩ := ways_ends h
  unfold Reference.Meets
  cases hr : r.bearing with
  | back => exact absurd hr hb
  | forth | way => rfl

/-! ## What a node is told -/

/-- The node after it was told of a connection that may end at it. -/
def heard (c : Connection) (source : Option NodeId) (n : Node) : Node :=
  if n.Receives c then { n with previous := source } else n

/-- The node after it was told of a connection. -/
def told (c : Connection) (source target : Option NodeId) (n : Node) : Node :=
  if n.Sends c then (n.heard c source).refer c.source target else n.heard c source

theorem shape_heard (c : Connection) (source : Option NodeId) (n : Node) :
    (n.heard c source).shape = n.shape := by
  unfold heard
  split
  · rfl
  · rfl

theorem ways_heard (c : Connection) (source : Option NodeId) (n : Node) :
    (n.heard c source).ways = n.ways := by
  unfold heard
  split
  · rfl
  · rfl

/-- The output of an identity, where identities are distinct, is at one position. -/
theorem output?_eq_some_iff {n : Node} (hd : (n.outputs.map Connector.id).Nodup) {x : ConnectorId}
    {i : Nat} (hi : n.outputs.findIdx? (fun y => decide (y.id = x)) = some i) (j : Nat) :
    n.output? j = some x ↔ j = i := by
  obtain ⟨hlt, hx, -⟩ := List.findIdx?_eq_some_iff_getElem.1 hi
  have hout : n.output? i = some x := by
    rw [output?, List.getElem?_eq_getElem hlt, Option.map_some, of_decide_eq_true hx]
  constructor
  · intro hj
    rw [output?_eq] at hj hout
    exact ((List.getElem?_inj (by simpa using hlt) hd).1 (hout.trans hj.symm)).symm
  · rintro rfl
    exact hout

theorem findIdx?_of_mem {n : Node} {x : ConnectorId} (h : x ∈ n.outputs.map Connector.id) :
    ∃ i, n.outputs.findIdx? (fun y => decide (y.id = x)) = some i := by
  obtain ⟨y, hy, rfl⟩ := List.mem_map.1 h
  refine Option.isSome_iff_exists.1 ?_
  rw [List.findIdx?_isSome, List.any_eq_true]
  exact ⟨y, hy, decide_eq_true rfl⟩

/-- A node that was referred to along an output says so in the references by that output,
    if each way has an output of its own. -/
theorem ways_refer {n : Node} (hb : n.Branched) (hd : (n.outputs.map Connector.id).Nodup)
    {x : ConnectorId} (hx : x ∈ n.outputs.map Connector.id) (next : Option NodeId) :
    (n.refer x next).ways = n.ways.map fun r => if x ∈ r.ends then { r with node := next } else r := by
  obtain ⟨i, hi⟩ := findIdx?_of_mem hx
  by_cases hc : ∃ choices, n.content = .choice choices
  · obtain ⟨choices, hc⟩ := hc
    have honce : choices.Pairwise fun c d =>
        ¬(decide (c.output = i) = true ∧ decide (d.output = i) = true) := by
      have hnodup := ((branched_of_choice hc).1 hb).nodup_iff.2 List.nodup_range
      refine (List.pairwise_map.1 hnodup).imp fun hne => ?_
      simp only [decide_eq_true_eq]
      exact fun h => hne (h.1.trans h.2.symm)
    have hrefer : n.refer x next = { n with
        content := .choice (choices.map fun c =>
          if decide (c.output = i) then { c with next } else c) } := by
      rw [refer, hc, hi]
      dsimp only
      rw [modifyFirst_eq_map honce]
    rw [hrefer, ways_of_choice rfl, ways_of_choice hc, List.map_map, List.map_map]
    refine List.map_congr_left fun c _ => ?_
    have hmeets : x ∈ (n.output? c.output).toList ↔ c.output = i := by
      rw [Option.mem_toList, output?_eq_some_iff hd hi]
    simp only [Function.comp_apply, hmeets, decide_eq_true_eq]
    split_ifs <;> rfl
  · have hc : ∀ choices, n.content ≠ .choice choices := fun choices h => hc ⟨choices, h⟩
    have hrefer : n.refer x next = { n with next } := by
      unfold refer
      split
      · rename_i choices _ h _
        exact absurd h (hc choices)
      · rfl
    rw [hrefer, ways_of_other (n := { n with next }) hc, ways_of_other hc]
    simp [hx]

theorem refer_frame (x : ConnectorId) (next : Option NodeId) (n : Node) :
    (n.refer x next).previous = n.previous ∧ (n.refer x next).inputs = n.inputs := by
  unfold refer
  split
  · exact ⟨rfl, rfl⟩
  · exact ⟨rfl, rfl⟩

theorem shape_told (c : Connection) (source target : Option NodeId) (n : Node) :
    (n.told c source target).shape = n.shape := by
  unfold told
  split
  · rw [shape_refer, shape_heard]
  · rw [shape_heard]

/-- The references of a node are told what the node is told. -/
theorem references_told {n : Node} (hb : n.Branched) (hd : (n.outputs.map Connector.id).Nodup)
    (c : Connection) (source target : Option NodeId) :
    (n.told c source target).references = n.references.map (Reference.told c source target) := by
  have hways : (n.told c source target).ways = n.ways.map (Reference.told c source target) := by
    unfold told
    by_cases hs : n.Sends c
    · have htold : n.ways.map (Reference.told c source target) = n.ways.map fun r =>
          if c.source ∈ r.ends then { r with node := target } else r := by
        refine List.map_congr_left fun r hr => ?_
        rw [Reference.told, if_neg (ways_ends hr).1]
        simp only [meets_ways hr]
      have hout : (n.heard c source).outputs = n.outputs := by
        unfold heard
        split
        · rfl
        · rfl
      have hbranched : (n.heard c source).Branched := by
        rwa [← branched_shape, shape_heard, branched_shape]
      have hrefer := ways_refer hbranched (by rwa [hout]) (x := c.source) (by rwa [hout]) target
      rw [if_pos hs, htold, hrefer, ways_heard]
    · have htold : n.ways.map (Reference.told c source target) = n.ways := by
        refine (List.map_congr_left fun r hr => ?_).trans (List.map_id _)
        exact Reference.told_of_not_meets fun hmeets =>
          hs ((ways_ends hr).2 _ ((meets_ways hr).1 hmeets))
      rw [if_neg hs, htold, ways_heard]
  have hframe : (n.told c source target).inputs = n.inputs ∧
      (n.told c source target).previous = if n.Receives c then source else n.previous := by
    have hheard : (n.heard c source).inputs = n.inputs ∧
        (n.heard c source).previous = if n.Receives c then source else n.previous := by
      unfold heard
      split_ifs
      · exact ⟨rfl, rfl⟩
      · exact ⟨rfl, rfl⟩
    unfold told
    by_cases hs : n.Sends c
    · rw [if_pos hs, (refer_frame ..).1, (refer_frame ..).2]
      exact hheard
    · rw [if_neg hs]
      exact hheard
  have hback : Reference.told c source target ⟨.back, n.previous, n.inputs.map Connector.id⟩ =
      ⟨.back, if n.Receives c then source else n.previous, n.inputs.map Connector.id⟩ := by
    unfold Reference.told
    by_cases hr : n.Receives c
    · rw [if_pos hr]
      exact if_pos hr
    · rw [if_neg hr]
      exact if_neg hr
  rw [references, references, List.map_cons, hways, hframe.1, hframe.2, hback]

theorem references_congr {m n : Node} (hprevious : m.previous = n.previous) (hnext : m.next = n.next)
    (hcontent : m.content = n.content) (hin : m.inputs.map Connector.id = n.inputs.map Connector.id)
    (hout : m.outputs.map Connector.id = n.outputs.map Connector.id) :
    m.references = n.references := by
  unfold references ways
  simp only [output?_eq, hprevious, hnext, hcontent, hin, hout]

/-- Marks are no part of what a node refers to. -/
theorem references_mark (connected : Bool) (x : ConnectorId) (n : Node) :
    (n.mark connected x).references = n.references := by
  have hput : ∀ xs : List Connector,
      (modifyFirst (fun y => decide (y.id = x)) (fun y => { y with connected }) xs).map
        Connector.id = xs.map Connector.id := map_modifyFirst fun _ => rfl
  unfold mark
  dsimp only
  split
  · exact references_congr rfl rfl rfl (hput _) rfl
  · exact references_congr rfl rfl rfl rfl (hput _)

theorem sends_of_shape {m n : Node} (h : m.shape = n.shape) {c : Connection} :
    m.Sends c ↔ n.Sends c := by
  have hids : m.outputs.map Connector.id = n.outputs.map Connector.id := side_of_shape h .output
  rw [Sends, Sends, hids]

theorem receives_of_shape {m n : Node} (h : m.shape = n.shape) {c : Connection} :
    m.Receives c ↔ n.Receives c := by
  have hids : m.inputs.map Connector.id = n.inputs.map Connector.id := side_of_shape h .input
  rw [Receives, Receives, hids]

theorem id_of_shape {m n : Node} (h : m.shape = n.shape) : m.id = n.id := by
  change m.shape.id = n.shape.id
  rw [h]

end Node

/-! ## Scenes -/

namespace Scene

/-- All references of the nodes of a scene. -/
def references (s : Scene) : List (NodeId × Reference) :=
  s.nodes.flatMap fun n => n.references.map fun r => (n.id, r)

theorem mem_references {s : Scene} {id : NodeId} {r : Reference} :
    (id, r) ∈ s.references ↔ ∃ n ∈ s.nodes, n.id = id ∧ r ∈ n.references := by
  simp only [references, List.mem_flatMap, List.mem_map, Prod.mk.injEq]
  constructor
  · rintro ⟨n, hn, r, hr, hid, rfl⟩
    exact ⟨n, hn, hid, hr⟩
  · rintro ⟨n, hn, hid, hr⟩
    exact ⟨n, hn, r, hr, hid, rfl⟩

@[simp] theorem references_mark (s : Scene) (x : ConnectorId) (connected : Bool) :
    (s.mark x connected).references = s.references := by
  have hview := map_modifyFirst (p := fun n => n.owns x) (f := Node.mark connected x)
    (g := fun n => n.references.map fun r => (n.id, r))
    (fun n => by rw [Node.references_mark, Node.id_of_shape (Node.shape_mark connected x n)])
    s.nodes
  rw [references, references, List.flatMap_def, List.flatMap_def, ← hview]
  rfl

theorem exists_of_shapes {s t : Scene} (h : s.shapes = t.shapes) {n : Node} (hn : n ∈ s.nodes) :
    ∃ m ∈ t.nodes, m.shape = n.shape := by
  have hmem : n.shape ∈ t.shapes := h ▸ List.mem_map_of_mem hn
  exact List.mem_map.1 hmem

theorem nodeIds_congr {s t : Scene} (h : s.shapes = t.shapes) :
    s.nodes.map Node.id = t.nodes.map Node.id := by
  have key : ∀ s : Scene, s.nodes.map Node.id = s.shapes.map Node.id := by
    intro s
    rw [shapes, List.map_map]
    rfl
  rw [key, h, key]

theorem connectorIds_congr {s t : Scene} (h : s.shapes = t.shapes) :
    s.connectors.map Connector.id = t.connectors.map Connector.id := by
  have key : ∀ s : Scene, s.connectors.map Connector.id =
      (s.shapes.flatMap Node.connectors).map Connector.id := by
    intro s
    rw [shapes, connectors, List.flatMap_map, List.map_flatMap, List.map_flatMap]
    simp only [Node.connectors_shape, List.map_map]
    rfl
  rw [key, h, key]

theorem distinct_congr {s t : Scene} (h : s.shapes = t.shapes) : s.Distinct ↔ t.Distinct := by
  have hnodes := nodeIds_congr h
  have hconnectors := connectorIds_congr h
  constructor
  · exact fun hs => ⟨hnodes ▸ hs.nodes, hconnectors ▸ hs.connectors⟩
  · exact fun ht => ⟨hnodes ▸ ht.nodes, hconnectors ▸ ht.connectors⟩

theorem Intact.isDistinct {s : Scene} (h : s.Intact) : s.Distinct where
  nodes := by
    have hpairs := h.distinct
    rw [ids, List.nodup_flatMap] at hpairs
    refine List.pairwise_map.2 (hpairs.2.imp fun hdis heq => ?_)
    exact hdis List.mem_cons_self (heq ▸ List.mem_cons_self)
  connectors := h.nodup

namespace Distinct
variable {s : Scene} (h : s.Distinct)
include h

theorem eq_of_id {m n : Node} (hm : m ∈ s.nodes) (hn : n ∈ s.nodes) (hid : m.id = n.id) : m = n :=
  List.inj_on_of_nodup_map h.nodes hm hn hid

theorem node?_eq {n : Node} (hn : n ∈ s.nodes) : s.node? n.id = some n := by
  obtain ⟨m, hm⟩ : ∃ m, s.node? n.id = some m :=
    Option.isSome_iff_exists.1 (List.find?_isSome.2 ⟨n, hn, decide_eq_true rfl⟩)
  rw [hm, h.eq_of_id (List.mem_of_find?_eq_some hm) hn (by simpa using List.find?_some hm)]

theorem eq_of_connectorId {x y : Connector} (hx : x ∈ s.connectors) (hy : y ∈ s.connectors)
    (hxy : x.id = y.id) : x = y := List.inj_on_of_nodup_map h.connectors hx hy hxy

/-- A connector belongs to one node only. -/
theorem eq_of_connector {m n : Node} (hm : m ∈ s.nodes) (hn : n ∈ s.nodes) {x y : Connector}
    (hx : x ∈ m.connectors) (hy : y ∈ n.connectors) (hxy : x.id = y.id) : m = n := by
  have hpairs := h.connectors
  rw [Scene.connectors, List.map_flatMap, List.nodup_flatMap] at hpairs
  have hsymm : Std.Symm (Function.onFun List.Disjoint fun n : Node =>
      n.connectors.map Connector.id) := ⟨fun _ _ hdis _ ha hb => hdis hb ha⟩
  by_contra hne
  exact hpairs.2.forall hm hn hne (List.mem_map_of_mem hx) (hxy ▸ List.mem_map_of_mem hy)

theorem side {n : Node} (hn : n ∈ s.nodes) (flow : Flow) :
    ((n.side flow).map Connector.id).Nodup := by
  have hpairs := h.connectors
  rw [Scene.connectors, List.map_flatMap, List.nodup_flatMap] at hpairs
  have hnodup := hpairs.1 n hn
  rw [Node.connectors, List.map_append, List.nodup_append] at hnodup
  cases flow with
  | input => exact hnodup.1
  | output => exact hnodup.2.1

theorem outputs {n : Node} (hn : n ∈ s.nodes) : (n.outputs.map Connector.id).Nodup :=
  h.side hn .output

theorem eq_of_sends {m n : Node} (hm : m ∈ s.nodes) (hn : n ∈ s.nodes) {c : Connection}
    (hmc : m.Sends c) (hnc : n.Sends c) : m = n := by
  obtain ⟨x, hx, hxc⟩ := List.mem_map.1 hmc
  obtain ⟨y, hy, hyc⟩ := List.mem_map.1 hnc
  exact h.eq_of_connector hm hn (List.mem_append_right _ hx) (List.mem_append_right _ hy)
    (hxc.trans hyc.symm)

theorem eq_of_receives {m n : Node} (hm : m ∈ s.nodes) (hn : n ∈ s.nodes) {c : Connection}
    (hmc : m.Receives c) (hnc : n.Receives c) : m = n := by
  obtain ⟨x, hx, hxc⟩ := List.mem_map.1 hmc
  obtain ⟨y, hy, hyc⟩ := List.mem_map.1 hnc
  exact h.eq_of_connector hm hn (List.mem_append_left _ hx) (List.mem_append_left _ hy)
    (hxc.trans hyc.symm)

/-- A connector is found at its node. -/
theorem locate?_eq {n : Node} (hn : n ∈ s.nodes) {x : Connector} (hx : x ∈ n.connectors) :
    s.locate? x.id = some (n.id, x) := by
  obtain ⟨⟨id, y⟩, hr⟩ : ∃ r, s.locate? x.id = some r := by
    refine Option.isSome_iff_exists.1 (List.findSome?_isSome_iff.2 ⟨n, hn, ?_⟩)
    rw [Option.isSome_map]
    exact List.find?_isSome.2 ⟨x, hx, decide_eq_true rfl⟩
  obtain ⟨m, hm, rfl, hy, hyx⟩ := exists_of_locate? hr
  rw [hr, h.eq_of_connector hm hn hy hx hyx, h.eq_of_connectorId (mem_connectors.2 ⟨m, hm, hy⟩)
    (mem_connectors.2 ⟨n, hn, hx⟩) hyx]

theorem nodes_modifyNode_eq_map (id : NodeId) (f : Node → Node) :
    (s.modifyNode id f).nodes = s.nodes.map fun n => if n.id = id then f n else n := by
  have honce : s.nodes.Pairwise fun m n => ¬(decide (m.id = id) = true ∧ decide (n.id = id) = true) := by
    refine (List.pairwise_map.1 h.nodes).imp fun hne => ?_
    simp only [decide_eq_true_eq]
    exact fun h => hne (h.1.trans h.2.symm)
  rw [modifyNode, modifyFirst_eq_map honce]
  simp only [decide_eq_true_eq]

variable {m k : Node} (hm : m ∈ s.nodes) (hk : k ∈ s.nodes) {c : Connection} (hs : m.Sends c)
  (hr : k.Receives c) (source target : Option NodeId)
include hm hk hs hr

/-- What the two nodes are told that a connection joins, all nodes are told. -/
theorem nodes_relink :
    ((s.modifyNode k.id fun n => { n with previous := source }).modifyNode m.id
      (Node.refer c.source target)).nodes = s.nodes.map (Node.told c source target) := by
  have ht : (s.modifyNode k.id fun n => { n with previous := source }).Distinct := by
    refine (distinct_congr (shapes_modifyNode ?_)).2 h
    exact fun _ => rfl
  rw [ht.nodes_modifyNode_eq_map, h.nodes_modifyNode_eq_map, List.map_map]
  refine List.map_congr_left fun n hn => ?_
  have hreceives : n.id = k.id ↔ n.Receives c :=
    ⟨fun hid => h.eq_of_id hn hk hid ▸ hr, fun hn' => congrArg _ (h.eq_of_receives hn hk hn' hr)⟩
  have hsends : n.id = m.id ↔ n.Sends c :=
    ⟨fun hid => h.eq_of_id hn hm hid ▸ hs, fun hn' => congrArg _ (h.eq_of_sends hn hm hn' hs)⟩
  have hheard : (if n.id = k.id then { n with previous := source } else n) = n.heard c source := by
    simp only [hreceives, Node.heard]
  have hid : (n.heard c source).id = n.id := Node.id_of_shape (Node.shape_heard c source n)
  rw [Function.comp_apply, hheard, hid]
  simp only [hsends, Node.told]

theorem references_relink (hb : s.Branched) :
    ((s.modifyNode k.id fun n => { n with previous := source }).modifyNode m.id
      (Node.refer c.source target)).references =
      s.references.map fun e => (e.1, e.2.told c source target) := by
  rw [references, h.nodes_relink hm hk hs hr, references, List.flatMap_map, List.map_flatMap]
  refine List.flatMap_congr fun n hn => ?_
  have hid : (n.told c source target).id = n.id := Node.id_of_shape (Node.shape_told c source target n)
  rw [Node.references_told (hb n hn) (h.outputs hn), hid, List.map_map, List.map_map]
  rfl

end Distinct

section
variable {s : Scene} (h : s.Distinct) {m k : Node} (hm : m ∈ s.nodes) (hk : k ∈ s.nodes)
  {c : Connection} (hs : m.Sends c) (hr : k.Receives c)
include h hm hk hs hr

/-- Where connectors are joined, all nodes are told the nodes at the ends. -/
theorem nodes_join :
    (s.join c.source m.id c.target k.id).nodes =
      ((s.mark c.source true).mark c.target true).nodes.map
        (Node.told c (some m.id) (some k.id)) := by
  have hmarks : s.shapes = ((s.mark c.source true).mark c.target true).shapes := by simp
  obtain ⟨m', hm', hms⟩ := exists_of_shapes hmarks hm
  obtain ⟨k', hk', hks⟩ := exists_of_shapes hmarks hk
  rw [← ((distinct_congr hmarks).1 h).nodes_relink hm' hk' ((Node.sends_of_shape hms).2 hs)
    ((Node.receives_of_shape hks).2 hr), Node.id_of_shape hms, Node.id_of_shape hks]
  rfl

end

section
variable {s : Scene} (h : s.Distinct) (hb : s.Branched) {m k : Node} (hm : m ∈ s.nodes)
  (hk : k ∈ s.nodes) {c : Connection} (hs : m.Sends c) (hr : k.Receives c)
include h hb hm hk hs hr

/-- Where connectors are joined, the references by them name the nodes at the ends. -/
theorem references_join :
    (s.join c.source m.id c.target k.id).references =
      s.references.map fun e => (e.1, e.2.told c (some m.id) (some k.id)) := by
  have hmarks : s.shapes = ((s.mark c.source true).mark c.target true).shapes := by simp
  obtain ⟨m', hm', hms⟩ := exists_of_shapes hmarks hm
  obtain ⟨k', hk', hks⟩ := exists_of_shapes hmarks hk
  have hrelink := ((distinct_congr hmarks).1 h).references_relink hm' hk'
    ((Node.sends_of_shape hms).2 hs) ((Node.receives_of_shape hks).2 hr) (some m.id) (some k.id)
    ((branched_congr hmarks).1 hb)
  rw [Node.id_of_shape hms, Node.id_of_shape hks, references_mark, references_mark] at hrelink
  exact hrelink

/-- Where a connection is released, the references by it name nobody. -/
theorem references_release :
    (s.release c).references = s.references.map fun e => (e.1, e.2.told c none none) := by
  obtain ⟨x, hx, hxc⟩ := List.mem_map.1 hs
  obtain ⟨y, hy, hyc⟩ := List.mem_map.1 hr
  have hx' := h.locate?_eq hm (List.mem_append_right _ hx)
  have hy' := h.locate?_eq hk (List.mem_append_left _ hy)
  rw [hxc] at hx'
  rw [hyc] at hy'
  rw [release, hx', hy', ← h.references_relink hm hk hs hr none none hb, refresh, refresh,
    references_mark, references_mark]

end

end Scene

end VisualNovel
