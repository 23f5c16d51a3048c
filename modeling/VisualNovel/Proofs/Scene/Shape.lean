/-
  What connecting and disconnecting leave alone.  The shape of a node is what
  remains of it without the marks of its connectors and without the references to
  its neighbours: identities, flows, layout and content.

  * `Scene.shapes_join`, `Scene.shapes_disconnect?`, `Scene.shapes_disconnectAll`:
    connections come and go without a change of shape;
  * `Scene.ids`, `Node.Laid` and `Node.Branched`, the identities of a scene, the layout of
    a node and the outputs for its ways, are matters of shape;
  * `Scene.nodes_modifyNode`: what a change of one node does to the list of nodes.
-/
import Mathlib.Data.List.Nodup
import VisualNovel.Scene.Edit

namespace VisualNovel

section
variable {α β : Type} {p : α → Bool} {f : α → α}

theorem modifyFirst_append {as bs : List α} {a : α} (has : ∀ x ∈ as, p x = false)
    (ha : p a = true) : modifyFirst p f (as ++ a :: bs) = as ++ f a :: bs := by
  induction as with
  | nil => simp [modifyFirst, ha]
  | cons x as ih =>
    rw [List.cons_append, modifyFirst, has x (by simp)]
    simpa using ih fun y hy => has y (by simp [hy])

theorem eraseP_append_cons {as bs : List α} {a : α} (has : ∀ x ∈ as, p x = false)
    (ha : p a = true) : (as ++ a :: bs).eraseP p = as ++ bs := by
  rw [List.eraseP_append_right _ (by simpa using has), List.eraseP_cons_of_pos ha]

/-- A view that a change does not affect is the same after it. -/
theorem map_modifyFirst {g : α → β} (h : ∀ a, g (f a) = g a) (as : List α) :
    (modifyFirst p f as).map g = as.map g := by
  induction as with
  | nil => rfl
  | cons a as ih =>
    rw [modifyFirst]
    split
    · simp [h]
    · simp [ih]

theorem modifyFirst_eq_self {as : List α} (h : ∀ a ∈ as, p a = true → f a = a) :
    modifyFirst p f as = as := by
  induction as with
  | nil => rfl
  | cons a as ih =>
    obtain ⟨ha, has⟩ := List.forall_mem_cons.1 h
    rw [modifyFirst]
    split_ifs with hp
    · rw [ha hp]
    · rw [ih has]

/-- Where a condition holds of one item at most, changing the first is changing all. -/
theorem modifyFirst_eq_map {as : List α}
    (h : as.Pairwise fun a b => ¬(p a = true ∧ p b = true)) :
    modifyFirst p f as = as.map fun a => if p a then f a else a := by
  induction as with
  | nil => rfl
  | cons a as ih =>
    obtain ⟨hfirst, hrest⟩ := List.pairwise_cons.1 h
    rw [modifyFirst, List.map_cons]
    split_ifs with ha
    · congr 1
      refine ((List.map_congr_left fun b hb => if_neg ?_).trans (List.map_id as)).symm
      exact fun hpb => hfirst b hb ⟨ha, hpb⟩
    · rw [ih hrest]

theorem mem_modifyFirst {as : List α} {a : α} (ha : a ∈ as) :
    a ∈ modifyFirst p f as ∨ f a ∈ modifyFirst p f as := by
  induction as with
  | nil => cases ha
  | cons b bs ih =>
    rw [modifyFirst]
    split_ifs with hb
    · rcases List.mem_cons.1 ha with rfl | ha
      · exact .inr List.mem_cons_self
      · exact .inl (List.mem_cons_of_mem _ ha)
    · rcases List.mem_cons.1 ha with rfl | ha
      · exact .inl List.mem_cons_self
      · exact (ih ha).imp (List.mem_cons_of_mem _) (List.mem_cons_of_mem _)

/-- Where a condition holds of the item at a position at most, only that item changes. -/
theorem eraseIdx_modifyFirst {as : List α} {i : Nat} (h : ∀ a ∈ as.eraseIdx i, p a = false) :
    (modifyFirst p f as).eraseIdx i = as.eraseIdx i := by
  induction as generalizing i with
  | nil => rfl
  | cons a as ih =>
    rw [modifyFirst]
    cases i with
    | zero =>
      rw [List.eraseIdx_cons_zero] at h ⊢
      split_ifs
      · rfl
      · exact modifyFirst_eq_self fun b hb hpb => by simp [h b hb] at hpb
    | succ i =>
      rw [List.eraseIdx_cons_succ, List.forall_mem_cons] at h
      rw [if_neg (by simp [h.1]), List.eraseIdx_cons_succ, List.eraseIdx_cons_succ, ih h.2]

end

/-! ## Shapes -/

/-- The connector without its mark. -/
def Connector.unmarked (x : Connector) : Connector := { x with connected := false }

/-- The content without the references of its choices. -/
def Content.unlinked : Content → Content
  | .choice choices => .choice (choices.map fun c => { c with next := none })
  | content => content

namespace Node

/-- What of a node the connections of its scene have no part in. -/
def shape (n : Node) : Node :=
  { n with
    previous := none, next := none, content := n.content.unlinked
    inputs := n.inputs.map Connector.unmarked
    outputs := n.outputs.map Connector.unmarked }

@[simp] theorem shape_previous (n : Node) (id : Option NodeId) :
    { n with previous := id }.shape = n.shape := rfl

theorem shape_refer (source : ConnectorId) (next : Option NodeId) (n : Node) :
    (n.refer source next).shape = n.shape := by
  unfold refer
  split
  · rename_i choices i hc _
    simp only [shape, hc, Content.unlinked]
    rw [map_modifyFirst]
    exact fun _ => rfl
  · rfl

theorem shape_mark (connected : Bool) (c : ConnectorId) (n : Node) :
    (n.mark connected c).shape = n.shape := by
  unfold mark
  dsimp only
  split
  · simp only [shape]
    rw [map_modifyFirst]
    exact fun _ => rfl
  · simp only [shape]
    rw [map_modifyFirst]
    exact fun _ => rfl

/-- The identities of a node and of its connectors. -/
def ids (n : Node) : List Uuid := n.id.uuid :: n.connectors.map fun x => x.id.uuid

@[simp] theorem ids_shape (n : Node) : n.shape.ids = n.ids := by
  simp only [ids, shape, connectors, List.map_append, List.map_map]
  rfl

theorem connectors_shape (n : Node) : n.shape.connectors = n.connectors.map Connector.unmarked :=
  (List.map_append ..).symm

/-- Nodes of one shape have connectors of the same identities. -/
theorem exists_connector_of_shape {m n : Node} (h : m.shape = n.shape) {x : Connector}
    (hx : x ∈ m.connectors) : ∃ y ∈ n.connectors, y.id = x.id := by
  have hx' : x.unmarked ∈ n.shape.connectors := by
    rw [← h, connectors_shape]
    exact List.mem_map_of_mem hx
  rw [connectors_shape] at hx'
  obtain ⟨y, hy, hyx⟩ := List.mem_map.1 hx'
  refine ⟨y, hy, ?_⟩
  change y.unmarked.id = x.unmarked.id
  rw [hyx]

/-- The connectors on one side of a node. -/
def side (n : Node) : Flow → List Connector
  | .input => n.inputs
  | .output => n.outputs

theorem side_subset {n : Node} {flow : Flow} {x : Connector} (hx : x ∈ n.side flow) :
    x ∈ n.connectors := by
  cases flow with
  | input => exact List.mem_append_left _ hx
  | output => exact List.mem_append_right _ hx

/-- Nodes of one shape have the same connectors on both sides. -/
theorem side_of_shape {m n : Node} (h : m.shape = n.shape) (flow : Flow) :
    (m.side flow).map Connector.id = (n.side flow).map Connector.id := by
  have key : ∀ n : Node, (n.side flow).map Connector.id = (n.shape.side flow).map Connector.id := by
    intro n
    cases flow with
    | input | output =>
      change _ = (List.map Connector.unmarked _).map Connector.id
      rw [List.map_map]
      rfl
  rw [key m, h, ← key n]

theorem output?_of_shape {m n : Node} (h : m.shape = n.shape) (i : Nat) :
    m.output? i = n.output? i := by
  rw [output?, output?, ← List.getElem?_map, ← List.getElem?_map]
  exact congrArg (fun xs : List ConnectorId => xs[i]?) (side_of_shape h .output)

theorem getLast?_inputs_of_shape {m n : Node} (h : m.shape = n.shape) :
    m.inputs.getLast?.map Connector.id = n.inputs.getLast?.map Connector.id := by
  rw [← List.getLast?_map, ← List.getLast?_map]
  exact congrArg List.getLast? (side_of_shape h .input)

/-- The connectors of a node are on the sides that their flows say, and a gate has
    those of its kind. -/
structure Laid (n : Node) : Prop where
  inputs : ∀ x ∈ n.inputs, x.flow = .input
  outputs : ∀ x ∈ n.outputs, x.flow = .output
  gate : ∀ switch, n.content = .state switch →
    n.inputs.length = switch.layout.1 ∧ n.outputs.length = switch.layout.2

theorem Laid.flow {n : Node} (h : n.Laid) {flow : Flow} {x : Connector} (hx : x ∈ n.side flow) :
    x.flow = flow := by
  cases flow with
  | input => exact h.inputs x hx
  | output => exact h.outputs x hx

end Node

theorem Content.unlinked_eq_state {content : Content} {switch : Switch} :
    content.unlinked = .state switch ↔ content = .state switch := by
  cases content <;> simp [unlinked]

/-- Nodes of one shape are gates of one kind. -/
theorem Node.state_of_shape {m n : Node} (h : m.shape = n.shape) {switch : Switch}
    (hm : m.content = .state switch) : n.content = .state switch := by
  have hc : m.content.unlinked = n.content.unlinked := congrArg Node.content h
  exact Content.unlinked_eq_state.1 (hc ▸ Content.unlinked_eq_state.2 hm)

@[simp] theorem Node.laid_shape (n : Node) : n.shape.Laid ↔ n.Laid := by
  constructor
  · rintro ⟨hi, ho, hg⟩
    refine ⟨fun x hx => hi x.unmarked (List.mem_map_of_mem hx),
      fun x hx => ho x.unmarked (List.mem_map_of_mem hx), fun switch h => ?_⟩
    simpa [shape] using hg switch (Content.unlinked_eq_state.2 h)
  · rintro ⟨hi, ho, hg⟩
    refine ⟨fun x hx => ?_, fun x hx => ?_, fun switch h => ?_⟩
    · obtain ⟨y, hy, rfl⟩ := List.mem_map.1 hx
      exact hi y hy
    · obtain ⟨y, hy, rfl⟩ := List.mem_map.1 hx
      exact ho y hy
    · simpa [shape] using hg switch (Content.unlinked_eq_state.1 h)

/-! ## Ways -/

/-- Each way that a node may take has an output of its own: choices leave through all of its
    outputs, each through one, and a condition has two. -/
def Node.Branched (n : Node) : Prop :=
  match n.content with
  | .choice choices => (choices.map Choice.output).Perm (List.range n.outputs.length)
  | .condition _ => n.outputs.length = 2
  | _ => True

namespace Node

theorem branched_of_choice {n : Node} {choices : List Choice} (hc : n.content = .choice choices) :
    n.Branched ↔ (choices.map Choice.output).Perm (List.range n.outputs.length) := by
  rw [Branched, hc]

theorem branched_of_condition {n : Node} {c : Check} (hc : n.content = .condition c) :
    n.Branched ↔ n.outputs.length = 2 := by
  rw [Branched, hc]

/-- A node of the shape of one with choices has choices that leave through the same outputs. -/
theorem choice_of_shape {m n : Node} (h : m.shape = n.shape) {choices : List Choice}
    (hc : n.content = .choice choices) :
    ∃ others, m.content = .choice others ∧
      others.map Choice.output = choices.map Choice.output := by
  have hcontent : m.content.unlinked = n.content.unlinked := congrArg Node.content h
  rw [hc] at hcontent
  cases hm : m.content with
  | choice others =>
    rw [hm] at hcontent
    refine ⟨others, rfl, ?_⟩
    have houtputs := congrArg (List.map Choice.output) (Content.choice.inj hcontent)
    rwa [List.map_map, List.map_map] at houtputs
  | _ =>
    rw [hm] at hcontent
    cases hcontent

/-- Nodes of one shape take the same ways. -/
theorem branched_shape (n : Node) : n.shape.Branched ↔ n.Branched := by
  unfold Branched shape
  cases n.content <;> simp [Content.unlinked, Function.comp_def]

end Node

/-! ## Scenes -/

namespace Scene

/-- The shapes of the nodes. -/
def shapes (s : Scene) : List Node := s.nodes.map Node.shape

/-- What of a scene is neither nodes nor connections. -/
def bare (s : Scene) : Scene := { s with nodes := [], connections := [] }

/-- All connectors of a scene, in the order of its nodes. -/
def connectors (s : Scene) : List Connector := s.nodes.flatMap Node.connectors

/-- The identities of all nodes and connectors. -/
def ids (s : Scene) : List Uuid := s.nodes.flatMap Node.ids

theorem mem_connectors {s : Scene} {x : Connector} :
    x ∈ s.connectors ↔ ∃ n ∈ s.nodes, x ∈ n.connectors := List.mem_flatMap

theorem ids_eq_shapes (s : Scene) : s.ids = s.shapes.flatMap Node.ids := by
  simp [ids, shapes, List.flatMap_map]

theorem ids_congr {s t : Scene} (h : s.shapes = t.shapes) : s.ids = t.ids := by
  rw [ids_eq_shapes, h, ids_eq_shapes]

theorem laid_congr {s t : Scene} (h : s.shapes = t.shapes) :
    (∀ n ∈ s.nodes, n.Laid) ↔ ∀ n ∈ t.nodes, n.Laid := by
  have key : ∀ s : Scene, (∀ n ∈ s.nodes, n.Laid) ↔ ∀ n ∈ s.shapes, n.Laid := by
    simp [shapes]
  rw [key, h, key]

/-- Connectors with distinct identities: a consequence of distinct identities all
    over the scene. -/
theorem nodup_connectors {s : Scene} (h : s.ids.Nodup) : (s.connectors.map Connector.id).Nodup := by
  have hsub : (s.connectors.map fun x => x.id.uuid).Sublist s.ids := by
    unfold connectors ids
    induction s.nodes with
    | nil => exact .slnil
    | cons n ns ih =>
      rw [List.flatMap_cons, List.map_append, List.flatMap_cons]
      exact ((List.sublist_cons_self _ _).append ih)
  refine List.Nodup.of_map ConnectorId.uuid ?_
  simpa [List.map_map, Function.comp_def] using hsub.nodup h

/-! ## Shapes of edited scenes -/

theorem shapes_modifyNode {s : Scene} {id : NodeId} {f : Node → Node}
    (h : ∀ n, (f n).shape = n.shape) : (s.modifyNode id f).shapes = s.shapes :=
  map_modifyFirst h s.nodes

@[simp] theorem shapes_mark (s : Scene) (c : ConnectorId) (connected : Bool) :
    (s.mark c connected).shapes = s.shapes :=
  map_modifyFirst (Node.shape_mark connected c) s.nodes

@[simp] theorem shapes_refresh (s : Scene) (c : ConnectorId) : (s.refresh c).shapes = s.shapes :=
  shapes_mark ..

theorem shapes_join (s : Scene) (source : ConnectorId) (sourceNode : NodeId)
    (target : ConnectorId) (targetNode : NodeId) :
    (s.join source sourceNode target targetNode).shapes = s.shapes := by
  change (((((s.mark source true).mark target true).modifyNode targetNode _).modifyNode
    sourceNode _).shapes) = s.shapes
  rw [shapes_modifyNode fun n => n.shape_refer .., shapes_modifyNode]
  · simp
  · exact fun _ => rfl

theorem shapes_release (s : Scene) (c : Connection) : (s.release c).shapes = s.shapes := by
  simp only [release, shapes_refresh]
  split
  · rw [shapes_modifyNode fun n => n.shape_refer ..]
    split
    · exact shapes_modifyNode fun _ => rfl
    · rfl
  · split
    · exact shapes_modifyNode fun _ => rfl
    · rfl

theorem bare_release (s : Scene) (c : Connection) : (s.release c).bare = s.bare := by
  unfold release
  dsimp only
  split
  · split
    · rfl
    · rfl
  · split
    · rfl
    · rfl

/-- Undoing a connection takes the first one that touches the connector off the
    list and releases its ends. -/
theorem disconnect?_eq_some {s s' : Scene} {id : ConnectorId} {c : Connection}
    (h : s.disconnect? id = some (s', c)) :
    ∃ before after, s.connections = before ++ c :: after ∧ c.touches id = true ∧
      (∀ d ∈ before, d.touches id = false) ∧
      s' = { s with connections := before ++ after }.release c := by
  unfold disconnect? at h
  split at h
  · cases h
  · rename_i d hd
    simp only [Option.some.injEq, Prod.mk.injEq] at h
    obtain ⟨rfl, rfl⟩ := h
    obtain ⟨ht, before, after, heq, hb⟩ := List.find?_eq_some_iff_append.1 hd
    have hb' : ∀ x ∈ before, x.touches id = false := by simpa using hb
    refine ⟨before, after, heq, ht, hb', ?_⟩
    rw [heq, eraseP_append_cons hb' ht]

theorem disconnect?_eq_none {s : Scene} {id : ConnectorId} :
    s.disconnect? id = none ↔ ∀ c ∈ s.connections, c.touches id = false := by
  unfold disconnect?
  split
  · rename_i h
    simpa using h
  · rename_i c h
    simp only [reduceCtorEq, false_iff, not_forall]
    exact ⟨c, List.mem_of_find?_eq_some h, by simp [List.find?_some h]⟩

theorem shapes_disconnect? {s s' : Scene} {id : ConnectorId} {c : Connection}
    (h : s.disconnect? id = some (s', c)) : s'.shapes = s.shapes := by
  obtain ⟨before, after, -, -, -, rfl⟩ := disconnect?_eq_some h
  exact shapes_release _ c

/-- What each undoing of a connection keeps is kept when all are undone. -/
theorem disconnectAll_induction {P : Scene → Prop} {id : ConnectorId}
    (step : ∀ {s s' c}, s.disconnect? id = some (s', c) → P s → P s') (s : Scene) (h : P s) :
    P (s.disconnectAll id) := by
  fun_induction disconnectAll s id with
  | case1 s _ => exact h
  | case2 s s' c hd ih => exact ih (step hd h)

/-- It is kept too when several connectors are detached, one after the other. -/
theorem detach_induction {P : Scene → Prop}
    (step : ∀ {s s' id c}, s.disconnect? id = some (s', c) → P s → P s') (xs : List Connector)
    (s : Scene) (h : P s) : P (xs.foldl (fun s x => s.disconnectAll x.id) s) := by
  induction xs generalizing s with
  | nil => exact h
  | cons x xs ih => exact ih _ (disconnectAll_induction step s h)

theorem shapes_disconnectAll (s : Scene) (id : ConnectorId) :
    (s.disconnectAll id).shapes = s.shapes :=
  disconnectAll_induction (P := fun t => t.shapes = s.shapes)
    (fun hd h => (shapes_disconnect? hd).trans h) s rfl

theorem connections_disconnectAll (s : Scene) (id : ConnectorId) :
    (s.disconnectAll id).connections = s.connections.filter fun c => !c.touches id := by
  fun_induction disconnectAll s id with
  | case1 s h =>
    rw [eq_comm, List.filter_eq_self]
    simpa using disconnect?_eq_none.1 h
  | case2 s s' c hd ih =>
    obtain ⟨before, after, heq, ht, -, rfl⟩ := disconnect?_eq_some hd
    rw [ih, connections_release, heq]
    simp [ht]

/-! ## Changes of one node -/

/-- The first node of an identity, with what is before and after it. -/
theorem nodes_modifyNode {s : Scene} {id : NodeId} {n : Node} (h : s.node? id = some n) :
    n.id = id ∧ ∃ before after, s.nodes = before ++ n :: after ∧
      (∀ f, (s.modifyNode id f).nodes = before ++ f n :: after) ∧
      s.nodes.eraseP (fun n => decide (n.id = id)) = before ++ after := by
  obtain ⟨hn, before, after, heq, hb⟩ := List.find?_eq_some_iff_append.1 h
  have hb' : ∀ x ∈ before, decide (x.id = id) = false := by simpa using hb
  refine ⟨by simpa using hn, before, after, heq, fun f => ?_, ?_⟩
  · rw [modifyNode, heq, modifyFirst_append hb' hn]
  · rw [heq, eraseP_append_cons hb' hn]

section
variable {s : Scene} {before after : List Node} {n : Node} (hs : s.nodes = before ++ n :: after)
include hs

/-- The connectors of one node, and those of all others. -/
theorem connectors_perm :
    s.connectors.Perm (n.connectors ++ (before ++ after).flatMap Node.connectors) := by
  rw [connectors, hs, List.flatMap_append, List.flatMap_cons, List.flatMap_append]
  exact List.perm_append_comm_assoc ..

/-- The identities of the connectors of one node, and all others. -/
theorem ids_perm : s.ids.Perm ((n.connectors.map fun x => x.id.uuid) ++
    n.id.uuid :: (before ++ after).flatMap Node.ids) := by
  rw [ids, hs, List.flatMap_append, List.flatMap_cons, Node.ids, List.cons_append,
    List.flatMap_append]
  refine List.perm_middle.trans (.trans ?_ List.perm_middle.symm)
  exact (List.perm_append_comm_assoc ..).cons _

end

/-- Scenes of the same shapes have nodes under the same identities, at the same
    places. -/
theorem node?_congr {s t : Scene} (h : s.shapes = t.shapes) {id : NodeId} {n : Node}
    (hn : s.node? id = some n) : ∃ m, t.node? id = some m ∧ m.shape = n.shape := by
  have key : ∀ s : Scene, (s.node? id).map Node.shape =
      s.shapes.find? fun n => decide (n.id = id) := by
    intro s
    rw [shapes, List.find?_map]
    rfl
  have ht : (t.node? id).map Node.shape = some n.shape := by rw [key, ← h, ← key, hn]; rfl
  exact Option.map_eq_some_iff.1 ht

end Scene

end VisualNovel
