/-
  Editing keeps scenes intact.

  * `Scene.Intact`: identities are distinct, nodes are laid out as they should be, and
    connectors and connections are wired;
  * `Scene.Intact.replace`: the one argument behind all changes of a single node;
  * `Scene.Intact.edit`: a call keeps a scene intact;
  * `Scene.Edited.integrity`: what this says of all runs of editing.
-/
import Mathlib.Data.List.Perm.Basic
import VisualNovel.Proofs.Scene.Editing
import VisualNovel.Proofs.Scene.Gate
import VisualNovel.Proofs.Scene.Outcome

namespace VisualNovel

/-- A scene in which nothing is out of place. -/
structure Scene.Intact (s : Scene) : Prop where
  distinct : s.ids.Nodup
  laid : ∀ n ∈ s.nodes, n.Laid
  wired : Wired s.connectors s.connections

theorem mem_row {flow : Flow} {count : Nat} {id : Nat → ConnectorId} {x : Connector}
    (h : x ∈ Connector.row flow count id) : x.flow = flow ∧ x.connected = false := by
  obtain ⟨i, -, rfl⟩ := List.mem_map.1 h
  exact ⟨rfl, rfl⟩

theorem length_row (flow : Flow) (count : Nat) (id : Nat → ConnectorId) :
    (Connector.row flow count id).length = count := by
  simp [Connector.row]

namespace Node

theorem numbered_eq_state {content : Content} {switch : Switch} :
    content.numbered = .state switch ↔ content = .state switch := by
  cases content <;> simp [Content.numbered]

/-- A new node is laid out for its content. -/
theorem laid_make (content : Content) (id : NodeId) (connector : Nat → ConnectorId) :
    (make content id connector).Laid where
  inputs _ hx := (mem_row hx).1
  outputs _ hx := (mem_row hx).1
  gate switch h := by
    obtain rfl := numbered_eq_state.1 h
    exact ⟨length_row .., length_row ..⟩

theorem laid_combiner (inputs : Nat) (id : NodeId) (connector : Nat → ConnectorId) :
    (combiner inputs id connector).Laid where
  inputs x hx := by
    rcases List.mem_append.1 hx with hx | hx
    · exact (mem_row hx).1
    · exact (mem_row hx).1
  outputs _ hx := (mem_row hx).1
  gate switch h := by cases h

theorem unconnected_make {content : Content} {id : NodeId} {connector : Nat → ConnectorId} :
    ∀ x ∈ (make content id connector).connectors, x.connected = false := by
  intro x hx
  rcases List.mem_append.1 hx with hx | hx
  · exact (mem_row hx).2
  · exact (mem_row hx).2

theorem unconnected_combiner {inputs : Nat} {id : NodeId} {connector : Nat → ConnectorId} :
    ∀ x ∈ (combiner inputs id connector).connectors, x.connected = false := by
  intro x hx
  rcases List.mem_append.1 hx with hx | hx
  · rcases List.mem_append.1 hx with hx | hx
    · exact (mem_row hx).2
    · exact (mem_row hx).2
  · exact (mem_row hx).2

end Node

namespace Scene

theorem uuid_mem_ids {s : Scene} {x : Connector} (hx : x ∈ s.connectors) : x.id.uuid ∈ s.ids := by
  obtain ⟨n, hn, hxn⟩ := mem_connectors.1 hx
  exact List.mem_flatMap.2 ⟨n, hn, List.mem_cons_of_mem _
    (List.mem_map_of_mem (f := fun x : Connector => x.id.uuid) hxn)⟩

namespace Intact
variable {s t : Scene}

theorem nodup (h : s.Intact) : (s.connectors.map Connector.id).Nodup := nodup_connectors h.distinct

theorem empty (name : String) : ({ name } : Scene).Intact where
  distinct := .nil
  laid n hn := by cases hn
  wired := {
    joined := fun c hc => by cases hc
    apart := .nil
    marked := fun x hx => by cases hx }

/-- A new node may be added under new identities. -/
theorem addNode (h : s.Intact) {n : Node} (hn : n.Laid)
    (hfree : ∀ x ∈ n.connectors, x.connected = false) (hdis : n.ids.Nodup)
    (hnew : ∀ u ∈ n.ids, u ∉ s.ids) : (s.addNode n).Intact where
  distinct := by
    rw [ids, Scene.addNode, List.flatMap_append, List.flatMap_singleton]
    exact List.nodup_append.2 ⟨h.distinct, hdis, fun a ha b hb hab => hnew b hb (hab ▸ ha)⟩
  laid m hm := by
    rcases List.mem_append.1 hm with hm | hm
    · exact h.laid m hm
    · exact List.mem_singleton.1 hm ▸ hn
  wired := by
    rw [connectors, Scene.addNode, List.flatMap_append, List.flatMap_singleton]
    refine (h.wired.add (fun y hy x hx hxy => ?_) hfree).perm List.perm_append_comm
    exact hnew _ (List.mem_cons_of_mem _ (List.mem_map_of_mem hy)) (hxy ▸ uuid_mem_ids hx)

/-- One node may be replaced by another one, if no connection touches the connectors
    that go and those that come are new. -/
theorem replace (h : s.Intact) (gone come stay : List Connector) {before after : List Node}
    {n m : Node} (hs : s.nodes = before ++ n :: after) (ht : t.nodes = before ++ m :: after)
    (hc : t.connections = s.connections) (hid : m.id = n.id) (hm : m.Laid)
    (hn : n.connectors.Perm (gone ++ stay))
    (hm' : m.connectors.Perm (come ++ stay))
    (hgone : ∀ x ∈ gone, ∀ c ∈ s.connections, c.touches x.id = false)
    (hfree : ∀ x ∈ come, x.connected = false) (hdis : (come.map fun x => x.id.uuid).Nodup)
    (hnew : ∀ x ∈ come, x.id.uuid ∉ s.ids) : t.Intact where
  distinct := by
    have hold := (ids_perm hs).trans ((hn.map _).append_right _)
    have hall := (ids_perm ht).trans ((hm'.map _).append_right _)
    rw [List.map_append, List.append_assoc] at hold hall
    rw [hid] at hall
    refine hall.nodup_iff.2 (List.nodup_append.2 ⟨hdis, ?_, fun a ha b hb hab => ?_⟩)
    · exact (List.nodup_append.1 (hold.nodup_iff.1 h.distinct)).2.1
    · obtain ⟨x, hx, rfl⟩ := List.mem_map.1 ha
      exact hnew x hx (hold.mem_iff.2 (List.mem_append_right _ (hab ▸ hb)))
  laid k hk := by
    rw [ht] at hk
    have hall := hs ▸ h.laid
    rcases List.mem_append.1 hk with hk | hk
    · exact hall k (List.mem_append_left _ hk)
    · rcases List.mem_cons.1 hk with rfl | hk
      · exact hm
      · exact hall k (List.mem_append_right _ (List.mem_cons_of_mem _ hk))
  wired := by
    have hold := (connectors_perm hs).trans (hn.append_right _)
    have hall := (connectors_perm ht).trans (hm'.append_right _)
    rw [List.append_assoc] at hold hall
    rw [hc]
    refine (((h.wired.perm hold).remove hgone).add (fun y hy x hx hxy => ?_) hfree).perm hall.symm
    exact hnew y hy (hxy ▸ uuid_mem_ids (hold.mem_iff.2 (List.mem_append_right _ hx)))

/-- A node may be taken away, if no connection touches its connectors. -/
theorem erase (h : s.Intact) {before after : List Node} {n : Node}
    (hs : s.nodes = before ++ n :: after) (ht : t.nodes = before ++ after)
    (hc : t.connections = s.connections)
    (hfree : ∀ x ∈ n.connectors, ∀ c ∈ s.connections, c.touches x.id = false) : t.Intact where
  distinct := by
    rw [ids, ht]
    have := List.nodup_append.1 ((ids_perm hs).nodup_iff.1 h.distinct)
    exact (List.nodup_cons.1 this.2.1).2
  laid k hk := by
    rw [ht] at hk
    refine h.laid k (hs ▸ ?_)
    exact (List.mem_append.1 hk).elim (List.mem_append_left _)
      fun hk => List.mem_append_right _ (List.mem_cons_of_mem _ hk)
  wired := by
    rw [hc, connectors, ht]
    exact (h.wired.perm (connectors_perm hs)).remove hfree

/-! ## Connections -/

theorem of_shapes (h : s.Intact) (hst : t.shapes = s.shapes)
    (hw : Wired t.connectors t.connections) : t.Intact where
  distinct := ids_congr hst ▸ h.distinct
  laid := (laid_congr hst).2 h.laid
  wired := hw

theorem join (h : s.Intact) {x y : Connector} (hx : x ∈ s.connectors) (hy : y ∈ s.connectors)
    (hxf : x.flow = .output) (hyf : y.flow = .input) (hx' : x.connected = false)
    (hy' : y.connected = false) (m n : NodeId) : (s.join x.id m y.id n).Intact := by
  refine h.of_shapes (shapes_join ..) ?_
  rw [connectors_join h.nodup]
  exact h.wired.connect hx hy hxf hyf hx' hy'

theorem connect (h : s.Intact) {a b : ConnectorId} {s' : Scene} {c : Connection}
    (hc : s.connect a b = .ok (s', c)) : s'.Intact := by
  obtain ⟨m, hm, x, hx, k, hk, y, hy, hxc, hyc, hxf, hyf, hx', hy', rfl⟩ := connect_eq_ok hc
  rw [← hxc, ← hyc]
  exact h.join (mem_connectors.2 ⟨m, hm, hx⟩) (mem_connectors.2 ⟨k, hk, hy⟩) hxf hyf hx' hy' _ _

theorem disconnect? (h : s.Intact) {id : ConnectorId} {s' : Scene} {c : Connection}
    (hd : s.disconnect? id = some (s', c)) : s'.Intact :=
  h.of_shapes (shapes_disconnect? hd) (Wired.disconnect? h.nodup h.wired hd)

theorem disconnectAll (h : s.Intact) (id : ConnectorId) : (s.disconnectAll id).Intact :=
  disconnectAll_induction (P := Intact) (fun hd h => h.disconnect? hd) s h

/-! ## Nodes -/

/-- Detaching several connectors one after the other undoes the connections of all. -/
theorem connections_foldl (xs : List Connector) (s : Scene) :
    (xs.foldl (fun s x => s.disconnectAll x.id) s).connections =
      s.connections.filter fun c => xs.all fun x => !c.touches x.id := by
  induction xs generalizing s with
  | nil => simp
  | cons x xs ih =>
    rw [List.foldl_cons, ih, connections_disconnectAll, List.filter_filter]
    simp only [List.all_cons, Bool.and_comm]

theorem shapes_foldl (xs : List Connector) (s : Scene) :
    (xs.foldl (fun s x => s.disconnectAll x.id) s).shapes = s.shapes :=
  detach_induction (P := fun t => t.shapes = s.shapes)
    (fun hd h => (shapes_disconnect? hd).trans h) xs s rfl

theorem foldl (h : s.Intact) (xs : List Connector) :
    (xs.foldl (fun s x => s.disconnectAll x.id) s).Intact :=
  detach_induction (P := Intact) (fun hd h => h.disconnect? hd) xs s h

/-- A node whose connectors were detached has kept them, and no connection touches them. -/
theorem untouched_foldl {id : NodeId} {m k : Node} (hm : s.node? id = some m)
    (hk : (m.connectors.foldl (fun s c => s.disconnectAll c.id) s).node? id = some k)
    {x : Connector} (hx : x ∈ k.connectors) {c : Connection}
    (hc : c ∈ (m.connectors.foldl (fun s c => s.disconnectAll c.id) s).connections) :
    c.touches x.id = false := by
  obtain ⟨k', hk', hshape⟩ := node?_congr (shapes_foldl m.connectors s).symm hm
  obtain rfl := Option.some.inj (hk'.symm.trans hk)
  obtain ⟨y, hy, hyx⟩ := Node.exists_connector_of_shape hshape hx
  rw [connections_foldl] at hc
  have := List.all_eq_true.1 (List.mem_filter.1 hc).2 y hy
  simpa [hyx] using this

theorem removeNode (h : s.Intact) {id : NodeId} {s' : Scene} {n : Node}
    (hr : s.removeNode id = .ok (s', n)) : s'.Intact := by
  obtain ⟨m, _, before, after, hm, rfl, hk, hs, rfl⟩ := removeNode_eq_ok hr
  exact (h.foldl m.connectors).erase hs rfl rfl fun x hx c hc => untouched_foldl hm hk hx hc

/-- A gate that may take on the other state is free: the side that it keeps has been empty
    all along. -/
theorem untouched_gate (h : s.Intact) {n : Node} (hn : n ∈ s.nodes) {old switch : Switch}
    (hold : n.content = .state old) (hne : old ≠ switch)
    (hlost : ∀ x ∈ n.lost switch, x.connected = false) :
    ∀ x ∈ n.connectors, ∀ c ∈ s.connections, c.touches x.id = false := by
  have hunmarked : ∀ x ∈ n.connectors, x.connected = false := by
    obtain ⟨hin, hout⟩ := (h.laid n hn).gate old hold
    intro x hx
    cases switch <;> cases old <;> simp_all [Node.connectors, Node.lost, Switch.layout]
  intro x hx c hc
  by_contra ht
  have := (h.wired.marked x (mem_connectors.2 ⟨n, hn, hx⟩)).2 ⟨c, hc, by simpa using ht⟩
  simp [hunmarked x hx] at this

/-- A gate that takes on the other state loses only connectors that are free. -/
theorem setSwitch (h : s.Intact) {id : NodeId} {switch : Switch} {connector : Nat → ConnectorId}
    {s' : Scene} (hr : s.setSwitch id switch connector = .ok s')
    (hflip : ∀ n, s.node? id = some n → n.content ≠ .state switch)
    (hnew : (connector 0).uuid ∉ s.ids) : s'.Intact := by
  obtain ⟨n, old, hn, hold, hlost, rfl⟩ := setSwitch_eq_ok hr
  obtain ⟨-, before, after, hs, hmod, -⟩ := nodes_modifyNode hn
  have hmem : n ∈ s.nodes := hs ▸ List.mem_append_right _ List.mem_cons_self
  have hne : old ≠ switch := fun heq => hflip n hn (heq ▸ hold)
  have hgone := h.untouched_gate hmem hold hne hlost
  refine h.replace n.connectors [_] [] hs (hmod _) rfl rfl
    ⟨fun x hx => (mem_row hx).1, fun x hx => (mem_row hx).1, fun sw hsw => ?_⟩ (by simp)
    (.of_eq (n.connectors_asGate switch connector)) hgone (by simp) (by simp) (by simpa using hnew)
  cases hsw
  exact ⟨length_row .., length_row ..⟩

/-- A node may gain a new connector that is free. -/
theorem gain (h : s.Intact) {id : NodeId} {n : Node} {f : Node → Node} (x : Connector)
    (hn : s.node? id = some n) (hid : (f n).id = n.id) (hlaid : n.Laid → (f n).Laid)
    (hperm : (f n).connectors.Perm (x :: n.connectors)) (hfree : x.connected = false)
    (hnew : x.id.uuid ∉ s.ids) : (s.modifyNode id f).Intact := by
  obtain ⟨-, before, after, hs, hmod, -⟩ := nodes_modifyNode hn
  have hn' := h.laid n (hs ▸ List.mem_append_right _ List.mem_cons_self)
  refine h.replace [] [x] n.connectors hs (hmod f) rfl hid (hlaid hn') (.refl _) hperm
    (by simp) (fun y hy => ?_) (List.nodup_singleton _) fun y hy => ?_
  · exact List.mem_singleton.1 hy ▸ hfree
  · exact List.mem_singleton.1 hy ▸ hnew

theorem addChoice (h : s.Intact) {id : NodeId} {text : String} {connector : ConnectorId}
    {s' : Scene} {i : Nat} (hr : s.addChoice id text connector = .ok (s', i))
    (hnew : connector.uuid ∉ s.ids) : s'.Intact := by
  obtain ⟨n, choices, hn, -, rfl⟩ := addChoice_eq_ok hr
  refine h.gain { id := connector, flow := .output } hn rfl (fun hlaid => ?_) ?_ rfl hnew
  · refine ⟨hlaid.inputs, fun x hx => ?_, fun sw hsw => by cases hsw⟩
    rcases List.mem_append.1 hx with hx | hx
    · exact hlaid.outputs x hx
    · rw [List.mem_singleton.1 hx]
  · change (n.inputs ++ (n.outputs ++ _)).Perm _
    rw [← List.append_assoc]
    exact List.perm_append_comm

theorem addInput (h : s.Intact) {id : NodeId} {connector : ConnectorId} {s' : Scene}
    (hr : s.addInput id connector = .ok s') (hnew : connector.uuid ∉ s.ids) : s'.Intact := by
  obtain ⟨n, hn, hcontent, rfl⟩ := addInput_eq_ok hr
  refine h.gain { id := connector, flow := .input } hn rfl (fun hlaid => ?_) ?_ rfl hnew
  · refine ⟨fun x hx => ?_, hlaid.outputs, fun sw hsw => by cases hcontent.symm.trans hsw⟩
    rcases List.mem_append.1 hx with hx | hx
    · exact hlaid.inputs x hx
    · rw [List.mem_singleton.1 hx]
  · change ((n.inputs ++ _) ++ n.outputs).Perm _
    rw [List.append_assoc]
    exact List.perm_append_comm_assoc ..

end Intact

theorem perm_eraseIdx (xs : List Connector) (i : Nat) :
    xs.Perm (xs[i]?.toList ++ xs.eraseIdx i) := by
  by_cases hi : i < xs.length
  · rw [List.getElem?_eq_getElem hi]
    exact (List.getElem_cons_eraseIdx_perm hi).symm
  · rw [List.getElem?_eq_none (by omega), List.eraseIdx_of_length_le (by omega)]
    exact .refl _

theorem perm_dropLast (xs : List Connector) : xs.Perm (xs.getLast?.toList ++ xs.dropLast) := by
  rcases List.eq_nil_or_concat' xs with rfl | ⟨ys, y, rfl⟩
  · exact .refl _
  · rw [List.getLast?_concat, List.dropLast_concat]
    exact List.perm_append_comm

namespace Intact
variable {s : Scene}

theorem freed (h : s.Intact) : ∀ c, (s.freed c).Intact
  | none => h
  | some c => h.disconnectAll c

/-- A node may lose a connector, if that is detached before. -/
theorem lose (h : s.Intact) {id : NodeId} {n : Node} {f : Node → Node} (c : Option ConnectorId)
    (hn : s.node? id = some n) (hid : ∀ m, (f m).id = m.id)
    (hlaid : ∀ m : Node, m.Laid → m.shape = n.shape → (f m).Laid)
    (hperm : ∀ m : Node, m.shape = n.shape → ∃ x : Option Connector, x.map Connector.id = c ∧
      m.connectors.Perm (x.toList ++ (f m).connectors)) :
    ((s.freed c).modifyNode id f).Intact := by
  obtain ⟨m, hm, hshape⟩ := node?_congr (shapes_freed s c).symm hn
  obtain ⟨-, before, after, hs, hmod, -⟩ := nodes_modifyNode hm
  obtain ⟨x, rfl, hx⟩ := hperm m hshape
  have ht := h.freed (x.map Connector.id)
  have hm' := ht.laid m (hs ▸ List.mem_append_right _ List.mem_cons_self)
  refine ht.replace x.toList [] (f m).connectors hs (hmod f) rfl (hid m) (hlaid m hm' hshape) hx
    (.refl _) (fun y hy => ?_) (by simp) (by simp) (by simp)
  rw [Option.mem_toList.1 hy]
  exact touches_freed

theorem removeChoice (h : s.Intact) {id : NodeId} {index : Nat} {s' : Scene}
    (hr : s.removeChoice id index = .ok s') : s'.Intact := by
  obtain ⟨n, choices, choice, hn, hcontent, hchoice, rfl⟩ := removeChoice_eq_ok hr
  refine h.lose (n.output? choice.output) hn (fun _ => rfl) (fun m hm hshape => ?_)
    fun m hshape => ?_
  · obtain ⟨others, hothers, -⟩ := Node.choice_of_shape hshape hcontent
    refine ⟨hm.inputs, fun x hx => hm.outputs x (List.mem_of_mem_eraseIdx hx), ?_⟩
    intro switch hswitch
    cases (Node.content_without hothers ..).symm.trans hswitch
  · refine ⟨m.outputs[choice.output]?, Node.output?_of_shape hshape _, ?_⟩
    exact ((perm_eraseIdx ..).append_left _).trans (List.perm_append_comm_assoc ..)

theorem removeInput (h : s.Intact) {id : NodeId} {s' : Scene}
    (hr : s.removeInput id = .ok s') : s'.Intact := by
  obtain ⟨n, hn, hcontent, rfl⟩ := removeInput_eq_ok hr
  refine h.lose (n.inputs.getLast?.map Connector.id) hn (fun _ => rfl) (fun m hm hshape => ?_)
    fun m hshape => ?_
  · refine ⟨fun x hx => hm.inputs x (List.dropLast_subset _ hx), hm.outputs, ?_⟩
    intro switch hswitch
    cases hcontent.symm.trans (Node.state_of_shape hshape hswitch)
  · refine ⟨m.inputs.getLast?, Node.getLast?_inputs_of_shape hshape, ?_⟩
    exact ((perm_dropLast _).append_right _).trans (.of_eq (List.append_assoc ..))

/-! ## Calls and runs -/

/-- A call keeps a scene intact, if what it makes is new and if it asks no gate for
    what it is. -/
theorem edit (h : s.Intact) {e : Edit} (hf : e.Fresh s) (hflip : e.Flips s) :
    (s.edit e).Intact := by
  obtain ⟨hdis, hnew⟩ := hf
  cases e with
  | addNode content id connector =>
    exact h.addNode (Node.laid_make ..) Node.unconnected_make hdis hnew
  | addCombiner inputs id connector =>
    exact h.addNode (Node.laid_combiner ..) Node.unconnected_combiner hdis hnew
  | connect a b =>
    exact settled_map_induction h fun s' c hr => h.connect hr
  | disconnect c =>
    change ((s.disconnect? c).map Prod.fst).getD s |>.Intact
    cases hd : s.disconnect? c with
    | none => exact h
    | some r => exact h.disconnect? hd
  | removeNode id =>
    exact settled_map_induction h fun s' n hr => h.removeNode hr
  | setSwitch id switch connector =>
    exact settled_induction h fun s' hr => h.setSwitch hr hflip (hnew _ List.mem_cons_self)
  | addChoice id text connector =>
    exact settled_map_induction h fun s' i hr => h.addChoice hr (hnew _ List.mem_cons_self)
  | removeChoice id index => exact settled_induction h fun s' hr => h.removeChoice hr
  | addInput id connector =>
    exact settled_induction h fun s' hr => h.addInput hr (hnew _ List.mem_cons_self)
  | removeInput id => exact settled_induction h fun s' hr => h.removeInput hr

end Intact

/-- Calls whose identities are new and that ask no gate for what it is. -/
def Sound (s : Scene) (e : Edit) : Prop := e.Fresh s ∧ e.Flips s

theorem Edited.intact {s : Scene} (h : s.Edited Sound) : s.Intact := by
  induction h with
  | empty name => exact .empty name
  | edit _ he ih => exact ih.edit he.1 he.2

/-- In a scene that comes of editing, connections run from outputs to inputs of its
    nodes, no connector is touched by two of them, all identities are distinct, and
    the connectors that are marked are those that a connection touches. -/
theorem Edited.integrity {s : Scene} (h : s.Edited Sound) :
    (∀ c ∈ s.connections,
      (∃ n ∈ s.nodes, ∃ x ∈ n.outputs, x.id = c.source ∧ x.flow = .output) ∧
      ∃ n ∈ s.nodes, ∃ x ∈ n.inputs, x.id = c.target ∧ x.flow = .input) ∧
    (s.connections.Pairwise fun c d => ∀ id, ¬(c.touches id = true ∧ d.touches id = true)) ∧
    s.ids.Nodup ∧
    ∀ n ∈ s.nodes, ∀ x ∈ n.connectors,
      x.connected = true ↔ ∃ c ∈ s.connections, c.touches x.id = true := by
  obtain ⟨hdis, hlaid, hjoined, hapart, hmarked⟩ := h.intact
  refine ⟨fun c hc => ?_, hapart, hdis, fun n hn x hx => hmarked x (mem_connectors.2 ⟨n, hn, hx⟩)⟩
  obtain ⟨⟨x, hx, hxs, hxf⟩, y, hy, hyt, hyf⟩ := hjoined c hc
  obtain ⟨m, hm, hxm⟩ := mem_connectors.1 hx
  obtain ⟨n, hn, hyn⟩ := mem_connectors.1 hy
  -- the side of a connector is that of its flow
  refine ⟨⟨m, hm, x, (List.mem_append.1 hxm).resolve_left fun hxm => ?_, hxs, hxf⟩,
    n, hn, y, (List.mem_append.1 hyn).resolve_right fun hyn => ?_, hyt, hyf⟩
  · cases hxf.symm.trans ((hlaid m hm).inputs x hxm)
  · cases hyf.symm.trans ((hlaid n hn).outputs y hyn)

theorem passage_edited : passage.Edited Sound := by
  refine ((Edited.empty _).edit ⟨?_, trivial⟩).edit ⟨?_, trivial⟩ |>.edit ⟨?_, trivial⟩
  all_goals exact ⟨by decide, by decide⟩

/-- A gate of the passage that is asked in vain to change leaves all in place. -/
theorem integrity_passage :
    ∃ s, s = passage.edit (.setSwitch ⟨⟨0⟩⟩ .exit fun _ => ⟨⟨4⟩⟩) ∧ s.Edited Sound ∧
      s.connections = [⟨⟨⟨1⟩⟩, ⟨⟨3⟩⟩⟩] ∧ s.ids.Nodup ∧ ∀ n ∈ s.nodes, ∀ x ∈ n.connectors,
        x.connected = true ↔ ∃ c ∈ s.connections, c.touches x.id = true := by
  have h : (passage.edit (.setSwitch ⟨⟨0⟩⟩ .exit fun _ => ⟨⟨4⟩⟩)).Edited Sound := by
    refine passage_edited.edit ⟨⟨by decide, by decide⟩, fun n hn => ?_⟩
    cases hn
    decide
  exact ⟨_, rfl, h, by decide, h.integrity.2.2⟩

end Scene

end VisualNovel
