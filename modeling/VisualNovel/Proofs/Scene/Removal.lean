/-
  Choices that are removed, from whatever scenes, with outputs in whatever order.

  * `Scene.Distinct.exists_disconnectAll`: when the output of a choice is detached, no other
    choice of its node forgets where it leads;
  * `Scene.Dropped`: what is left of a scene;
  * `Scene.Distinct.removeChoice_drops`: a choice goes with its output and the connections of
    that output, and nothing else does.
-/
import VisualNovel.Proofs.Scene.Reference

namespace VisualNovel

namespace Node

theorem content_mark (connected : Bool) (x : ConnectorId) (n : Node) :
    (n.mark connected x).content = n.content := by
  unfold mark
  dsimp only
  split
  · rfl
  · rfl

/-- Where an output leads is recorded at the choice that leaves through it. -/
theorem content_refer {n : Node} {choices : List Choice} (hcontent : n.content = .choice choices)
    (hd : (n.outputs.map Connector.id).Nodup) {x : ConnectorId} {i : Nat}
    (hx : n.output? i = some x) (next : Option NodeId) :
    (n.refer x next).content =
      .choice (modifyFirst (fun c => decide (c.output = i)) (fun c => { c with next }) choices) := by
  obtain ⟨j, hj⟩ := findIdx?_of_mem (output?_mem hx)
  obtain rfl := (output?_eq_some_iff hd hj i).1 hx
  rw [refer, hcontent, hj]

end Node

namespace Scene
variable {s : Scene}

theorem exists_mark {n : Node} (hn : n ∈ s.nodes) (x : ConnectorId) (connected : Bool) :
    ∃ m ∈ (s.mark x connected).nodes, m.shape = n.shape ∧ m.content = n.content := by
  rcases mem_modifyFirst (p := fun n => n.owns x) (f := Node.mark connected x) hn with hm | hm
  · exact ⟨n, hm, rfl, rfl⟩
  · exact ⟨_, hm, Node.shape_mark .., Node.content_mark ..⟩

namespace Distinct

/-- When a connection is released, the choice that it came from leads nowhere; nothing else
    happens to the content of its node. -/
theorem exists_release (h : s.Distinct) {n : Node} (hn : n ∈ s.nodes) {choices : List Choice}
    (hcontent : n.content = .choice choices) {c : Connection} {i : Nat}
    (hc : n.output? i = some c.source) :
    ∃ m ∈ (s.release c).nodes, m.shape = n.shape ∧ m.content =
      .choice (modifyFirst (fun d => decide (d.output = i)) (fun d => { d with next := none })
        choices) := by
  have key : ∀ t : Scene, s.shapes = t.shapes →
      (∃ m ∈ t.nodes, m.shape = n.shape ∧ m.content = n.content) →
      ∃ m ∈ (((t.modifyNode n.id (Node.refer c.source none)).refresh c.source).refresh
          c.target).nodes, m.shape = n.shape ∧ m.content =
        .choice (modifyFirst (fun d => decide (d.output = i)) (fun d => { d with next := none })
          choices) := by
    rintro t ht ⟨m, hm, hshape, hm'⟩
    have htd := (distinct_congr ht).1 h
    have hrefer : m.refer c.source none ∈ (t.modifyNode n.id (Node.refer c.source none)).nodes := by
      rw [htd.nodes_modifyNode_eq_map]
      exact List.mem_map.2 ⟨m, hm, if_pos (Node.id_of_shape hshape)⟩
    obtain ⟨k, hk, hks, hkc⟩ := exists_mark hrefer c.source _
    obtain ⟨l, hl, hls, hlc⟩ := exists_mark hk c.target _
    refine ⟨l, hl, ?_, ?_⟩
    · rw [hls, hks, Node.shape_refer, hshape]
    · rw [hlc, hkc, Node.content_refer (hm'.trans hcontent) (htd.outputs hm)]
      rw [Node.output?_of_shape hshape, hc]
  obtain ⟨x, hx, hxc⟩ := List.mem_map.1 (Node.output?_mem hc)
  have hy := h.locate?_eq hn (List.mem_append_right _ hx)
  rw [hxc] at hy
  rw [release, hy]
  dsimp only
  split
  · rename_i k _ _
    refine key _ (Eq.symm (shapes_modifyNode ?_)) ?_
    · exact fun _ => rfl
    rcases mem_modifyFirst (p := fun n => decide (n.id = k))
      (f := fun n => { n with previous := none }) hn with hm | hm
    · exact ⟨n, hm, rfl, rfl⟩
    · exact ⟨_, hm, rfl, rfl⟩
  · exact key _ rfl ⟨n, hn, rfl, rfl⟩

/-- When the output of a choice is detached, that choice leads nowhere, and the others of its
    node lead to where they led. -/
theorem exists_disconnectAll (h : s.Distinct) {n : Node} (hn : n ∈ s.nodes)
    {choices : List Choice} (hcontent : n.content = .choice choices)
    (hperm : (choices.map Choice.output).Perm (List.range n.outputs.length)) {index : Nat}
    {c : Choice} (hc : choices[index]? = some c) {x : ConnectorId}
    (hx : n.output? c.output = some x) (hends : ∀ d ∈ s.connections, d.target ≠ x) :
    ∃ m ∈ (s.disconnectAll x).nodes, m.shape = n.shape ∧ ∃ others, m.content = .choice others ∧
      others.map Choice.output = choices.map Choice.output ∧
      others.eraseIdx index = choices.eraseIdx index := by
  refine (disconnectAll_induction (P := fun t => s.shapes = t.shapes ∧
    (∀ d ∈ t.connections, d.target ≠ x) ∧ ∃ m ∈ t.nodes, m.shape = n.shape ∧
      ∃ others, m.content = .choice others ∧ others.map Choice.output = choices.map Choice.output ∧
        others.eraseIdx index = choices.eraseIdx index)
    ?_ s ⟨rfl, hends, n, hn, rfl, choices, hcontent, rfl, rfl⟩).2.2
  rintro t t' d hd ⟨hst, ht, m, hm, hshape, others, hothers, houtputs, hrest⟩
  obtain ⟨before, after, hcs, htouches, -, rfl⟩ := disconnect?_eq_some hd
  have hsource : d.source = x := by
    refine (Connection.touches_iff.1 htouches).resolve_right fun htarget => ?_
    exact ht d (by simp [hcs]) htarget
  have hout : m.output? c.output = some d.source := by
    rw [Node.output?_of_shape hshape, hx, hsource]
  have htd : ({ t with connections := before ++ after } : Scene).Distinct :=
    ⟨((distinct_congr hst).1 h).nodes, ((distinct_congr hst).1 h).connectors⟩
  obtain ⟨k, hk, hks, hkc⟩ := htd.exists_release (c := d) hm hothers hout
  refine ⟨hst.trans (shapes_disconnect? hd).symm, fun e he => ht e ?_, k, hk, hks.trans hshape, _,
    hkc, ?_, ?_⟩
  · rw [connections_release] at he
    rw [hcs]
    exact (List.mem_append.1 he).elim (List.mem_append_left _)
      fun he => List.mem_append_right _ (List.mem_cons_of_mem _ he)
  · rw [map_modifyFirst, houtputs]
    exact fun _ => rfl
  · rw [← hrest]
    obtain ⟨o, ho, hoc⟩ := choice_of_outputs houtputs hc
    refine eraseIdx_modifyFirst fun e he => decide_eq_false ?_
    rw [← hoc]
    exact output_ne_of_mem_eraseIdx (houtputs ▸ hperm) ho he

end Distinct

/-- What is left of a scene when a choice of a node is gone with the connector through which
    it left. -/
structure Dropped (s : Scene) (n : Node) (choices : List Choice) (index : Nat) (x : ConnectorId)
    (s' : Scene) : Prop where
  nodes : s'.nodes.map Node.id = s.nodes.map Node.id
  /-- The other choices of the node are as before and leave through the same connectors. -/
  others : ∃ m ∈ s'.nodes, m.id = n.id ∧ ∃ others, m.content = .choice others ∧
    others.map (fun d => (d.text, d.next, m.output? d.output)) =
      (choices.eraseIdx index).map (fun d => (d.text, d.next, n.output? d.output)) ∧
    (others.map Choice.output).Perm (List.range m.outputs.length)
  connections : s'.connections = s.connections.filter fun d => !d.touches x
  leaving : ∀ y, y ≠ x → s'.connections.filter (fun d => decide (d.source = y)) =
    s.connections.filter fun d => decide (d.source = y)
  connectors : s'.connectors.map Connector.id = (s.connectors.map Connector.id).erase x

/-- A node without one of its outputs: the connector of that output is gone from the scene. -/
theorem Distinct.connectorIds_eraseIdx (h : s.Distinct) {before after : List Node} {m k : Node}
    (hs : s.nodes = before ++ m :: after) {i : Nat} {x : ConnectorId} (hx : m.output? i = some x)
    (hin : k.inputs = m.inputs) (hout : k.outputs = m.outputs.eraseIdx i) :
    ((before ++ k :: after).flatMap Node.connectors).map Connector.id =
      (s.connectors.map Connector.id).erase x := by
  have hd := h.connectors
  simp only [Scene.connectors, hs, List.flatMap_append, List.flatMap_cons, List.map_append,
    Node.connectors, hin, hout, List.append_assoc] at hd ⊢
  rw [Node.output?_eq] at hx
  have hxm : x ∈ m.outputs.map Connector.id := List.mem_of_getElem? hx
  obtain ⟨-, hrest, hbefore⟩ := List.nodup_append.1 hd
  obtain ⟨-, hrest, hinputs⟩ := List.nodup_append.1 hrest
  have hxb : x ∉ (before.flatMap Node.connectors).map Connector.id := fun hmem =>
    hbefore _ hmem _ (List.mem_append_right _ (List.mem_append_left _ hxm)) rfl
  have hxi : x ∉ m.inputs.map Connector.id := fun hmem =>
    hinputs _ hmem _ (List.mem_append_left _ hxm) rfl
  have hnodup : (m.outputs.map Connector.id).Nodup := (List.nodup_append.1 hrest).1
  obtain ⟨hi, rfl⟩ := List.getElem?_eq_some_iff.1 hx
  rw [List.erase_append_right _ hxb, List.erase_append_right _ hxi, List.erase_append_left _ hxm,
    hnodup.erase_getElem i hi, List.eraseIdx_map]

/-- A node of the shape of one with choices, without one of them: the others are as they were
    and leave through the same connectors. -/
theorem others_without {m n : Node} (hshape : m.shape = n.shape) {choices others : List Choice}
    (hothers : m.content = .choice others)
    (houtputs : others.map Choice.output = choices.map Choice.output) (hbranched : n.Branched)
    {index : Nat} (hrest : others.eraseIdx index = choices.eraseIdx index) {c : Choice}
    (hc : choices[index]? = some c) :
    (dropChoice others index c.output).map
        (fun d => (d.text, d.next, (m.without index c.output).output? d.output)) =
      (choices.eraseIdx index).map (fun d => (d.text, d.next, n.output? d.output)) ∧
    ((dropChoice others index c.output).map Choice.output).Perm
      (List.range (m.without index c.output).outputs.length) := by
  obtain ⟨o, ho, hoc⟩ := choice_of_outputs houtputs hc
  have hperm : (others.map Choice.output).Perm (List.range m.outputs.length) := by
    refine (Node.branched_of_choice hothers).1 ?_
    rwa [← Node.branched_shape, hshape, Node.branched_shape]
  constructor
  · have hmap := congrArg (List.map fun e : String × Option NodeId × Option Connector =>
      (e.1, e.2.1, e.2.2.map Connector.id)) (map_dropChoice m.outputs hperm ho)
    rw [hoc, hrest, List.map_map, List.map_map] at hmap
    refine hmap.trans (List.map_congr_left fun d _ => ?_)
    rw [Function.comp_apply, ← Node.output?_of_shape hshape]
    rfl
  · have hlast : c.output < m.outputs.length :=
      hoc ▸ List.mem_range.1 (hperm.subset (List.mem_map_of_mem (List.mem_of_getElem? ho)))
    rw [Node.without, List.length_eraseIdx_of_lt hlast, ← hoc]
    exact perm_dropChoice hperm ho

/-- A choice that is removed goes with the connector through which it left and with the
    connections of that connector.  The other choices of its node keep their order, what they
    say, where they lead and the connectors through which they leave, in whatever order the
    outputs are.  Connections run from outputs to inputs, so that none ends at an output of
    the node; how connectors are marked does not matter. -/
theorem Distinct.removeChoice_drops (h : s.Distinct) {n : Node} (hn : n ∈ s.nodes)
    (hends : ∀ d ∈ s.connections, ∀ y ∈ n.outputs, d.target ≠ y.id) {choices : List Choice}
    (hcontent : n.content = .choice choices)
    (hperm : (choices.map Choice.output).Perm (List.range n.outputs.length)) {index : Nat}
    {c : Choice} (hc : choices[index]? = some c) :
    ∃ x s', n.output? c.output = some x ∧ s.removeChoice n.id index = .ok s' ∧
      Dropped s n choices index x s' := by
  have hlt : c.output < n.outputs.length :=
    List.mem_range.1 (hperm.subset (List.mem_map_of_mem (List.mem_of_getElem? hc)))
  have hx : n.output? c.output = some n.outputs[c.output].id := by
    rw [Node.output?, List.getElem?_eq_getElem hlt, Option.map_some]
  have hfree : ∀ d ∈ s.connections, d.target ≠ n.outputs[c.output].id :=
    fun d hd => hends d hd _ (List.getElem_mem hlt)
  generalize n.outputs[c.output].id = x at hx hfree
  obtain ⟨m, hm, hshape, others, hothers, houtputs, hrest⟩ :=
    h.exists_disconnectAll hn hcontent hperm hc hx hfree
  have hshapes := shapes_disconnectAll s x
  have hdistinct := (distinct_congr hshapes).2 h
  have hid := Node.id_of_shape hshape
  have hm? : (s.disconnectAll x).node? n.id = some m := hid ▸ hdistinct.node?_eq hm
  have hremoved := removeChoice_of_choice (h.node?_eq hn) hcontent hc
  rw [hx, freed] at hremoved
  obtain ⟨-, before, after, hs, hmod, -⟩ := nodes_modifyNode hm?
  have hmem : m.without index c.output ∈
      ((s.disconnectAll x).modifyNode n.id (Node.without index c.output)).nodes := by
    rw [hmod]
    exact List.mem_append_right _ List.mem_cons_self
  refine ⟨x, _, hx, hremoved, {
    nodes := ?_
    others := ⟨_, hmem, hid, _, Node.content_without hothers .., others_without hshape hothers
      houtputs ((Node.branched_of_choice hcontent).2 hperm) hrest hc⟩
    connections := connections_disconnectAll s x
    leaving := fun y hy => ?_
    connectors := ?_ }⟩
  · rw [← nodeIds_congr hshapes]
    exact map_modifyFirst (Node.id_without index c.output) _
  · rw [connections_modifyNode, connections_disconnectAll, List.filter_filter]
    refine List.filter_congr fun d hd => ?_
    by_cases hsource : d.source = y
    · simp [Connection.touches, hsource, hy, hfree d hd]
    · simp [hsource]
  · rw [← connectorIds_congr hshapes, Scene.connectors, hmod]
    refine hdistinct.connectorIds_eraseIdx hs ?_ rfl rfl
    rw [Node.output?_of_shape hshape, hx]

/-- Two choices that lead to exits, the first of them through the second output. -/
def crossed : Scene where
  name := "Crossed"
  nodes := [
    { id := ⟨⟨0⟩⟩
      inputs := [{ id := ⟨⟨1⟩⟩, flow := .input }]
      outputs := [{ id := ⟨⟨2⟩⟩, flow := .output, connected := true },
        { id := ⟨⟨3⟩⟩, flow := .output, connected := true }]
      content := .choice [{ text := "Stay", next := some ⟨⟨6⟩⟩, output := 1 },
        { text := "Go", next := some ⟨⟨4⟩⟩, output := 0 }] },
    { id := ⟨⟨4⟩⟩
      previous := some ⟨⟨0⟩⟩
      inputs := [{ id := ⟨⟨5⟩⟩, flow := .input, connected := true }]
      content := .state .exit },
    { id := ⟨⟨6⟩⟩
      previous := some ⟨⟨0⟩⟩
      inputs := [{ id := ⟨⟨7⟩⟩, flow := .input, connected := true }]
      content := .state .exit }]
  connections := [⟨⟨⟨2⟩⟩, ⟨⟨5⟩⟩⟩, ⟨⟨⟨3⟩⟩, ⟨⟨7⟩⟩⟩]

/-- Without its first choice, the node leads to one exit still. -/
theorem removeChoice_drops_crossed :
    ∃ s', crossed.removeChoice ⟨⟨0⟩⟩ 0 = .ok s' ∧ s'.connections = [⟨⟨⟨2⟩⟩, ⟨⟨5⟩⟩⟩] ∧
      s'.connectors.map Connector.id = [⟨⟨1⟩⟩, ⟨⟨2⟩⟩, ⟨⟨5⟩⟩, ⟨⟨7⟩⟩] := by
  have hn : crossed.node? ⟨⟨0⟩⟩ = some _ := rfl
  have hd : crossed.Distinct := ⟨by decide, by decide⟩
  have hc : ([{ text := "Stay", next := some ⟨⟨6⟩⟩, output := 1 },
    { text := "Go", next := some ⟨⟨4⟩⟩, output := 0 }] : List Choice)[0]? = some _ := rfl
  obtain ⟨x, s', hx, hs', hdropped⟩ :=
    hd.removeChoice_drops (List.mem_of_find?_eq_some hn) (by decide) rfl (by decide) hc
  cases hx
  exact ⟨s', hs', hdropped.connections, hdropped.connectors⟩

end Scene

end VisualNovel
