/-
  What becomes of references when nodes are edited.

  * `Scene.Reshaped`: nodes came, went or changed, where no connection is; their references
    are new or go by what they went by;
  * `Scene.reshaped_modifyNode`: the one argument behind all changes of a single node;
  * `Scene.Intact.revised_edit`: what any call does to references.
-/
import VisualNovel.Proofs.Scene.Revision

namespace VisualNovel

namespace Reference

/-- No connection is one that the reference goes by, and it names nobody, but for choices
    that were given a way of their own. -/
def Unused (linked : Prop) (cs : List Connection) (r : Reference) : Prop :=
  (∀ c ∈ cs, ¬r.Meets c) ∧ (r.node = none ∨ linked ∧ r.bearing = .way)

/-- The references name the same node and go by the same connections. -/
structure Echoes (cs : List Connection) (r q : Reference) : Prop where
  like : r.Like q
  node : r.node = q.node
  meets : ∀ c ∈ cs, r.Meets c ↔ q.Meets c

theorem Echoes.refl (cs : List Connection) (r : Reference) : r.Echoes cs r :=
  ⟨.refl r, rfl, fun _ _ => .rfl⟩

end Reference

namespace Node

theorem references_of_choice {n : Node} {choices : List Choice} (h : n.content = .choice choices) :
    n.references = ⟨.back, n.previous, n.inputs.map Connector.id⟩ ::
      choices.map fun c => ⟨.way, c.next, (n.output? c.output).toList⟩ := by
  rw [references, ways_of_choice h]

theorem references_of_other {n : Node} (h : ∀ choices, n.content ≠ .choice choices) :
    n.references = [⟨.back, n.previous, n.inputs.map Connector.id⟩,
      ⟨.forth, n.next, n.outputs.map Connector.id⟩] := by
  rw [references, ways_of_other h]

/-- The connections that a node refers by touch its connectors. -/
theorem exists_touches {n : Node} {r : Reference} (hr : r ∈ n.references) {c : Connection}
    (h : r.Meets c) : ∃ x ∈ n.connectors, c.touches x.id = true := by
  rcases List.mem_cons.1 hr with rfl | hr
  · obtain ⟨x, hx, hxc⟩ := List.mem_map.1 (show c.target ∈ _ from h)
    exact ⟨x, List.mem_append_left _ hx, by simp [Connection.touches, hxc]⟩
  · obtain ⟨x, hx, hxc⟩ := List.mem_map.1 ((ways_ends hr).2 _ ((meets_ways hr).1 h))
    exact ⟨x, List.mem_append_right _ hx, by simp [Connection.touches, hxc]⟩

theorem touches_of_there {n : Node} {b : Bearing} {c : Connection} (h : b.there n c) :
    ∃ x ∈ n.connectors, c.touches x.id = true := by
  cases b with
  | back =>
    obtain ⟨x, hx, hxc⟩ := List.mem_map.1 (show c.source ∈ _ from h)
    exact ⟨x, List.mem_append_right _ hx, by simp [Connection.touches, hxc]⟩
  | forth | way =>
    obtain ⟨x, hx, hxc⟩ := List.mem_map.1 (show c.target ∈ _ from h)
    exact ⟨x, List.mem_append_left _ hx, by simp [Connection.touches, hxc]⟩

/-- A new node names nobody, but for choices that come with a way of their own. -/
theorem references_make (content : Content) (id : NodeId) (connector : Nat → ConnectorId) :
    ∀ r ∈ (make content id connector).references,
      r.node = none ∨ content.unlinked ≠ content ∧ r.bearing = .way := by
  intro r hr
  by_cases hc : ∃ choices, content = .choice choices
  · obtain ⟨choices, rfl⟩ := hc
    rw [references_of_choice rfl] at hr
    rcases List.mem_cons.1 hr with rfl | hr
    · exact .inl rfl
    obtain ⟨c, hc, rfl⟩ := List.mem_map.1 hr
    obtain ⟨i, hi, rfl⟩ := List.mem_mapIdx.1 hc
    by_cases hunlinked : (Content.choice choices).unlinked = .choice choices
    · have hmem : choices[i] ∈ choices.map fun c => { c with next := none } := by
        rw [Content.choice.inj hunlinked]
        exact List.getElem_mem hi
      obtain ⟨d, -, hd⟩ := List.mem_map.1 hmem
      exact .inl (congrArg Choice.next hd).symm
    · exact .inr ⟨hunlinked, rfl⟩
  · have hother : ∀ choices, (make content id connector).content ≠ .choice choices := by
      intro choices h
      change content.numbered = _ at h
      cases content with
      | choice choices => exact hc ⟨choices, rfl⟩
      | _ => cases h
    rw [references_of_other hother] at hr
    rcases List.mem_pair.1 hr with rfl | rfl
    · exact .inl rfl
    · exact .inl rfl

end Node

/-- The choices of a new node come without ways of their own. -/
def Edit.Unlinked : Edit → Prop
  | addNode content _ _ => content.unlinked = content
  | _ => True

namespace Scene

/-- From one scene to the other, nodes came, went or changed, but not where connections are. -/
structure Reshaped (linked : Prop) (s t : Scene) : Prop where
  connections : t.connections = s.connections
  far : ∀ {b : Bearing} {id : NodeId} {c : Connection}, c ∈ s.connections →
    s.At b.there id c → t.At b.there id c
  references : ∀ {id : NodeId} {r : Reference}, (id, r) ∈ t.references →
    r.Unused linked s.connections ∨ ∃ q, (id, q) ∈ s.references ∧ r.Echoes s.connections q

variable {linked : Prop}

/-- Connections may be undone before nodes are changed. -/
theorem Reshaped.revised {s u t : Scene} (h : Reshaped linked u t) (hf : s.Frees u) :
    Revised linked s t where
  far hs ht hfar := by
    have hu := h.connections ▸ ht
    exact h.far hu ((hf.revised linked).far hs hu hfar)
  fate {id r} hr := by
    rcases h.references hr with ⟨hunmet, hnode⟩ | ⟨q, hq, hlike, hnode, hmeets⟩
    · refine .fresh (List.filter_eq_nil_iff.2 fun c hc => ?_) hnode
      simpa using hunmet c (h.connections ▸ hc)
    · have hmet : r.met t = q.met u := by
        rw [Reference.met, h.connections]
        exact List.filter_congr fun c hc => by simp only [hmeets c hc]
      cases (hf.revised linked).fate hq with
      | fresh unmet node =>
        exact .fresh (hmet.trans unmet) (by rwa [hnode, hlike.bearing])
      | kept old like met node =>
        exact .kept old (hlike.trans like) (hmet.trans met) (hnode.trans node)
      | forgot old like was gone met node =>
        exact .forgot old (hlike.trans like) was (h.connections ▸ gone) (hmet ▸ met)
          (hnode.trans node)
      | told old like new met node far =>
        refine .told old (hlike.trans like) new (hmet.trans met) (hnode.trans node) ?_
        rw [hlike.bearing]
        exact h.far (Reference.mem_met.1 (met ▸ List.mem_append_right _ List.mem_cons_self)).1 far

/-- One node may be changed, if connections stay at it and its references are new or echo
    those that it had. -/
theorem reshaped_modifyNode {s : Scene} {id : NodeId} {n : Node} {f : Node → Node}
    (hn : s.node? id = some n) (hid : (f n).id = n.id)
    (hfar : ∀ b : Bearing, ∀ c ∈ s.connections, b.there n c → b.there (f n) c)
    (hrefs : ∀ r ∈ (f n).references, r.Unused linked s.connections ∨
      ∃ q ∈ n.references, r.Echoes s.connections q) :
    Reshaped linked s (s.modifyNode id f) := by
  obtain ⟨-, before, after, hs, hmod, -⟩ := nodes_modifyNode hn
  have hnodes := hmod f
  refine ⟨rfl, ?_, ?_⟩
  · rintro b id c hc ⟨m, hm, rfl, hmc⟩
    rw [hs] at hm
    rcases List.mem_append.1 hm with hm | hm
    · exact ⟨m, hnodes ▸ List.mem_append_left _ hm, rfl, hmc⟩
    rcases List.mem_cons.1 hm with rfl | hm
    · exact ⟨f m, hnodes ▸ List.mem_append_right _ List.mem_cons_self, hid, hfar b c hc hmc⟩
    · exact ⟨m, hnodes ▸ List.mem_append_right _ (List.mem_cons_of_mem _ hm), rfl, hmc⟩
  · intro id r href
    obtain ⟨m, hm, rfl, hr⟩ := mem_references.1 href
    have hkept : m ∈ s.nodes → r.Unused linked s.connections ∨
        ∃ q, (m.id, q) ∈ s.references ∧ r.Echoes s.connections q :=
      fun hm => .inr ⟨r, mem_references.2 ⟨m, hm, rfl, hr⟩, .refl _ r⟩
    rw [hnodes] at hm
    rcases List.mem_append.1 hm with hm | hm
    · exact hkept (hs ▸ List.mem_append_left _ hm)
    rcases List.mem_cons.1 hm with rfl | hm
    · refine (hrefs r hr).imp_right fun ⟨q, hq, hecho⟩ => ⟨q, ?_, hecho⟩
      exact mem_references.2 ⟨n, hs ▸ List.mem_append_right _ List.mem_cons_self, hid.symm, hq⟩
    · exact hkept (hs ▸ List.mem_append_right _ (List.mem_cons_of_mem _ hm))

namespace Intact
variable {s : Scene} (h : s.Intact)
include h

theorem untouched_of_new {x : ConnectorId} (hx : x.uuid ∉ s.ids) {c : Connection}
    (hc : c ∈ s.connections) : c.touches x = false := by
  by_contra ht
  obtain ⟨y, hy, rfl⟩ := h.wired.joined.based c hc x (by simpa using ht)
  exact hx (uuid_mem_ids hy)

/-! ## Nodes that come and go -/

theorem reshaped_addNode {n : Node} (hnew : ∀ u ∈ n.ids, u ∉ s.ids)
    (hnode : ∀ r ∈ n.references, r.node = none ∨ linked ∧ r.bearing = .way) :
    Reshaped linked s (s.addNode n) where
  connections := rfl
  far := by
    rintro b id c - ⟨m, hm, hid, hmc⟩
    exact ⟨m, List.mem_append_left _ hm, hid, hmc⟩
  references := by
    intro id r href
    obtain ⟨m, hm, rfl, hr⟩ := mem_references.1 href
    rcases List.mem_append.1 hm with hm | hm
    · exact .inr ⟨r, mem_references.2 ⟨m, hm, rfl, hr⟩, .refl _ r⟩
    · obtain rfl := List.mem_singleton.1 hm
      refine .inl ⟨fun c hc hmeets => ?_, hnode r hr⟩
      obtain ⟨x, hx, ht⟩ := Node.exists_touches hr hmeets
      have hx' := hnew x.id.uuid (List.mem_cons_of_mem _ (List.mem_map_of_mem hx))
      simp [h.untouched_of_new hx' hc] at ht

omit h in
/-- A node may go that no connection touches. -/
theorem reshaped_erase {before after : List Node} {n : Node} (hs : s.nodes = before ++ n :: after)
    (hfree : ∀ x ∈ n.connectors, ∀ c ∈ s.connections, c.touches x.id = false) :
    Reshaped linked s { s with nodes := before ++ after } where
  connections := rfl
  far := by
    rintro b id c hc ⟨m, hm, rfl, hmc⟩
    rw [hs] at hm
    rcases List.mem_append.1 hm with hm | hm
    · exact ⟨m, List.mem_append_left _ hm, rfl, hmc⟩
    rcases List.mem_cons.1 hm with rfl | hm
    · obtain ⟨x, hx, ht⟩ := Node.touches_of_there hmc
      simp [hfree x hx c hc] at ht
    · exact ⟨m, List.mem_append_right _ hm, rfl, hmc⟩
  references := by
    intro id r href
    obtain ⟨m, hm, rfl, hr⟩ := mem_references.1 href
    have hm' : m ∈ s.nodes := by
      rw [hs]
      exact (List.mem_append.1 hm).elim (List.mem_append_left _)
        fun hm => List.mem_append_right _ (List.mem_cons_of_mem _ hm)
    exact .inr ⟨r, mem_references.2 ⟨m, hm', rfl, hr⟩, .refl _ r⟩

theorem revised_removeNode (hb : s.Branched) {id : NodeId} {s' : Scene} {n : Node}
    (hr : s.removeNode id = .ok (s', n)) : Revised linked s s' := by
  obtain ⟨m, _, before, after, hm, rfl, hk, hs, rfl⟩ := removeNode_eq_ok hr
  refine Reshaped.revised (reshaped_erase hs fun x hx c hc => ?_) (h.frees_foldl hb m.connectors)
  exact untouched_foldl hm hk hx hc

/-! ## Gates -/

theorem reshaped_setSwitch {id : NodeId} {switch : Switch} {connector : Nat → ConnectorId}
    {s' : Scene} (hr : s.setSwitch id switch connector = .ok s')
    (hflip : ∀ n, s.node? id = some n → n.content ≠ .state switch)
    (hnew : (connector 0).uuid ∉ s.ids) : Reshaped linked s s' := by
  obtain ⟨n, old, hn, hold, hlost, rfl⟩ := setSwitch_eq_ok hr
  have hmem : n ∈ s.nodes := List.mem_of_find?_eq_some hn
  have hne : old ≠ switch := fun heq => hflip n hn (heq ▸ hold)
  have hgone := h.untouched_gate hmem hold hne hlost
  have hcome : ∀ x ∈ (n.asGate switch connector).connectors, ∀ c ∈ s.connections,
      c.touches x.id = false := by
    rw [Node.connectors_asGate]
    intro x hx c hc
    obtain rfl := List.mem_singleton.1 hx
    exact h.untouched_of_new hnew hc
  -- neither the old references nor the new ones go by any connection
  have hnone : ∀ m : Node, (∀ x ∈ m.connectors, ∀ c ∈ s.connections, c.touches x.id = false) →
      ∀ r ∈ m.references, ∀ c ∈ s.connections, ¬r.Meets c := by
    intro m hfree r hr c hc hmeets
    obtain ⟨x, hx, ht⟩ := Node.exists_touches hr hmeets
    simp [hfree x hx c hc] at ht
  have hother : ∀ choices, (n.asGate switch connector).content ≠ .choice choices :=
    fun _ h => by cases h
  have hold' := hnone n hgone
  have hnew' := hnone (n.asGate switch connector) hcome
  rw [Node.references_of_other (by simp [hold])] at hold'
  rw [Node.references_of_other hother] at hnew'
  refine reshaped_modifyNode hn rfl (fun b c hc hfar => ?_) fun r hr => ?_
  · obtain ⟨x, hx, ht⟩ := Node.touches_of_there hfar
    simp [hgone x hx c hc] at ht
  rw [Node.references_of_other hother] at hr
  rw [Node.references_of_other (by simp [hold])]
  right
  rcases List.mem_pair.1 hr with rfl | rfl
  · exact ⟨_, List.mem_cons_self, ⟨rfl, fun hb => absurd rfl hb⟩, rfl, fun c hc =>
      iff_of_false (hnew' _ List.mem_cons_self c hc) (hold' _ List.mem_cons_self c hc)⟩
  · refine ⟨_, List.mem_cons_of_mem _ List.mem_cons_self, ⟨rfl, fun _ _ => ?_⟩, rfl, fun c hc => ?_⟩
    · have hout := ((h.laid n hmem).gate old hold).2
      cases old <;> simp [hout, Switch.layout]
    · exact iff_of_false (hnew' _ (List.mem_cons_of_mem _ List.mem_cons_self) c hc)
        (hold' _ (List.mem_cons_of_mem _ List.mem_cons_self) c hc)

/-! ## Choices and inputs -/

theorem reshaped_addChoice (hb : s.Branched) {id : NodeId} {text : String}
    {connector : ConnectorId} {s' : Scene} {i : Nat}
    (hr : s.addChoice id text connector = .ok (s', i)) (hnew : connector.uuid ∉ s.ids) :
    Reshaped linked s s' := by
  obtain ⟨n, choices, hn, hcontent, rfl⟩ := addChoice_eq_ok hr
  refine reshaped_modifyNode hn rfl (fun b c hc hfar => ?_) fun r hr => ?_
  · cases b with
    | back =>
      obtain ⟨x, hx, hxc⟩ := List.mem_map.1 (show c.source ∈ _ from hfar)
      exact List.mem_map.2 ⟨x, List.mem_append_left _ hx, hxc⟩
    | forth | way => exact hfar
  rw [Node.references_of_choice rfl, List.map_append] at hr
  rw [Node.references_of_choice hcontent]
  rcases List.mem_cons.1 hr with rfl | hr
  · exact .inr ⟨_, List.mem_cons_self, .refl _ _⟩
  rcases List.mem_append.1 hr with hr | hr
  · -- the outputs of the other choices are where they were
    obtain ⟨c, hc, rfl⟩ := List.mem_map.1 hr
    refine .inr ⟨_, List.mem_cons_of_mem _ (List.mem_map_of_mem hc), ?_⟩
    have hlt : c.output < n.outputs.length := List.mem_range.1
      (((Node.branched_of_choice hcontent).1 (hb n (List.mem_of_find?_eq_some hn))).subset
        (List.mem_map_of_mem hc))
    simp only [Node.output?, Node.withChoice, List.getElem?_append_left hlt]
    exact .refl _ _
  · obtain rfl := List.mem_singleton.1 hr
    refine .inl ⟨fun c hc hmeets => ?_, .inl rfl⟩
    have hsource : c.source = connector := by
      simpa [Reference.Meets, Bearing.near, Node.output?, Node.withChoice] using hmeets
    have := h.untouched_of_new hnew hc
    simp [Connection.touches, hsource] at this

theorem revised_removeChoice (hb : s.Branched) {id : NodeId} {index : Nat} {s' : Scene}
    (hr : s.removeChoice id index = .ok s') : Revised linked s s' := by
  obtain ⟨n, choices, choice, hn, hcontent, hchoice, rfl⟩ := removeChoice_eq_ok hr
  have hfrees := h.frees_freed hb (n.output? choice.output)
  refine Reshaped.revised (u := s.freed (n.output? choice.output)) ?_ hfrees
  obtain ⟨m, hm, hshape⟩ := node?_congr hfrees.shapes hn
  obtain ⟨others, hothers, houtputs⟩ := Node.choice_of_shape hshape hcontent
  obtain ⟨other, hother, houtput⟩ := choice_of_outputs houtputs hchoice
  have hperm := (Node.branched_of_choice hothers).1
    ((branched_congr hfrees.shapes).1 hb m (List.mem_of_find?_eq_some hm))
  refine reshaped_modifyNode hm rfl (fun b c hc hfar => ?_) fun r hr => ?_
  · cases b with
    | back =>
      obtain ⟨x, hx, hxc⟩ := List.mem_map.1 (show c.source ∈ _ from hfar)
      refine List.mem_map.2 ⟨x, ?_, hxc⟩
      refine (List.mem_append.1 ((perm_eraseIdx _ _).mem_iff.1 hx)).resolve_left fun hlost => ?_
      -- the connector that goes was detached
      have hout : n.output? choice.output = some x.id := by
        rw [← Node.output?_of_shape hshape, Node.output?, Option.mem_toList.1 hlost, Option.map_some]
      rw [hout] at hc
      have := touches_freed c hc
      simp [Connection.touches, hxc] at this
    | forth | way => exact hfar
  have hways := congrArg (List.map fun e : String × Option NodeId × Option Connector =>
    (⟨.way, e.2.1, (e.2.2.map Connector.id).toList⟩ : Reference))
    (map_dropChoice m.outputs hperm hother)
  rw [houtput, List.map_map, List.map_map] at hways
  rw [Node.references_of_choice (Node.content_without hothers ..)] at hr
  rw [Node.references_of_choice hothers]
  rcases List.mem_cons.1 hr with rfl | hr
  · exact .inr ⟨_, List.mem_cons_self, .refl _ _⟩
  · obtain ⟨d, hd, rfl⟩ := List.mem_map.1 (hways ▸ hr)
    exact .inr ⟨_, List.mem_cons_of_mem _ (List.mem_map_of_mem (List.mem_of_mem_eraseIdx hd)),
      .refl _ _⟩

theorem reshaped_addInput {id : NodeId} {connector : ConnectorId} {s' : Scene}
    (hr : s.addInput id connector = .ok s') (hnew : connector.uuid ∉ s.ids) :
    Reshaped linked s s' := by
  obtain ⟨n, hn, hcontent, rfl⟩ := addInput_eq_ok hr
  have hother : ∀ choices, n.content ≠ .choice choices := by simp [hcontent]
  refine reshaped_modifyNode hn rfl (fun b c hc hfar => ?_) fun r hr => .inr ?_
  · cases b with
    | back => exact hfar
    | forth | way =>
      obtain ⟨x, hx, hxc⟩ := List.mem_map.1 (show c.target ∈ _ from hfar)
      exact List.mem_map.2 ⟨x, List.mem_append_left _ hx, hxc⟩
  rw [Node.references_of_other (by exact hother)] at hr
  rw [Node.references_of_other hother]
  rcases List.mem_pair.1 hr with rfl | rfl
  · refine ⟨_, List.mem_cons_self, ⟨rfl, fun hb => absurd rfl hb⟩, rfl, fun c hc => ?_⟩
    have htarget : c.target ≠ connector := by
      rintro rfl
      simpa [Connection.touches] using h.untouched_of_new hnew hc
    simp [Reference.Meets, Bearing.near, Node.withInput, htarget]
  · exact ⟨_, List.mem_cons_of_mem _ List.mem_cons_self, .refl _ _⟩

theorem revised_removeInput (hb : s.Branched) {id : NodeId} {s' : Scene}
    (hr : s.removeInput id = .ok s') : Revised linked s s' := by
  obtain ⟨n, hn, hcontent, rfl⟩ := removeInput_eq_ok hr
  have hfrees := h.frees_freed hb (n.inputs.getLast?.map Connector.id)
  refine Reshaped.revised (u := s.freed (n.inputs.getLast?.map Connector.id)) ?_ hfrees
  obtain ⟨m, hm, hshape⟩ := node?_congr hfrees.shapes hn
  have hother : ∀ choices, m.content ≠ .choice choices := by
    intro choices hm
    obtain ⟨others, hn, -⟩ := Node.choice_of_shape hshape.symm hm
    cases hcontent.symm.trans hn
  -- the input that goes was detached
  have hstay : ∀ c ∈ (s.freed (n.inputs.getLast?.map Connector.id)).connections,
      m.Receives c → c.target ∈ m.inputs.dropLast.map Connector.id := by
    intro c hc hreceives
    obtain ⟨x, hx, hxc⟩ := List.mem_map.1 hreceives
    refine List.mem_map.2 ⟨x, ?_, hxc⟩
    refine (List.mem_append.1 ((perm_dropLast _).mem_iff.1 hx)).resolve_left fun hlost => ?_
    have hlast : n.inputs.getLast?.map Connector.id = some x.id := by
      rw [← Node.getLast?_inputs_of_shape hshape, Option.mem_toList.1 hlost, Option.map_some]
    rw [hlast] at hc
    have := touches_freed c hc
    simp [Connection.touches, hxc] at this
  refine reshaped_modifyNode hm rfl (fun b c hc hfar => ?_) fun r hr => .inr ?_
  · cases b with
    | back => exact hfar
    | forth | way => exact hstay c hc hfar
  rw [Node.references_of_other (by exact hother)] at hr
  rw [Node.references_of_other hother]
  rcases List.mem_pair.1 hr with rfl | rfl
  · refine ⟨_, List.mem_cons_self, ⟨rfl, fun hb => absurd rfl hb⟩, rfl, fun c hc => ?_⟩
    refine ⟨fun hmeets => ?_, hstay c hc⟩
    obtain ⟨x, hx, hxc⟩ := List.mem_map.1 (show c.target ∈ _ from hmeets)
    exact List.mem_map.2 ⟨x, List.dropLast_subset _ hx, hxc⟩
  · exact ⟨_, List.mem_cons_of_mem _ List.mem_cons_self, .refl _ _⟩

/-! ## Calls -/

/-- Whatever is asked of a scene, its references are new, kept, forgotten or told. -/
theorem revised_edit (hb : s.Branched) {e : Edit} (he : Sound s e) :
    Revised (¬e.Unlinked) s (s.edit e) := by
  obtain ⟨⟨-, hnew⟩, hflip⟩ := he
  have hidle : Revised (¬e.Unlinked) s s := (Frees.refl s).revised _
  have hchange : ∀ {t}, Reshaped (¬e.Unlinked) s t → Revised (¬e.Unlinked) s t :=
    fun ht => ht.revised (.refl s)
  cases e with
  | addNode content id connector =>
    exact hchange (h.reshaped_addNode hnew (Node.references_make content id connector))
  | addCombiner inputs id connector =>
    refine hchange (h.reshaped_addNode hnew fun r hr => .inl ?_)
    rcases List.mem_pair.1 hr with rfl | rfl
    · rfl
    · rfl
  | connect a b => exact settled_map_induction hidle fun s' c hr => h.revised_connect hb hr _
  | disconnect c =>
    change Revised _ s (((s.disconnect? c).map Prod.fst).getD s)
    cases hd : s.disconnect? c with
    | none => exact hidle
    | some r => exact (h.frees_disconnect? hb hd).revised _
  | removeNode id => exact settled_map_induction hidle fun s' n hr => h.revised_removeNode hb hr
  | setSwitch id switch connector =>
    exact settled_induction hidle fun s' hr =>
      hchange (h.reshaped_setSwitch hr hflip (hnew _ List.mem_cons_self))
  | addChoice id text connector =>
    exact settled_map_induction hidle fun s' i hr =>
      hchange (h.reshaped_addChoice hb hr (hnew _ List.mem_cons_self))
  | removeChoice id index =>
    exact settled_induction hidle fun s' hr => h.revised_removeChoice hb hr
  | addInput id connector =>
    exact settled_induction hidle fun s' hr =>
      hchange (h.reshaped_addInput hr (hnew _ List.mem_cons_self))
  | removeInput id => exact settled_induction hidle fun s' hr => h.revised_removeInput hb hr

end Intact

end Scene

end VisualNovel
