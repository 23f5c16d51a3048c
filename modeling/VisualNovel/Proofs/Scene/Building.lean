/-
  What blueprints come to.  Nodes and links are called for in any order; the links are made
  one after the other when the scene is built, and each of them finds those connectors marked
  that the links before it have taken.

  * `Blueprint.Replayed`: a scene in which the first links are made and no more;
  * `Blueprint.Replayed.wire`: the next link is made, or else its fault is reported;
  * `Blueprint.Call`, `Blueprint.written`: calls in any order, and what they write;
  * `Blueprint.build_written`: what comes of it.
-/
import Mathlib.Data.List.Forall2
import VisualNovel.Proofs.Scene.Plan

namespace VisualNovel

section
variable {α β : Type} {R : α → β → Prop} {as : List α} {bs : List β}

theorem exists_right_of_forall₂ (h : List.Forall₂ R as bs) {a : α} (ha : a ∈ as) :
    ∃ b ∈ bs, R a b := by
  induction h with
  | nil => cases ha
  | cons hr _ ih =>
    rcases List.mem_cons.1 ha with rfl | ha
    · exact ⟨_, List.mem_cons_self, hr⟩
    · obtain ⟨b, hb, hab⟩ := ih ha
      exact ⟨b, List.mem_cons_of_mem _ hb, hab⟩

theorem exists_left_of_forall₂ (h : List.Forall₂ R as bs) {b : β} (hb : b ∈ bs) :
    ∃ a ∈ as, R a b :=
  exists_right_of_forall₂ (List.Forall₂.flip (R := fun b a => R a b) h) hb

end

/-- A new node is laid out for its content, and none of its connectors is marked. -/
theorem Node.Made.laid {n : Node} (h : n.Made) :
    n.Laid ∧ ∀ x ∈ n.connectors, x.connected = false := by
  cases h with
  | make content id connector => exact ⟨laid_make .., unconnected_make⟩
  | combiner inputs id connector => exact ⟨laid_combiner .., unconnected_combiner⟩

namespace Scene
variable {s : Scene}

/-- A connection that touches a connector ends at it on the side of its flow. -/
theorem Intact.tip_of_touches (h : s.Intact) {x : Connector} (hx : x ∈ s.connectors)
    {c : Connection} (hc : c ∈ s.connections) (ht : c.touches x.id = true) :
    c.tip x.flow = x.id := by
  obtain ⟨⟨a, ha, has, haf⟩, b, hb, hbt, hbf⟩ := h.wired.joined c hc
  rcases Connection.touches_iff.1 ht with hx' | hx'
  · obtain rfl := h.isDistinct.eq_of_connectorId ha hx (has.trans hx')
    rw [haf]
    exact hx'
  · obtain rfl := h.isDistinct.eq_of_connectorId hb hx (hbt.trans hx')
    rw [hbf]
    exact hx'

/-- An output and an input are connected, if both are free. -/
theorem Intact.connect_eq (h : s.Intact) {m k : Node} (hm : m ∈ s.nodes) (hk : k ∈ s.nodes)
    {x y : Connector} (hx : x ∈ m.outputs) (hy : y ∈ k.inputs) :
    s.connect x.id y.id = if x.connected then .error (.alreadyConnected x.id)
      else if y.connected then .error (.alreadyConnected y.id)
      else .ok (s.join x.id m.id y.id k.id, ⟨x.id, y.id⟩) := by
  have hxf := (h.laid m hm).outputs x hx
  have hyf := (h.laid k hk).inputs y hy
  rw [Scene.connect, h.isDistinct.locate?_eq hm (List.mem_append_right _ hx),
    h.isDistinct.locate?_eq hk (List.mem_append_left _ hy)]
  simp [hxf, hyf]

end Scene

namespace Blueprint

/-- A scene in which the first links of a blueprint are made and nothing else has happened to
    the nodes. -/
structure Replayed (start : Scene) (p : Plan) (earlier : List Link) (s : Scene) : Prop where
  intact : s.Intact
  shapes : s.shapes = p.scene.shapes
  bare : s.bare = start.bare
  connections : List.Forall₂ (Link.Joins p) earlier s.connections
  admits : p.Admits earlier

namespace Replayed
variable {start s : Scene} {p : Plan} {earlier : List Link} (h : Replayed start p earlier s)
include h

theorem distinct : p.scene.Distinct := (Scene.distinct_congr h.shapes).1 h.intact.isDistinct

/-- A label leads to its node. -/
theorem exists_node {label : String} {n : Node} (hn : p.lookup label = some n) :
    ∃ m, s.node? n.id = some m ∧ m.shape = n.shape :=
  Scene.node?_congr h.shapes.symm (h.distinct.node?_eq (Plan.mem_nodes hn))

/-- Ports are found as they were planned. -/
theorem bind_side {label : String} {n : Node} (hn : p.lookup label = some n) (flow : Flow)
    (i : Nat) : ((s.node? n.id).bind fun m => (m.side flow)[i]?.map Connector.id) =
      p.connector? flow (label, i) := by
  obtain ⟨m, hm, hshape⟩ := h.exists_node hn
  rw [hm, Plan.connector?, hn, Option.bind_some, Option.bind_some, ← List.getElem?_map,
    ← List.getElem?_map, Node.side_of_shape hshape]

theorem exists_connector {flow : Flow} {port : String × Nat} {x : ConnectorId}
    (hx : p.connector? flow port = some x) : ∃ n ∈ s.nodes, ∃ y ∈ n.side flow, y.id = x := by
  obtain ⟨n, hn, hnx⟩ := Plan.exists_of_connector? hx
  obtain ⟨m, hm, hshape⟩ := h.exists_node hn
  rw [← Node.side_of_shape hshape] at hnx
  exact ⟨m, List.mem_of_find?_eq_some hm, List.mem_map.1 (List.mem_of_getElem? hnx)⟩

/-- A connector is marked if a link has asked for its port before. -/
theorem marked_iff {n : Node} (hn : n ∈ s.nodes) {flow : Flow} {x : Connector}
    (hx : x ∈ n.side flow) {port : String × Nat} (hport : p.connector? flow port = some x.id) :
    x.connected = true ↔ ∃ e ∈ earlier, e.port flow = port := by
  have hmem := Scene.mem_connectors.2 ⟨n, hn, Node.side_subset hx⟩
  rw [h.intact.wired.marked x hmem]
  constructor
  · rintro ⟨c, hc, htouches⟩
    obtain ⟨e, he, hjoins⟩ := exists_left_of_forall₂ h.connections hc
    have htip := h.intact.tip_of_touches hmem hc htouches
    rw [(h.intact.laid n hn).flow hx] at htip
    exact ⟨e, he, Plan.connector?_inj h.distinct (htip ▸ hjoins flow) hport⟩
  · rintro ⟨e, he, rfl⟩
    obtain ⟨c, hc, hjoins⟩ := exists_right_of_forall₂ h.connections he
    have htip : c.tip flow = x.id := Option.some.inj ((hjoins flow).symm.trans hport)
    refine ⟨c, hc, Connection.touches_iff.2 ?_⟩
    cases flow with
    | input => exact .inr htip
    | output => exact .inl htip

/-- Where two free connectors are joined as a link asks, one more link is made. -/
theorem join {l : Link} (hfault : l.fault? p earlier = none) {m k : Node} (hm : m ∈ s.nodes)
    (hk : k ∈ s.nodes) {x y : Connector} (hx : x ∈ m.side .output) (hy : y ∈ k.side .input)
    (hx' : x.connected = false) (hy' : y.connected = false) (hjoins : l.Joins p ⟨x.id, y.id⟩) :
    Replayed start p (earlier ++ [l]) (s.join x.id m.id y.id k.id) where
  intact := h.intact.join (Scene.mem_connectors.2 ⟨m, hm, Node.side_subset hx⟩)
    (Scene.mem_connectors.2 ⟨k, hk, Node.side_subset hy⟩) ((h.intact.laid m hm).flow hx)
    ((h.intact.laid k hk).flow hy) hx' hy' m.id k.id
  shapes := (Scene.shapes_join ..).trans h.shapes
  bare := h.bare
  connections := List.rel_append h.connections (.cons hjoins .nil)
  admits := Plan.admits_concat.2 ⟨h.admits, Link.fault?_eq_none.1 hfault⟩

/-- Where both labels are known, the ports decide. -/
theorem wire_of_lookup {l : Link} {m k : Node} (hm : p.lookup l.source = some m)
    (hk : p.lookup l.target = some k) : Blueprint.wire p.labels s l = (do
      let source ← connectorAt (p.connector? .output (l.port .output)) l.source l.output
      let target ← connectorAt (p.connector? .input (l.port .input)) l.target l.input
      (s.connect source target).map Prod.fst) := by
  have houtput : ((s.node? m.id).bind fun n => n.output? l.output) =
      p.connector? .output (l.port .output) := h.bind_side hm .output l.output
  have hinput : ((s.node? k.id).bind fun n => n.input? l.input) =
      p.connector? .input (l.port .input) := h.bind_side hk .input l.input
  rw [← houtput, ← hinput, Blueprint.wire, lookup, lookup, Plan.lookup_labels, hm,
    Plan.lookup_labels, hk]
  rfl

/-- The next link is made, unless there is something wrong with it. -/
theorem wire (l : Link) :
    (∃ e, l.fault? p earlier = some e ∧ Blueprint.wire p.labels s l = .error e) ∨
    ∃ s', l.fault? p earlier = none ∧ Blueprint.wire p.labels s l = .ok s' ∧
      Replayed start p (earlier ++ [l]) s' := by
  cases hm : p.lookup l.source with
  | none =>
    refine .inl ⟨.unknownLabel l.source, by simp [Link.fault?, hm], ?_⟩
    rw [Blueprint.wire, lookup, Plan.lookup_labels, hm]
    rfl
  | some m =>
  cases hk : p.lookup l.target with
  | none =>
    refine .inl ⟨.unknownLabel l.target, by simp [Link.fault?, hm, hk], ?_⟩
    rw [Blueprint.wire, lookup, lookup, Plan.lookup_labels, hm, Plan.lookup_labels, hk]
    rfl
  | some k =>
  have hwire := h.wire_of_lookup hm hk
  cases hx : p.connector? .output (l.port .output) with
  | none =>
    refine .inl ⟨.positionOutOfRange l.source l.output, by simp [Link.fault?, hm, hk, hx], ?_⟩
    rw [hwire, hx]
    rfl
  | some x =>
  cases hy : p.connector? .input (l.port .input) with
  | none =>
    refine .inl ⟨.positionOutOfRange l.target l.input, by simp [Link.fault?, hm, hk, hx, hy], ?_⟩
    rw [hwire, hx, hy]
    rfl
  | some y =>
  obtain ⟨m', hm', x, hxm, rfl⟩ := h.exists_connector hx
  obtain ⟨k', hk', y, hyk, rfl⟩ := h.exists_connector hy
  -- what the links before have taken is what is marked
  have hfault : l.fault? p earlier = if x.connected then some (.alreadyConnected x.id)
      else if y.connected then some (.alreadyConnected y.id) else none := by
    simp only [h.marked_iff hm' hxm hx, h.marked_iff hk' hyk hy]
    simp [Link.fault?, hm, hk, hx, hy]
  have hconnect : Blueprint.wire p.labels s l = (s.connect x.id y.id).map Prod.fst := by
    rw [hwire, hx, hy]
    rfl
  rw [h.intact.connect_eq hm' hk' hxm hyk] at hconnect
  cases hx' : x.connected with
  | true =>
    rw [hx'] at hfault hconnect
    exact .inl ⟨.alreadyConnected x.id, hfault, hconnect⟩
  | false =>
  cases hy' : y.connected with
  | true =>
    rw [hx', hy'] at hfault hconnect
    exact .inl ⟨.alreadyConnected y.id, hfault, hconnect⟩
  | false =>
    rw [hx', hy'] at hfault hconnect
    refine .inr ⟨_, hfault, hconnect, h.join hfault hm' hk' hxm hyk hx' hy' fun flow => ?_⟩
    cases flow with
    | input => exact hy
    | output => exact hx

/-- All further links are made, or else the first one is reported that something is wrong
    with. -/
theorem foldlM (links : List Link) :
    (∃ s', links.foldlM (Blueprint.wire p.labels) s = .ok s' ∧
      Replayed start p (earlier ++ links) s') ∨
    ∃ before l after e, links = before ++ l :: after ∧ p.Admits (earlier ++ before) ∧
      l.fault? p (earlier ++ before) = some e ∧
      links.foldlM (Blueprint.wire p.labels) s = .error e := by
  induction links generalizing earlier s with
  | nil =>
    refine .inl ⟨s, rfl, ?_⟩
    rwa [List.append_nil]
  | cons l links ih =>
    rw [List.foldlM_cons]
    rcases h.wire l with ⟨e, hfault, hwire⟩ | ⟨t, -, hwire, ht⟩
    · rw [hwire]
      refine .inr ⟨[], l, links, e, rfl, ?_, ?_, rfl⟩
      · rw [List.append_nil]
        exact h.admits
      · rwa [List.append_nil]
    · rw [hwire]
      rcases ih ht with ⟨s', hs', hreplayed⟩ | ⟨before, l', after, e, rfl, hbefore, hfault, herror⟩
      · rw [List.append_assoc] at hreplayed
        exact .inl ⟨s', hs', hreplayed⟩
      · rw [List.append_assoc] at hbefore hfault
        exact .inr ⟨l :: before, l', after, e, rfl, hbefore, hfault, herror⟩

end Replayed

/-! ## Calls -/

/-- A call on a blueprint. -/
inductive Call where
  | place (label : String) {n : Node} (made : n.Made)
  | addBackground (key path : String)
  | link (l : Link)

/-- The blueprint after a call. -/
def Call.on (b : Blueprint) : Call → Blueprint
  | place label (n := n) _ => b.place label n
  | addBackground key path => b.addBackground key path
  | link l => b.link l

/-- The blueprint of a name that is written by calls. -/
def written (name : String) (calls : List Call) : Blueprint := calls.foldl Call.on (named name)

/-- The node that is placed in a call, under its label. -/
def Call.placed? : Call → Option (String × Node)
  | place label (n := n) _ => some (label, n)
  | _ => none

/-- The link that is asked for in a call. -/
def Call.link? : Call → Option Link
  | link l => some l
  | _ => none

/-- The nodes that are placed in calls. -/
def placed (calls : List Call) : Plan := calls.filterMap Call.placed?

/-- The links that are asked for in calls. -/
def linked (calls : List Call) : List Link := calls.filterMap Call.link?

theorem foldl_on (calls : List Call) (b : Blueprint) :
    (calls.foldl Call.on b).scene.nodes = b.scene.nodes ++ (placed calls).map Prod.snd ∧
      (calls.foldl Call.on b).scene.connections = b.scene.connections ∧
      (calls.foldl Call.on b).labels = b.labels ++ (placed calls).labels ∧
      (calls.foldl Call.on b).links = b.links ++ linked calls := by
  induction calls generalizing b with
  | nil => simp [placed, linked, Plan.labels]
  | cons call calls ih =>
    obtain ⟨hnodes, hconnections, hlabels, hlinks⟩ := ih (call.on b)
    rw [List.foldl_cons, hnodes, hconnections, hlabels, hlinks]
    cases call with
    | place label made =>
      simp [Call.on, place, Scene.addNode, placed, linked, List.filterMap_cons, Call.placed?,
        Call.link?, Plan.labels]
    | addBackground key path =>
      simp [Call.on, addBackground, Scene.addBackground, placed, linked, List.filterMap_cons,
        Call.placed?, Call.link?]
    | link l =>
      simp [Call.on, link, placed, linked, List.filterMap_cons, Call.placed?, Call.link?]

theorem made_of_placed {calls : List Call} {q : String × Node} (hq : q ∈ placed calls) :
    q.2.Made := by
  obtain ⟨call, -, hcall⟩ := List.mem_filterMap.1 hq
  cases call with
  | place label made =>
    cases hcall
    exact made
  | addBackground key path => cases hcall
  | link l => cases hcall

/-- With new identities, the links start from an intact scene. -/
theorem replayed_written (name : String) (calls : List Call)
    (hids : (written name calls).scene.ids.Nodup) :
    Replayed (written name calls).scene (placed calls) [] (written name calls).scene := by
  obtain ⟨hnodes, hconnections, -, -⟩ := foldl_on calls (named name)
  change (written name calls).scene.nodes = [] ++ _ at hnodes
  change (written name calls).scene.connections = [] at hconnections
  rw [List.nil_append] at hnodes
  have hmade : ∀ n ∈ (written name calls).scene.nodes, n.Made := by
    rw [hnodes]
    exact List.forall_mem_map.2 fun q hq => made_of_placed hq
  refine ⟨⟨hids, fun n hn => (hmade n hn).laid.1, ?_⟩, ?_, rfl, ?_, List.forall_mem_nil _, .nil⟩
  · rw [hconnections]
    refine ⟨List.forall_mem_nil _, .nil, fun x hx => ?_⟩
    obtain ⟨n, hn, hxn⟩ := Scene.mem_connectors.1 hx
    simp [(hmade n hn).laid.2 x hxn]
  · exact congrArg (List.map Node.shape) hnodes
  · rw [hconnections]
    exact .nil

theorem nodup_of_repeated? {used : List String} {ls : Labels} (h : repeated? used ls = none) :
    (ls.map Prod.fst).Nodup ∧ ∀ label ∈ ls.map Prod.fst, label ∉ used := by
  induction ls generalizing used with
  | nil => exact ⟨.nil, List.forall_mem_nil _⟩
  | cons l ls ih =>
    obtain ⟨first, id⟩ := l
    rw [repeated?] at h
    split at h
    · cases h
    · rename_i hused
      obtain ⟨hnodup, hrest⟩ := ih h
      have hfirst : first ∉ used := by simpa using hused
      refine ⟨List.nodup_cons.2 ⟨fun hmem => hrest first hmem List.mem_cons_self, hnodup⟩,
        List.forall_mem_cons.2 ⟨hfirst, fun label hlabel hmem => ?_⟩⟩
      exact hrest label hlabel (List.mem_cons_of_mem _ hmem)

/-- The label that is reported is the first one that is there before. -/
theorem exists_of_repeated? {used : List String} {ls : Labels} {label : String}
    (h : repeated? used ls = some label) :
    ∃ before after, ls.map Prod.fst = before ++ label :: after ∧ before.Nodup ∧
      (∀ l ∈ before, l ∉ used) ∧ (label ∈ used ∨ label ∈ before) := by
  induction ls generalizing used with
  | nil => cases h
  | cons l ls ih =>
    obtain ⟨first, id⟩ := l
    rw [repeated?] at h
    split at h
    · rename_i hused
      cases h
      exact ⟨[], ls.map Prod.fst, rfl, .nil, List.forall_mem_nil _, .inl (by simpa using hused)⟩
    · rename_i hused
      obtain ⟨before, after, hls, hnodup, hbefore, hlabel⟩ := ih h
      refine ⟨first :: before, after, by simp [hls], ?_, ?_, ?_⟩
      · exact List.nodup_cons.2 ⟨fun hmem => hbefore first hmem List.mem_cons_self, hnodup⟩
      · refine List.forall_mem_cons.2 ⟨by simpa using hused, fun l hl hmem => ?_⟩
        exact hbefore l hl (List.mem_cons_of_mem _ hmem)
      · rcases hlabel with hlabel | hlabel
        · rcases List.mem_cons.1 hlabel with rfl | hlabel
          · exact .inr List.mem_cons_self
          · exact .inl hlabel
        · exact .inr (List.mem_cons_of_mem _ hlabel)

/-- A scene that is built: the nodes in the order in which they were placed, found under their
    labels, and one connection for each link, in the order in which the links were asked for. -/
structure Built (b : Blueprint) (p : Plan) (links : List Link) (s : Scene) : Prop where
  nodes : s.shapes = p.map fun q => q.2.shape
  labels : ∀ q ∈ p, ∃ id n, b.labels.lookup q.1 = some id ∧ s.node? id = some n ∧
    n.shape = q.2.shape
  connections : List.Forall₂ (Link.Joins p) links s.connections
  bare : s.bare = b.scene.bare

/-- What is reported of a blueprint: the first label that was used before, or else what is
    wrong with the first link that cannot be made. -/
inductive Refused (p : Plan) (links : List Link) : SceneError → Prop
  | repeated {before after : List String} {label : String}
    (labels : p.map Prod.fst = before ++ label :: after) (distinct : before.Nodup)
    (again : label ∈ before) : Refused p links (.duplicateLabel label)
  | faulty (labels : (p.map Prod.fst).Nodup) {before after : List Link} {l : Link}
    (split : links = before ++ l :: after) (admits : p.Admits before) {e : SceneError}
    (fault : l.fault? p before = some e) : Refused p links e

theorem Refused.not_admits {p : Plan} {links : List Link} {e : SceneError}
    (h : Refused p links e) : ¬((p.map Prod.fst).Nodup ∧ p.Admits links) := by
  rintro ⟨hnodup, hadmits⟩
  cases h with
  | repeated labels distinct again =>
    rw [labels] at hnodup
    exact (List.nodup_append.1 hnodup).2.2 _ again _ List.mem_cons_self rfl
  | faulty labels split admits fault =>
    subst split
    have hapart := (List.pairwise_append.1 hadmits.apart).2.2
    have hnone := Link.fault?_eq_none.2
      ⟨hadmits.fits _ (List.mem_append_right _ List.mem_cons_self),
        fun e he => hapart e he _ List.mem_cons_self⟩
    cases hnone.symm.trans fault

theorem Replayed.built {b : Blueprint} {p : Plan} {links : List Link} {s : Scene}
    (h : Replayed b.scene p links s) (hlabels : b.labels = p.labels)
    (hnodup : (p.map Prod.fst).Nodup) : Built b p links s where
  nodes := by rw [h.shapes, Scene.shapes, Plan.scene, List.map_map, Function.comp_def]
  labels q hq := by
    have hlookup := Plan.lookup_of_mem hnodup hq
    obtain ⟨n, hn, hshape⟩ := h.exists_node hlookup
    refine ⟨q.2.id, n, ?_, hn, hshape⟩
    rw [hlabels, Plan.lookup_labels, hlookup, Option.map_some]
  connections := h.connections
  bare := h.bare

/-- Calls on a blueprint come to a scene or to an error. -/
theorem build_cases (name : String) (calls : List Call)
    (hids : (written name calls).scene.ids.Nodup) :
    (∃ s, (written name calls).build = .ok s ∧ ((placed calls).map Prod.fst).Nodup ∧
      Replayed (written name calls).scene (placed calls) (linked calls) s) ∨
    ∃ e, (written name calls).build = .error e ∧ Refused (placed calls) (linked calls) e := by
  obtain ⟨-, -, hlabels, hlinks⟩ := foldl_on calls (named name)
  change (written name calls).labels = (placed calls).labels at hlabels
  change (written name calls).links = linked calls at hlinks
  have hfst : (placed calls).labels.map Prod.fst = (placed calls).map Prod.fst := by
    rw [Plan.labels, List.map_map]
    rfl
  rw [build, hlabels, hlinks]
  cases hrepeated : repeated? [] (placed calls).labels with
  | some label =>
    obtain ⟨before, after, hsplit, hnodup, -, hlabel⟩ := exists_of_repeated? hrepeated
    exact .inr ⟨_, rfl, .repeated (hfst.symm.trans hsplit) hnodup
      (hlabel.resolve_left List.not_mem_nil)⟩
  | none =>
    have hnodup := (nodup_of_repeated? hrepeated).1
    rw [hfst] at hnodup
    rcases (replayed_written name calls hids).foldlM (linked calls) with
      ⟨s, hs, hreplayed⟩ | ⟨before, l, after, e, hsplit, hbefore, hfault, herror⟩
    · exact .inl ⟨s, hs, hnodup, hreplayed⟩
    · exact .inr ⟨e, herror, .faulty hnodup hsplit hbefore hfault⟩

/-- A blueprint that is written by calls, in any order, is built if no label is used twice and
    the nodes have room for the links, and not otherwise.  Then all is in the scene that was
    asked for; otherwise what is wrong first is reported. -/
theorem build_written (name : String) (calls : List Call)
    (hids : (written name calls).scene.ids.Nodup) :
    ((∃ s, (written name calls).build = .ok s) ↔
      ((placed calls).map Prod.fst).Nodup ∧ (placed calls).Admits (linked calls)) ∧
    (∀ s, (written name calls).build = .ok s →
      Built (written name calls) (placed calls) (linked calls) s) ∧
    ∀ e, (written name calls).build = .error e → Refused (placed calls) (linked calls) e := by
  have hlabels : (written name calls).labels = (placed calls).labels :=
    (foldl_on calls (named name)).2.2.1
  rcases build_cases name calls hids with ⟨s, hs, hnodup, hreplayed⟩ | ⟨e, he, hrefused⟩
  · rw [hs]
    refine ⟨iff_of_true ⟨s, rfl⟩ ⟨hnodup, hreplayed.admits⟩, fun t ht => ?_, fun e he => ?_⟩
    · cases ht
      exact hreplayed.built hlabels hnodup
    · cases he
  · rw [he]
    refine ⟨iff_of_false (fun ⟨t, ht⟩ => ?_) hrefused.not_admits, fun t ht => ?_, fun e' he' => ?_⟩
    · cases ht
    · cases ht
    · cases he'
      exact hrefused

/-- A choice between two ways that join again, linked before there is anything to link. -/
def detour : List Call :=
  [.link ⟨"choose", 0, "join", 0⟩, .link ⟨"choose", 1, "join", 1⟩,
    .place "choose" (.make (.choice [{ text := "Left" }, { text := "Right" }]) ⟨⟨0⟩⟩ fun i =>
      ⟨⟨.ofNat 128 (1 + i)⟩⟩),
    .place "join" (.combiner 2 ⟨⟨4⟩⟩ fun i => ⟨⟨.ofNat 128 (5 + i)⟩⟩)]

/-- A link that the detour has no room for. -/
def shortcut : Call := .link ⟨"choose", 1, "join", 0⟩

/-- Both links of the detour are made; a third one finds its output taken. -/
theorem build_written_detour :
    (written "Detour" detour).scene.ids.Nodup ∧
    (∃ s, (written "Detour" detour).build = .ok s ∧
      Built (written "Detour" detour) (placed detour) (linked detour) s) ∧
    (written "Detour" (detour ++ [shortcut])).build = .error (.alreadyConnected ⟨⟨3⟩⟩) ∧
    ¬(placed (detour ++ [shortcut])).Admits (linked (detour ++ [shortcut])) := by
  have hids : (written "Detour" detour).scene.ids.Nodup := by decide
  have hs : (written "Detour" detour).build = .ok _ := rfl
  have he : (written "Detour" (detour ++ [shortcut])).build =
      .error (.alreadyConnected ⟨⟨3⟩⟩) := rfl
  refine ⟨hids, ⟨_, hs, (build_written "Detour" detour hids).2.1 _ hs⟩, he, fun h => ?_⟩
  obtain ⟨s, hs⟩ := (build_written "Detour" (detour ++ [shortcut]) hids).1.2 ⟨by decide, h⟩
  cases he.symm.trans hs

end Blueprint

end VisualNovel
