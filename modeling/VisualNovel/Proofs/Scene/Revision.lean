/-
  What becomes of references when connections are made and undone.

  * `Scene.Frees`: some connections were undone, and the references by them forgotten;
  * `Reference.Fate`: a reference is new, or it was kept, forgotten or told of a new
    connection;
  * `Scene.Frees.revised`, `Scene.Intact.revised_connect`: what is undone is forgotten, and
    what is made is told.
-/
import VisualNovel.Proofs.Scene.Reference

namespace VisualNovel

/-! ## Sides of nodes -/

/-- The connections at a node that its references of a bearing are about. -/
def Bearing.here : Bearing → Node → Connection → Prop
  | back => Node.Receives
  | forth | way => Node.Sends

/-- The connections at the node that is referred to. -/
def Bearing.there : Bearing → Node → Connection → Prop
  | back => Node.Sends
  | forth | way => Node.Receives

/-- A connection is on a side of the node of an identity. -/
def Scene.At (s : Scene) (side : Node → Connection → Prop) (id : NodeId) (c : Connection) : Prop :=
  ∃ n ∈ s.nodes, n.id = id ∧ side n c

theorem Bearing.there_of_shape (b : Bearing) {m n : Node} (h : m.shape = n.shape)
    {c : Connection} : b.there m c ↔ b.there n c := by
  cases b with
  | back => exact Node.sends_of_shape h
  | forth | way => exact Node.receives_of_shape h

theorem Node.Laid.sends {n : Node} (h : n.Laid) {x : Connector} (hx : x ∈ n.connectors)
    (hf : x.flow = .output) {c : Connection} (hxc : x.id = c.source) : n.Sends c := by
  refine List.mem_map.2 ⟨x, (List.mem_append.1 hx).resolve_left fun hin => ?_, hxc⟩
  cases hf.symm.trans (h.inputs x hin)

theorem Node.Laid.receives {n : Node} (h : n.Laid) {x : Connector} (hx : x ∈ n.connectors)
    (hf : x.flow = .input) {c : Connection} (hxc : x.id = c.target) : n.Receives c := by
  refine List.mem_map.2 ⟨x, (List.mem_append.1 hx).resolve_right fun hout => ?_, hxc⟩
  cases hf.symm.trans (h.outputs x hout)

theorem Scene.at_of_shapes {s t : Scene} (h : s.shapes = t.shapes) {b : Bearing} {id : NodeId}
    {c : Connection} (hs : s.At b.there id c) : t.At b.there id c := by
  obtain ⟨n, hn, rfl, hc⟩ := hs
  obtain ⟨m, hm, hshape⟩ := exists_of_shapes h hn
  exact ⟨m, hm, Node.id_of_shape hshape, (b.there_of_shape hshape).2 hc⟩

/-! ## References of two scenes -/

namespace Reference

/-- The connections of a scene that a reference goes by, the newest of them last. -/
def met (r : Reference) (s : Scene) : List Connection :=
  s.connections.filter fun c => decide (r.Meets c)

theorem mem_met {r : Reference} {s : Scene} {c : Connection} :
    c ∈ r.met s ↔ c ∈ s.connections ∧ r.Meets c := by
  simp [met]

/-- A reference of a node may stand in for another one: they are alike, and if it goes by
    one connector then so does the other. -/
structure Like (r q : Reference) : Prop where
  bearing : r.bearing = q.bearing
  single : r.bearing ≠ .back → r.ends.length ≤ 1 → q.ends.length ≤ 1

theorem Like.refl (r : Reference) : r.Like r := ⟨rfl, fun _ h => h⟩

theorem Like.trans {r q p : Reference} (h : r.Like q) (h' : q.Like p) : r.Like p where
  bearing := h.bearing.trans h'.bearing
  single hb hr := h'.single (h.bearing ▸ hb) (h.single hb hr)

/-- What became of a reference of a node from one scene to another.  A new one names nobody,
    but for choices that were given a way of their own. -/
inductive Fate (linked : Prop) (s t : Scene) (id : NodeId) (r : Reference) : Prop
  | fresh (unmet : r.met t = []) (node : r.node = none ∨ linked ∧ r.bearing = .way)
  | kept {q : Reference} (old : (id, q) ∈ s.references) (like : r.Like q)
    (met : r.met t = q.met s) (node : r.node = q.node)
  | forgot {q : Reference} (old : (id, q) ∈ s.references) (like : r.Like q) {c : Connection}
    (was : c ∈ q.met s) (gone : c ∉ t.connections) (met : ∀ d ∈ r.met t, d ∈ q.met s)
    (node : r.node = none)
  | told {q : Reference} (old : (id, q) ∈ s.references) (like : r.Like q) {c : Connection}
    (new : c ∉ s.connections) (met : r.met t = q.met s ++ [c]) {k : NodeId}
    (node : r.node = some k) (far : t.At r.bearing.there k c)

/-- The reference after connections of a scene were undone. -/
def forgets (s t : Scene) (r : Reference) : Reference :=
  if ∃ c ∈ r.met s, c ∉ t.connections then { r with node := none } else r

theorem met_forgets (s t u : Scene) (r : Reference) : (r.forgets s t).met u = r.met u := by
  unfold forgets
  split
  · rfl
  · rfl

end Reference

theorem Apart.nodup {cs : List Connection} (h : Apart cs) : cs.Nodup := by
  refine List.Pairwise.imp (fun {c d} hcd => ?_) h
  rintro rfl
  exact hcd c.source (by simp [Connection.touches])

/-- The connection at a connector is one. -/
theorem Apart.eq_of_touches {cs : List Connection} (h : Apart cs) {c d : Connection} (hc : c ∈ cs)
    (hd : d ∈ cs) {x : ConnectorId} (hcx : c.touches x = true) (hdx : d.touches x = true) :
    c = d := by
  have hsymm : Std.Symm fun c d : Connection =>
      ∀ id, ¬(c.touches id = true ∧ d.touches id = true) := ⟨fun _ _ h id hid => h id hid.symm⟩
  by_contra hne
  exact List.Pairwise.forall h hc hd hne x ⟨hcx, hdx⟩

namespace Scene

/-- What a call does to the references of a scene.  The far ends of its connections stay at
    the nodes where they were. -/
structure Revised (linked : Prop) (s t : Scene) : Prop where
  far : ∀ {b : Bearing} {id : NodeId} {c : Connection}, c ∈ s.connections → c ∈ t.connections →
    s.At b.there id c → t.At b.there id c
  fate : ∀ {id : NodeId} {r : Reference}, (id, r) ∈ t.references → r.Fate linked s t id

/-! ## Connections that are undone -/

/-- From one scene to the other, connections were undone and the references by them
    forgotten. -/
structure Frees (s t : Scene) : Prop where
  shapes : s.shapes = t.shapes
  connections : ∃ keep : Connection → Bool, t.connections = s.connections.filter keep
  references : t.references = s.references.map fun e => (e.1, e.2.forgets s t)

namespace Frees
variable {s t u : Scene}

theorem subset (h : s.Frees t) {c : Connection} (hc : c ∈ t.connections) : c ∈ s.connections := by
  obtain ⟨keep, hkeep⟩ := h.connections
  rw [hkeep] at hc
  exact List.mem_of_mem_filter hc

theorem refl (s : Scene) : s.Frees s where
  shapes := rfl
  connections := ⟨fun _ => true, by simp⟩
  references := by
    have hsame : ∀ r : Reference, r.forgets s s = r := fun r =>
      if_neg fun ⟨c, hc, hgone⟩ => hgone (Reference.mem_met.1 hc).1
    simp [hsame]

theorem trans (h : s.Frees t) (h' : t.Frees u) : s.Frees u where
  shapes := h.shapes.trans h'.shapes
  connections := by
    obtain ⟨keep, hkeep⟩ := h.connections
    obtain ⟨keep', hkeep'⟩ := h'.connections
    exact ⟨_, by rw [hkeep', hkeep, List.filter_filter]⟩
  references := by
    rw [h'.references, h.references, List.map_map]
    refine List.map_congr_left fun e _ => Prod.ext rfl ?_
    change (e.2.forgets s t).forgets t u = e.2.forgets s u
    by_cases hgone : ∃ c ∈ e.2.met s, c ∉ t.connections
    · -- what is gone first is gone in the end
      have hgone' : ∃ c ∈ e.2.met s, c ∉ u.connections := by
        obtain ⟨c, hc, hct⟩ := hgone
        exact ⟨c, hc, fun hcu => hct (h'.subset hcu)⟩
      rw [Reference.forgets, Reference.met_forgets, Reference.forgets, if_pos hgone,
        Reference.forgets, if_pos hgone']
      split
      · rfl
      · rfl
    · have hiff : (∃ c ∈ e.2.met t, c ∉ u.connections) ↔ ∃ c ∈ e.2.met s, c ∉ u.connections := by
        constructor
        · rintro ⟨c, hc, hcu⟩
          obtain ⟨hct, hmeets⟩ := Reference.mem_met.1 hc
          exact ⟨c, Reference.mem_met.2 ⟨h.subset hct, hmeets⟩, hcu⟩
        · rintro ⟨c, hc, hcu⟩
          have hct : c ∈ t.connections := by
            by_contra hct
            exact hgone ⟨c, hc, hct⟩
          exact ⟨c, Reference.mem_met.2 ⟨hct, (Reference.mem_met.1 hc).2⟩, hcu⟩
      have hkept : e.2.forgets s t = e.2 := if_neg hgone
      rw [hkept]
      simp only [Reference.forgets, hiff]

end Frees

/-- Both ends of a connection are at nodes. -/
theorem Intact.nodes_of_connection {s : Scene} (h : s.Intact) {c : Connection} (hc : c ∈ s.connections) :
    (∃ n ∈ s.nodes, n.Sends c) ∧ ∃ n ∈ s.nodes, n.Receives c := by
  obtain ⟨⟨x, hx, hxs, hxf⟩, y, hy, hyt, hyf⟩ := h.wired.joined c hc
  obtain ⟨m, hm, hxm⟩ := mem_connectors.1 hx
  obtain ⟨n, hn, hyn⟩ := mem_connectors.1 hy
  exact ⟨⟨m, hm, (h.laid m hm).sends hxm hxf hxs⟩, n, hn, (h.laid n hn).receives hyn hyf hyt⟩

/-- A connection that is undone is forgotten. -/
theorem Intact.frees_disconnect? {s s' : Scene} (h : s.Intact) (hb : s.Branched)
    {id : ConnectorId} {c : Connection} (hd : s.disconnect? id = some (s', c)) : s.Frees s' := by
  obtain ⟨before, after, hs, -, -, rfl⟩ := disconnect?_eq_some hd
  have hc : c ∈ s.connections := by simp [hs]
  have honce : c ∉ before ++ after :=
    (List.nodup_cons.1 (List.nodup_middle.1 (hs ▸ h.wired.apart.nodup))).1
  have hrest : before ++ after = s.connections.filter fun d => decide (d ≠ c) := by
    rw [hs, List.filter_append, List.filter_cons_of_neg (by simp), ← List.filter_append]
    refine (List.filter_eq_self.2 fun d hd => ?_).symm
    exact decide_eq_true fun heq => honce (heq ▸ hd)
  have hgone : ∀ r : Reference, (∃ d ∈ r.met s, d ∉ before ++ after) ↔ r.Meets c := by
    intro r
    constructor
    · rintro ⟨d, hd, hgone⟩
      obtain ⟨hds, hmeets⟩ := Reference.mem_met.1 hd
      obtain rfl : d = c := by
        by_contra hne
        exact hgone (hrest ▸ List.mem_filter.2 ⟨hds, decide_eq_true hne⟩)
      exact hmeets
    · exact fun hmeets => ⟨c, Reference.mem_met.2 ⟨hc, hmeets⟩, honce⟩
  obtain ⟨⟨m, hm, hsends⟩, k, hk, hreceives⟩ := h.nodes_of_connection hc
  refine ⟨(shapes_disconnect? hd).symm, ⟨_, (connections_release ..).trans hrest⟩, ?_⟩
  have hdistinct : ({ s with connections := before ++ after } : Scene).Distinct :=
    ⟨h.isDistinct.nodes, h.isDistinct.connectors⟩
  rw [references_release hdistinct hb hm hk hsends hreceives]
  refine List.map_congr_left fun e _ => Prod.ext rfl ?_
  change e.2.told c none none = e.2.forgets s _
  rw [Reference.told, Reference.forgets, connections_release]
  simp only [hgone, ite_self]

/-- One more connection may be undone. -/
theorem Frees.further {s t t' : Scene} {id : ConnectorId} {c : Connection}
    (hd : t.disconnect? id = some (t', c)) (h : t.Intact ∧ t.Branched ∧ s.Frees t) :
    t'.Intact ∧ t'.Branched ∧ s.Frees t' := by
  obtain ⟨ht, hb, hst⟩ := h
  exact ⟨ht.disconnect? hd, (branched_congr (shapes_disconnect? hd)).2 hb,
    hst.trans (ht.frees_disconnect? hb hd)⟩

section
variable {s : Scene} (h : s.Intact) (hb : s.Branched)
include h hb

theorem Intact.frees_disconnectAll (id : ConnectorId) : s.Frees (s.disconnectAll id) :=
  (disconnectAll_induction (P := fun t => t.Intact ∧ t.Branched ∧ s.Frees t) Frees.further s
    ⟨h, hb, .refl s⟩).2.2

theorem Intact.frees_foldl (xs : List Connector) :
    s.Frees (xs.foldl (fun s x => s.disconnectAll x.id) s) :=
  (detach_induction (P := fun t => t.Intact ∧ t.Branched ∧ s.Frees t) Frees.further xs s
    ⟨h, hb, .refl s⟩).2.2

theorem Intact.frees_freed : ∀ c, s.Frees (s.freed c)
  | none => .refl s
  | some c => h.frees_disconnectAll hb c

end

theorem Frees.revised {s t : Scene} (h : s.Frees t) (linked : Prop) : Revised linked s t where
  far _ _ hs := at_of_shapes h.shapes hs
  fate {id r} hr := by
    rw [h.references] at hr
    obtain ⟨⟨id', q⟩, hq, heq⟩ := List.mem_map.1 hr
    obtain ⟨rfl, rfl⟩ := Prod.mk.inj heq
    obtain ⟨keep, hkeep⟩ := h.connections
    by_cases hgone : ∃ c ∈ q.met s, c ∉ t.connections
    · have hforgets : q.forgets s t = { q with node := none } := if_pos hgone
      obtain ⟨c, hc, hct⟩ := hgone
      rw [hforgets]
      refine .forgot hq ⟨rfl, fun _ h => h⟩ hc hct (fun d hd => ?_) rfl
      obtain ⟨hdt, hmeets⟩ := Reference.mem_met.1 hd
      exact Reference.mem_met.2 ⟨h.subset hdt, hmeets⟩
    · have hforgets : q.forgets s t = q := if_neg hgone
      rw [hforgets]
      refine .kept hq (.refl q) ?_ rfl
      rw [Reference.met, hkeep, List.filter_filter]
      refine List.filter_congr fun c hc => ?_
      by_cases hmeets : q.Meets c
      · have hct : c ∈ t.connections := by
          by_contra hct
          exact hgone ⟨c, Reference.mem_met.2 ⟨hc, hmeets⟩, hct⟩
        rw [hkeep] at hct
        simp [(List.mem_filter.1 hct).2]
      · simp [hmeets]

/-! ## Connections that are made -/

/-- A connection that is made is new, and joins a node that sends it to one that receives it. -/
theorem Intact.sent_of_connect {s s' : Scene} (h : s.Intact) {a b : ConnectorId} {c : Connection}
    (hc : s.connect a b = .ok (s', c)) :
    c ∉ s.connections ∧ ∃ m ∈ s.nodes, ∃ k ∈ s.nodes, m.Sends c ∧ k.Receives c ∧
      s' = s.join c.source m.id c.target k.id := by
  obtain ⟨m, hm, x, hx, k, hk, y, hy, hxc, hyc, hxf, hyf, hx', -, rfl⟩ := connect_eq_ok hc
  refine ⟨fun hmem => ?_, m, hm, k, hk, (h.laid m hm).sends hx hxf hxc,
    (h.laid k hk).receives hy hyf hyc, rfl⟩
  have := (h.wired.marked x (mem_connectors.2 ⟨m, hm, hx⟩)).2
    ⟨c, hmem, by simp [Connection.touches, hxc]⟩
  simp [hx'] at this

/-- A connection that is made is told to the references that go by its ends. -/
theorem Intact.revised_connect {s s' : Scene} (h : s.Intact) (hb : s.Branched)
    {a b : ConnectorId} {c : Connection} (hc : s.connect a b = .ok (s', c)) (linked : Prop) :
    Revised linked s s' := by
  obtain ⟨hnew, m, hm, k, hk, hsends, hreceives, rfl⟩ := h.sent_of_connect hc
  have hshapes : s.shapes = (s.join c.source m.id c.target k.id).shapes := (shapes_join ..).symm
  have hmet : ∀ r : Reference, r.met (s.join c.source m.id c.target k.id) =
      r.met s ++ if r.Meets c then [c] else [] := by
    intro r
    change (s.connections ++ [c]).filter _ = _
    rw [List.filter_append, List.filter_singleton]
    simp [Reference.met]
  refine ⟨fun _ _ => at_of_shapes hshapes, fun {id r} hr => ?_⟩
  rw [references_join h.isDistinct hb hm hk hsends hreceives] at hr
  obtain ⟨⟨id', q⟩, hq, heq⟩ := List.mem_map.1 hr
  obtain ⟨rfl, rfl⟩ := Prod.mk.inj heq
  by_cases hmeets : q.Meets c
  · have hfar : ∃ j, (if q.bearing = .back then some m.id else some k.id) = some j ∧
        s.At q.bearing.there j c := by
      cases q.bearing with
      | back => exact ⟨m.id, rfl, m, hm, rfl, hsends⟩
      | forth | way => exact ⟨k.id, rfl, k, hk, rfl, hreceives⟩
    obtain ⟨j, hj, hfar⟩ := hfar
    have hcmet := hmet q
    rw [if_pos hmeets] at hcmet
    rw [Reference.told_of_meets hmeets]
    exact .told hq ⟨rfl, fun _ h => h⟩ hnew hcmet hj (at_of_shapes hshapes hfar)
  · rw [Reference.told_of_not_meets hmeets]
    refine .kept hq (.refl q) ?_ rfl
    rw [hmet, if_neg hmeets, List.append_nil]

end Scene

end VisualNovel
