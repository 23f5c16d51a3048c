/-
  Connectors and the connections between them, apart from the nodes that the
  connectors belong to.

  * `Wired`: connections run from outputs to inputs, no two of them share a
    connector, and a connector is marked exactly if a connection touches it;
  * `Wired.connect`, `Wired.release`, `Wired.add`, `Wired.remove`: what may be done to
    connectors and connections that are wired;
  * `Scene.connectors_join`, `Scene.connectors_release`: what connecting and
    disconnecting do to the connectors of a scene.
-/
import VisualNovel.Proofs.Scene.Shape

namespace VisualNovel

/-- Connections run from outputs to inputs that are there. -/
def Joined (xs : List Connector) (cs : List Connection) : Prop :=
  ∀ c ∈ cs, (∃ x ∈ xs, x.id = c.source ∧ x.flow = .output) ∧
    ∃ x ∈ xs, x.id = c.target ∧ x.flow = .input

/-- The ends of connections are connectors that are there. -/
def Based (xs : List Connector) (cs : List Connection) : Prop :=
  ∀ c ∈ cs, ∀ id, c.touches id = true → ∃ x ∈ xs, x.id = id

/-- A connector is marked exactly if some connection touches it. -/
def Marked (xs : List Connector) (cs : List Connection) : Prop :=
  ∀ x ∈ xs, x.connected = true ↔ ∃ c ∈ cs, c.touches x.id = true

instance (xs : List Connector) (cs : List Connection) : Decidable (Joined xs cs) :=
  inferInstanceAs (Decidable (∀ c ∈ cs, _ ∧ _))

instance (xs : List Connector) (cs : List Connection) : Decidable (Marked xs cs) :=
  inferInstanceAs (Decidable (∀ x ∈ xs, _ ↔ _))

/-- No connector is touched by two connections. -/
def Apart (cs : List Connection) : Prop :=
  cs.Pairwise fun c d => ∀ id, ¬(c.touches id = true ∧ d.touches id = true)

/-- Connectors and connections that fit together. -/
structure Wired (xs : List Connector) (cs : List Connection) : Prop where
  joined : Joined xs cs
  apart : Apart cs
  marked : Marked xs cs

theorem Connection.touches_iff {c : Connection} {id : ConnectorId} :
    c.touches id = true ↔ c.source = id ∨ c.target = id := by
  simp [touches]

/-- The connector with another mark, if it is the one of an identity. -/
def Connector.markedAs (c : ConnectorId) (connected : Bool) (x : Connector) : Connector :=
  if x.id = c then { x with connected } else x

section
variable (c : ConnectorId) (b : Bool) (x : Connector)

@[simp] theorem Connector.id_markedAs : (x.markedAs c b).id = x.id := by
  unfold markedAs; split <;> rfl

@[simp] theorem Connector.flow_markedAs : (x.markedAs c b).flow = x.flow := by
  unfold markedAs; split <;> rfl

theorem Connector.connected_markedAs :
    (x.markedAs c b).connected = if x.id = c then b else x.connected := by
  unfold markedAs; split <;> rfl

end

section
variable {xs ys : List Connector} {cs : List Connection}

theorem Joined.based (h : Joined xs cs) : Based xs cs := by
  intro c hc id ht
  obtain ⟨⟨x, hx, hxs, -⟩, y, hy, hyt, -⟩ := h c hc
  rcases Connection.touches_iff.1 ht with rfl | rfl
  · exact ⟨x, hx, hxs⟩
  · exact ⟨y, hy, hyt⟩

theorem Joined.mono (h : Joined xs cs) (hsub : ∀ x ∈ xs, x ∈ ys) : Joined ys cs := by
  intro c hc
  obtain ⟨⟨x, hx, hx'⟩, y, hy, hy'⟩ := h c hc
  exact ⟨⟨x, hsub x hx, hx'⟩, y, hsub y hy, hy'⟩

theorem Joined.markedAs (h : Joined xs cs) (i : ConnectorId) (b : Bool) :
    Joined (xs.map (Connector.markedAs i b)) cs := by
  intro c hc
  obtain ⟨⟨x, hx, hxs, hxf⟩, y, hy, hyt, hyf⟩ := h c hc
  exact ⟨⟨_, List.mem_map_of_mem hx, by simpa using hxs, by simpa using hxf⟩,
    _, List.mem_map_of_mem hy, by simpa using hyt, by simpa using hyf⟩

theorem based_perm (hp : xs.Perm ys) : Based xs cs ↔ Based ys cs := by
  simp only [Based, hp.mem_iff]

theorem marked_perm (hp : xs.Perm ys) : Marked xs cs ↔ Marked ys cs := by
  simp only [Marked, hp.mem_iff]

theorem Wired.perm (h : Wired xs cs) (hp : xs.Perm ys) : Wired ys cs where
  joined := h.joined.mono fun _ hx => hp.mem_iff.1 hx
  apart := h.apart
  marked := (marked_perm hp).1 h.marked

/-- Unmarked connectors of new identities may come in. -/
theorem Wired.add (h : Wired xs cs) (hnew : ∀ y ∈ ys, ∀ x ∈ xs, x.id ≠ y.id)
    (hfree : ∀ y ∈ ys, y.connected = false) : Wired (ys ++ xs) cs where
  joined := h.joined.mono fun _ hx => List.mem_append_right _ hx
  apart := h.apart
  marked x hx := by
    rcases List.mem_append.1 hx with hx | hx
    · simp only [hfree x hx, Bool.false_eq_true, false_iff, not_exists, not_and]
      intro c hc ht
      obtain ⟨y, hy, hyx⟩ := h.joined.based c hc _ ht
      exact hnew x hx y hy hyx
    · exact h.marked x hx

/-- Connectors that no connection touches may go. -/
theorem Wired.remove (h : Wired (ys ++ xs) cs)
    (hfree : ∀ y ∈ ys, ∀ c ∈ cs, c.touches y.id = false) : Wired xs cs where
  joined c hc := by
    obtain ⟨⟨x, hx, hxs, hxf⟩, y, hy, hyt, hyf⟩ := h.joined c hc
    refine ⟨⟨x, (List.mem_append.1 hx).resolve_left fun hx => ?_, hxs, hxf⟩,
      y, (List.mem_append.1 hy).resolve_left fun hy => ?_, hyt, hyf⟩
    · have := hfree x hx c hc
      simp [Connection.touches, hxs] at this
    · have := hfree y hy c hc
      simp [Connection.touches, hyt] at this
  apart := h.apart
  marked x hx := h.marked x (List.mem_append_right _ hx)

/-- Some connectors may be replaced by one that is unmarked exactly if nothing touches
    that one and if each that was marked has a double among those that stay. -/
theorem based_marked_cons_iff {x : Connector} (hb : Based (ys ++ xs) cs)
    (hm : Marked (ys ++ xs) cs) (hx : x.connected = false) :
    (Based (x :: xs) cs ∧ Marked (x :: xs) cs) ↔
      (∀ c ∈ cs, c.touches x.id = false) ∧
      ∀ y ∈ ys, y.connected = true → ∃ z ∈ xs, z.id = y.id := by
  constructor
  · rintro ⟨hb', hm'⟩
    have hfree : ∀ c ∈ cs, c.touches x.id ≠ true := by
      intro c hc ht
      have := (hm' x List.mem_cons_self).2 ⟨c, hc, ht⟩
      simp [hx] at this
    refine ⟨by simpa using hfree, fun y hy hy' => ?_⟩
    obtain ⟨c, hc, ht⟩ := (hm y (List.mem_append_left _ hy)).1 hy'
    obtain ⟨z, hz, hzy⟩ := hb' c hc y.id ht
    rcases List.mem_cons.1 hz with rfl | hz
    · exact absurd (hzy ▸ ht) (hfree c hc)
    · exact ⟨z, hz, hzy⟩
  · rintro ⟨hfree, hdouble⟩
    refine ⟨fun c hc id ht => ?_, fun z hz => ?_⟩
    · obtain ⟨y, hy, rfl⟩ := hb c hc id ht
      rcases List.mem_append.1 hy with hys | hys
      · obtain ⟨z, hz, hzy⟩ := hdouble y hys ((hm y hy).2 ⟨c, hc, ht⟩)
        exact ⟨z, List.mem_cons_of_mem _ hz, hzy⟩
      · exact ⟨y, List.mem_cons_of_mem _ hys, rfl⟩
    · rcases List.mem_cons.1 hz with rfl | hz
      · simpa [hx] using hfree
      · exact hm z (List.mem_append_right _ hz)

/-- An unmarked output and an unmarked input may be connected. -/
theorem Wired.connect (h : Wired xs cs) {x y : Connector} (hx : x ∈ xs) (hy : y ∈ xs)
    (hxf : x.flow = .output) (hyf : y.flow = .input) (hx' : x.connected = false)
    (hy' : y.connected = false) :
    Wired ((xs.map (Connector.markedAs x.id true)).map (Connector.markedAs y.id true))
      (cs ++ [⟨x.id, y.id⟩]) where
  joined c hc := by
    rcases List.mem_append.1 hc with hc | hc
    · exact ((h.joined.markedAs x.id true).markedAs y.id true) c hc
    · obtain rfl := List.mem_singleton.1 hc
      exact ⟨⟨_, List.mem_map_of_mem (List.mem_map_of_mem hx), by simp, by simpa using hxf⟩,
        _, List.mem_map_of_mem (List.mem_map_of_mem hy), by simp, by simpa using hyf⟩
  apart := by
    have hfree : ∀ z ∈ xs, z.connected = false → ∀ c ∈ cs, c.touches z.id ≠ true := by
      intro z hz hz' c hc ht
      have := (h.marked z hz).2 ⟨c, hc, ht⟩
      simp [hz'] at this
    refine List.pairwise_append.2 ⟨h.apart, List.pairwise_singleton _ _, fun c hc d hd => ?_⟩
    obtain rfl := List.mem_singleton.1 hd
    rintro id ⟨ht, ht'⟩
    rcases Connection.touches_iff.1 ht' with rfl | rfl
    · exact hfree x hx hx' c hc ht
    · exact hfree y hy hy' c hc ht
  marked z hz := by
    simp only [List.map_map, List.mem_map, Function.comp_apply] at hz
    obtain ⟨z, hz, rfl⟩ := hz
    simp only [Connector.id_markedAs, Connector.connected_markedAs, List.mem_append,
      List.mem_singleton, or_and_right, exists_or, exists_eq_left, Connection.touches_iff]
    have hm := h.marked z hz
    simp only [Connection.touches_iff] at hm
    by_cases hzy : z.id = y.id
    · simp [hzy]
    · by_cases hzx : z.id = x.id
      · simp [hzx]
      · simp [hzx, hzy, Ne.symm hzx, Ne.symm hzy, hm]

/-- A connection may be undone, if its ends are marked anew. -/
theorem Wired.release {before after : List Connection} {c : Connection}
    (h : Wired xs (before ++ c :: after)) :
    Wired ((xs.map (Connector.markedAs c.source
        ((before ++ after).any fun d => d.touches c.source))).map
      (Connector.markedAs c.target ((before ++ after).any fun d => d.touches c.target)))
      (before ++ after) where
  joined := by
    refine Joined.markedAs (Joined.markedAs (fun d hd => h.joined d ?_) _ _) _ _
    exact (List.Sublist.append_left (List.sublist_cons_self _ _) _).subset hd
  apart := h.apart.sublist (List.Sublist.append_left (List.sublist_cons_self _ _) _)
  marked z hz := by
    simp only [List.map_map, List.mem_map, Function.comp_apply] at hz
    obtain ⟨z, hz, rfl⟩ := hz
    simp only [Connector.id_markedAs, Connector.connected_markedAs]
    by_cases hzt : z.id = c.target
    · rw [if_pos hzt, List.any_eq_true, hzt]
    · rw [if_neg hzt]
      by_cases hzs : z.id = c.source
      · rw [if_pos hzs, List.any_eq_true, hzs]
      · rw [if_neg hzs, h.marked z hz]
        -- a connector other than the two ends is touched by the same connections
        have hc : c.touches z.id = false := by
          simp [Connection.touches, Ne.symm hzs, Ne.symm hzt]
        simp [or_and_right, exists_or, hc]

end

/-! ## The connectors of a scene -/

/-- Where identities are distinct, the first connector of one is the only one. -/
theorem modifyFirst_markedAs {xs : List Connector} (h : (xs.map Connector.id).Nodup)
    (b : Bool) (c : ConnectorId) :
    modifyFirst (fun x => decide (x.id = c)) (fun x => { x with connected := b }) xs =
      xs.map (Connector.markedAs c b) := by
  induction xs with
  | nil => rfl
  | cons x xs ih =>
    obtain ⟨hx, hxs⟩ := List.nodup_cons.1 h
    rw [modifyFirst, List.map_cons, Connector.markedAs]
    by_cases hc : x.id = c
    · have hrest : ∀ y ∈ xs, y.markedAs c b = y := by
        intro y hy
        rw [Connector.markedAs, if_neg]
        rintro rfl
        exact hx (hc ▸ List.mem_map_of_mem hy)
      simp [hc, List.map_congr_left hrest]
    · simp [hc, ih hxs]

theorem map_markedAs_eq_self {c : ConnectorId} (b : Bool) (xs : List Connector)
    (h : ∀ x ∈ xs, x.id ≠ c) : xs.map (Connector.markedAs c b) = xs := by
  refine (List.map_congr_left fun x hx => ?_).trans (List.map_id xs)
  rw [Connector.markedAs, if_neg (h x hx), id]

theorem Node.owns_iff {n : Node} {c : ConnectorId} :
    n.owns c = true ↔ ∃ x ∈ n.connectors, x.id = c := by
  simp [owns]

theorem Node.connectors_mark {n : Node} (h : (n.connectors.map Connector.id).Nodup)
    (b : Bool) (c : ConnectorId) :
    (n.mark b c).connectors = n.connectors.map (Connector.markedAs c b) := by
  simp only [connectors, List.map_append] at h ⊢
  obtain ⟨hi, ho, hio⟩ := List.nodup_append.1 h
  unfold mark
  dsimp only
  split
  · rename_i hany
    -- the connector is an input, so no output has its identity
    obtain ⟨x, hx, hxc⟩ : ∃ x ∈ n.inputs, x.id = c := by simpa using hany
    rw [modifyFirst_markedAs hi, map_markedAs_eq_self b n.outputs]
    rintro y hy rfl
    exact hio _ (List.mem_map_of_mem hx) _ (List.mem_map_of_mem hy) hxc
  · rename_i hany
    rw [modifyFirst_markedAs ho, map_markedAs_eq_self b n.inputs]
    simpa using hany

namespace Scene

theorem connectors_modifyNode {s : Scene} {id : NodeId} {f : Node → Node}
    (h : ∀ n, (f n).connectors = n.connectors) :
    (s.modifyNode id f).connectors = s.connectors := by
  have := map_modifyFirst (p := fun n => decide (n.id = id)) h s.nodes
  simp only [connectors, List.flatMap_def, modifyNode, this]

theorem flatMap_connectors_mark {ns : List Node}
    (h : ((ns.flatMap Node.connectors).map Connector.id).Nodup) (c : ConnectorId) (b : Bool) :
    (modifyFirst (fun n => n.owns c) (Node.mark b c) ns).flatMap Node.connectors =
      (ns.flatMap Node.connectors).map (Connector.markedAs c b) := by
  induction ns with
  | nil => rfl
  | cons n ns ih =>
    rw [List.flatMap_cons, List.map_append] at h
    obtain ⟨hn, hns, hdis⟩ := List.nodup_append.1 h
    rw [modifyFirst, List.flatMap_cons, List.map_append]
    split
    · rename_i ho
      -- the node owns the connector, so no later one does
      obtain ⟨x, hx, rfl⟩ := Node.owns_iff.1 ho
      rw [List.flatMap_cons, Node.connectors_mark hn, map_markedAs_eq_self b (ns.flatMap _)]
      intro y hy hyx
      exact hdis _ (List.mem_map_of_mem hx) _ (List.mem_map_of_mem hy) hyx.symm
    · rename_i ho
      rw [List.flatMap_cons, ih hns, map_markedAs_eq_self b n.connectors]
      exact fun x hx hxc => ho (Node.owns_iff.2 ⟨x, hx, hxc⟩)

theorem connectors_mark {s : Scene} (h : (s.connectors.map Connector.id).Nodup)
    (c : ConnectorId) (b : Bool) :
    (s.mark c b).connectors = s.connectors.map (Connector.markedAs c b) :=
  flatMap_connectors_mark h c b

theorem nodup_map_markedAs {xs : List Connector} (h : (xs.map Connector.id).Nodup)
    (c : ConnectorId) (b : Bool) : ((xs.map (Connector.markedAs c b)).map Connector.id).Nodup := by
  rw [List.map_map]
  rwa [show Connector.id ∘ Connector.markedAs c b = Connector.id from
    funext fun x => x.id_markedAs c b]

theorem connectors_mark_mark {s : Scene} (h : (s.connectors.map Connector.id).Nodup)
    (c d : ConnectorId) (b b' : Bool) :
    ((s.mark c b).mark d b').connectors =
      (s.connectors.map (Connector.markedAs c b)).map (Connector.markedAs d b') := by
  have hc := connectors_mark h c b
  rw [connectors_mark (hc ▸ nodup_map_markedAs h c b), hc]

theorem connectors_refer (source : ConnectorId) (next : Option NodeId) (n : Node) :
    (n.refer source next).connectors = n.connectors := by
  unfold Node.refer
  split <;> rfl

theorem connectors_join {s : Scene} (h : (s.connectors.map Connector.id).Nodup)
    (source : ConnectorId) (sourceNode : NodeId) (target : ConnectorId) (targetNode : NodeId) :
    (s.join source sourceNode target targetNode).connectors =
      (s.connectors.map (Connector.markedAs source true)).map
        (Connector.markedAs target true) := by
  rw [← connectors_mark_mark h]
  change ((((s.mark source true).mark target true).modifyNode targetNode _).modifyNode
    sourceNode _).connectors = _
  rw [connectors_modifyNode fun n => connectors_refer _ _ n, connectors_modifyNode]
  exact fun _ => rfl

theorem connectors_release {s : Scene} (h : (s.connectors.map Connector.id).Nodup)
    (c : Connection) : (s.release c).connectors =
      (s.connectors.map (Connector.markedAs c.source
        (s.connections.any fun d => d.touches c.source))).map
      (Connector.markedAs c.target (s.connections.any fun d => d.touches c.target)) := by
  -- the references that are forgotten first are no part of the connectors
  have key : ∀ t : Scene, t.connectors = s.connectors → t.connections = s.connections →
      ((t.refresh c.source).refresh c.target).connectors =
        (s.connectors.map (Connector.markedAs c.source
          (s.connections.any fun d => d.touches c.source))).map
        (Connector.markedAs c.target (s.connections.any fun d => d.touches c.target)) := by
    intro t ht hc
    rw [refresh, refresh, connections_mark, connectors_mark_mark (ht ▸ h), ht, hc]
  unfold release
  dsimp only
  split
  · split
    · refine key _ ?_ rfl
      rw [connectors_modifyNode fun n => connectors_refer _ _ n, connectors_modifyNode]
      exact fun _ => rfl
    · exact key _ (connectors_modifyNode fun n => connectors_refer _ _ n) rfl
  · split
    · exact key _ (connectors_modifyNode fun _ => rfl) rfl
    · exact key _ rfl rfl

/-- Undoing a connection keeps a scene wired. -/
theorem Wired.disconnect? {s s' : Scene} {id : ConnectorId} {c : Connection}
    (hn : (s.connectors.map Connector.id).Nodup) (hw : Wired s.connectors s.connections)
    (h : s.disconnect? id = some (s', c)) : Wired s'.connectors s'.connections := by
  obtain ⟨before, after, heq, -, -, rfl⟩ := disconnect?_eq_some h
  rw [heq] at hw
  rw [connectors_release (s := { s with connections := before ++ after }) hn,
    connections_release]
  exact hw.release

end Scene

end VisualNovel
