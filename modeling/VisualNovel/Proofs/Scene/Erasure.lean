/-
  Nodes that are taken away.  All connections of such a node are undone first, and its
  neighbours are told; that is enough, because nodes name nobody but neighbours.

  * `Node.Defers`: a node with choices leaves it to them to say what comes next;
  * `Scene.Frees.nodes`: node by node, what is left where connections were undone;
  * `Scene.Edited.exists_of_names`: the nodes that are named are there;
  * `Scene.Erased`: what is left of a scene without one of its nodes;
  * `Scene.Edited.removeNode_erases`: a node that is taken away leaves no trace.
-/
import Mathlib.Data.List.Forall2
import VisualNovel.Proofs.Scene.Successor

namespace VisualNovel

section
variable {α : Type} {p : α → Bool} {as : List α}

theorem forall_modifyFirst {P : α → Prop} {f : α → α} (h : ∀ a ∈ as, P a)
    (hf : ∀ a, P a → P (f a)) : ∀ a ∈ modifyFirst p f as, P a := by
  induction as with
  | nil => exact h
  | cons a as ih =>
    obtain ⟨ha, has⟩ := List.forall_mem_cons.1 h
    rw [modifyFirst]
    split
    · exact List.forall_mem_cons.2 ⟨hf a ha, has⟩
    · exact List.forall_mem_cons.2 ⟨ha, ih has⟩

/-- Lists with one list of images agree item by item. -/
theorem forall₂_of_map_eq {β γ : Type} {f : α → γ} {g : β → γ} {R : α → β → Prop} {bs : List β}
    (h : as.map f = bs.map g) (hall : ∀ a ∈ as, ∀ b ∈ bs, f a = g b → R a b) :
    List.Forall₂ R as bs := by
  rw [← List.forall₂_eq_eq_eq, List.forall₂_map_left_iff, List.forall₂_map_right_iff,
    List.forall₂_iff_zip] at h
  refine List.forall₂_iff_zip.2 ⟨h.1, fun {a b} hab => ?_⟩
  obtain ⟨ha, hb⟩ := List.of_mem_zip hab
  exact hall a ha b hb (h.2 hab)

/-- Where no two items satisfy a condition, the first that does is all that do. -/
theorem eraseP_eq_filter (h : as.Pairwise fun a b => ¬(p a = true ∧ p b = true)) :
    as.eraseP p = as.filter fun a => !p a := by
  induction as with
  | nil => rfl
  | cons a as ih =>
    obtain ⟨hfirst, hrest⟩ := List.pairwise_cons.1 h
    cases ha : p a with
    | true =>
      rw [List.eraseP_cons_of_pos ha, List.filter_cons_of_neg (by simp [ha]), eq_comm,
        List.filter_eq_self]
      intro b hb
      simpa using fun hpb => hfirst b hb ⟨ha, hpb⟩
    | false =>
      rw [List.eraseP_cons_of_neg (by simp [ha]), List.filter_cons_of_pos (by simp [ha]), ih hrest]

end

/-! ## Who says what comes next -/

namespace Node

/-- A node with choices leaves it to them to say what comes next. -/
def Defers (n : Node) : Prop := ∀ choices, n.content = .choice choices → n.next = none

theorem Defers.mark {n : Node} (h : n.Defers) (connected : Bool) (x : ConnectorId) :
    (n.mark connected x).Defers := by
  unfold Node.mark
  dsimp only
  split
  · exact h
  · exact h

/-- What comes after one of its own outputs is no matter of the node, but of its choices. -/
theorem Defers.refer {n : Node} (h : n.Defers) {x : ConnectorId} {next : Option NodeId}
    (hx : x ∈ n.outputs.map Connector.id ∨ next = none) : (n.refer x next).Defers := by
  unfold Node.refer
  split
  · rename_i hcontent _
    exact fun _ _ => h _ hcontent
  · rename_i hother
    intro choices hcontent
    rcases hx with hx | hnext
    · obtain ⟨i, hi⟩ := findIdx?_of_mem hx
      exact absurd hi (hother choices i hcontent)
    · exact hnext

theorem Defers.told {n : Node} (h : n.Defers) (c : Connection) (source target : Option NodeId) :
    (n.told c source target).Defers := by
  have hheard : (n.heard c source).Defers ∧ (n.heard c source).outputs = n.outputs := by
    unfold heard
    split
    · exact ⟨h, rfl⟩
    · exact ⟨h, rfl⟩
  unfold Node.told
  split
  · rename_i hsends
    exact hheard.1.refer (.inl (by rwa [hheard.2]))
  · exact hheard.1

end Node

namespace Scene

/-- All nodes with choices leave it to them to say what comes next. -/
def Defers (s : Scene) : Prop := ∀ n ∈ s.nodes, n.Defers

namespace Defers
variable {s : Scene} (h : s.Defers)
include h

theorem mark (x : ConnectorId) (connected : Bool) : (s.mark x connected).Defers :=
  forall_modifyFirst h fun _ hn => hn.mark connected x

theorem modifyNode (id : NodeId) {f : Node → Node} (hf : ∀ n : Node, n.Defers → (f n).Defers) :
    (s.modifyNode id f).Defers :=
  forall_modifyFirst h hf

theorem addNode {n : Node} (hn : n.Defers) : (s.addNode n).Defers :=
  List.forall_mem_append.2 ⟨h, List.forall_mem_singleton.2 hn⟩

theorem release (c : Connection) : (s.release c).Defers := by
  have hrefer : ∀ t : Scene, t.Defers → ∀ id, (t.modifyNode id (Node.refer c.source none)).Defers :=
    fun t ht id => ht.modifyNode id fun n hn => hn.refer (.inr rfl)
  unfold Scene.release
  refine Defers.mark (Defers.mark ?_ _ _) _ _
  split
  · refine hrefer _ ?_ _
    split
    · exact h.modifyNode _ fun n hn => hn
    · exact h
  · split
    · exact h.modifyNode _ fun n hn => hn
    · exact h

theorem disconnect? {s' : Scene} {id : ConnectorId} {c : Connection}
    (hd : s.disconnect? id = some (s', c)) : s'.Defers := by
  obtain ⟨before, after, -, -, -, rfl⟩ := disconnect?_eq_some hd
  exact Defers.release (s := { s with connections := before ++ after }) h c

theorem disconnectAll (id : ConnectorId) : (s.disconnectAll id).Defers :=
  disconnectAll_induction (P := Defers) (fun hd h => h.disconnect? hd) s h

theorem freed : ∀ c, (s.freed c).Defers
  | none => h
  | some c => h.disconnectAll c

theorem connect (hs : s.Intact) {a b : ConnectorId} {s' : Scene} {c : Connection}
    (hc : s.connect a b = .ok (s', c)) : s'.Defers := by
  obtain ⟨-, m, hm, k, hk, hsends, hreceives, rfl⟩ := hs.sent_of_connect hc
  intro n hn
  rw [nodes_join hs.isDistinct hm hk hsends hreceives] at hn
  obtain ⟨l, hl, rfl⟩ := List.mem_map.1 hn
  exact Node.Defers.told ((h.mark _ _).mark _ _ l hl) c _ _

theorem removeNode {id : NodeId} {s' : Scene} {n : Node} (hr : s.removeNode id = .ok (s', n)) :
    s'.Defers := by
  obtain ⟨m, t, before, after, -, rfl, -, hnodes, rfl⟩ := removeNode_eq_ok hr
  have hall := detach_induction (P := Defers) (fun hd ht => ht.disconnect? hd) m.connectors s h
  unfold Defers at hall
  rw [hnodes, List.forall_mem_append, List.forall_mem_cons] at hall
  exact List.forall_mem_append.2 ⟨hall.1, hall.2.2⟩

theorem addChoice {id : NodeId} {text : String} {connector : ConnectorId} {s' : Scene} {i : Nat}
    (hr : s.addChoice id text connector = .ok (s', i)) : s'.Defers := by
  obtain ⟨n, choices, hn, hcontent, rfl⟩ := addChoice_eq_ok hr
  obtain ⟨-, before, after, hs, hmod, -⟩ := nodes_modifyNode hn
  unfold Defers at h ⊢
  rw [hs, List.forall_mem_append, List.forall_mem_cons] at h
  rw [hmod, List.forall_mem_append, List.forall_mem_cons]
  exact ⟨h.1, fun _ _ => h.2.1 choices hcontent, h.2.2⟩

/-- Whatever is asked of a scene, its choices say what comes next. -/
theorem edit (hs : s.Intact) (e : Edit) : (s.edit e).Defers := by
  cases e with
  | addNode content id connector => exact h.addNode fun _ _ => rfl
  | addCombiner inputs id connector => exact h.addNode fun _ _ => rfl
  | connect a b => exact settled_map_induction h fun s' c hr => h.connect hs hr
  | disconnect c =>
    change Defers (((s.disconnect? c).map Prod.fst).getD s)
    cases hd : s.disconnect? c with
    | none => exact h
    | some r => exact h.disconnect? hd
  | removeNode id => exact settled_map_induction h fun s' n hr => h.removeNode hr
  | setSwitch id switch connector =>
    refine settled_induction h fun s' hr => ?_
    obtain ⟨-, -, -, -, -, rfl⟩ := setSwitch_eq_ok hr
    exact h.modifyNode id fun n _ choices hcontent => by cases hcontent
  | addChoice id text connector => exact settled_map_induction h fun s' i hr => h.addChoice hr
  | removeChoice id index =>
    refine settled_induction h fun s' hr => ?_
    obtain ⟨n, -, c, -, -, -, rfl⟩ := removeChoice_eq_ok hr
    refine (h.freed _).modifyNode id fun m hm choices hcontent => ?_
    cases hold : m.content with
    | choice others => exact hm others hold
    | _ =>
      rw [Node.without, hold] at hcontent
      cases hcontent
  | addInput id connector =>
    refine settled_induction h fun s' hr => ?_
    obtain ⟨-, -, -, rfl⟩ := addInput_eq_ok hr
    exact h.modifyNode id fun n hn => hn
  | removeInput id =>
    refine settled_induction h fun s' hr => ?_
    obtain ⟨n, -, -, rfl⟩ := removeInput_eq_ok hr
    exact (h.freed _).modifyNode id fun m hm => hm

end Defers

theorem Edited.defers {s : Scene} (h : s.Edited Sound) : s.Defers := by
  induction h with
  | empty name => exact List.forall_mem_nil _
  | edit hedited _ ih => exact ih.edit hedited.intact _

end Scene

/-! ## What is left where connections were undone -/

/-- The connector after connections of a scene were undone. -/
def Connector.freed (s t : Scene) (x : Connector) : Connector :=
  if ∃ c ∈ s.connections, c.touches x.id = true ∧ c ∉ t.connections then
    { x with connected := false }
  else x

/-- What a node is after connections of its scene were undone: it has forgotten neighbours by
    those connections, its connectors at them are unmarked, and it is the same otherwise. -/
structure Node.Outlives (s t : Scene) (k k' : Node) : Prop where
  shape : k'.shape = k.shape
  inputs : k'.inputs = k.inputs.map (Connector.freed s t)
  outputs : k'.outputs = k.outputs.map (Connector.freed s t)
  references : k'.references = k.references.map (Reference.forgets s t)

/-- Nodes of one shape have as many references. -/
theorem Node.length_references_of_shape {m n : Node} (h : m.shape = n.shape) :
    m.references.length = n.references.length := by
  by_cases hc : ∃ choices, n.content = .choice choices
  · obtain ⟨choices, hc⟩ := hc
    obtain ⟨others, hothers, houtputs⟩ := choice_of_shape h hc
    have hlength := congrArg List.length houtputs
    rw [List.length_map, List.length_map] at hlength
    simp [references, ways_of_choice hc, ways_of_choice hothers, hlength]
  · have hm : ∀ others, m.content ≠ .choice others := by
      intro others hothers
      obtain ⟨choices, hchoices, -⟩ := choice_of_shape h.symm hothers
      exact hc ⟨choices, hchoices⟩
    have hn : ∀ choices, n.content ≠ .choice choices := fun choices h => hc ⟨choices, h⟩
    simp [references, ways_of_other hm, ways_of_other hn]

namespace Scene

section
variable {s t : Scene} (h : s.Frees t) (hs : s.Intact) (ht : t.Intact)
include h hs ht

/-- Connectors are marked as before, but for those that have lost their connection. -/
theorem Frees.connector {x y : Connector} (hx : x ∈ s.connectors) (hy : y ∈ t.connectors)
    (hxy : y.unmarked = x.unmarked) : y = x.freed s t := by
  have hid : y.id = x.id := by
    change y.unmarked.id = x.unmarked.id
    rw [hxy]
  have hy' := ht.wired.marked y hy
  rw [hid] at hy'
  have hrest : ∀ b, (y.connected = true ↔ b = true) → y = { x with connected := b } := by
    intro b hb
    have hmark : y = { y.unmarked with connected := y.connected } := rfl
    rw [hmark, hxy, Bool.eq_iff_iff.2 hb]
    rfl
  unfold Connector.freed
  split
  · rename_i hlost
    obtain ⟨c, hc, htouches, hgone⟩ := hlost
    refine hrest false (hy'.trans (iff_of_false ?_ Bool.false_ne_true))
    rintro ⟨d, hd, hdt⟩
    -- the one connection at the connector is gone
    exact hgone (hs.wired.apart.eq_of_touches hc (h.subset hd) htouches hdt ▸ hd)
  · rename_i hkept
    refine hrest x.connected (hy'.trans (.trans ?_ (hs.wired.marked x hx).symm))
    constructor
    · exact fun ⟨d, hd, hdt⟩ => ⟨d, h.subset hd, hdt⟩
    · rintro ⟨c, hc, htouches⟩
      refine ⟨c, ?_, htouches⟩
      by_contra hgone
      exact hkept ⟨c, hc, htouches, hgone⟩

/-- The same for the connectors in a row. -/
theorem Frees.row {xs ys : List Connector} (hxs : ∀ x ∈ xs, x ∈ s.connectors)
    (hys : ∀ y ∈ ys, y ∈ t.connectors)
    (hxy : ys.map Connector.unmarked = xs.map Connector.unmarked) :
    ys = xs.map (Connector.freed s t) := by
  rw [← List.forall₂_eq_eq_eq, List.forall₂_map_right_iff]
  exact forall₂_of_map_eq hxy fun y hy x hx => h.connector hs ht (hxs x hx) (hys y hy)

/-- Node by node, what is left. -/
theorem Frees.nodes : List.Forall₂ (Node.Outlives s t) s.nodes t.nodes := by
  have hshapes : List.Forall₂ (fun k k' : Node => k'.shape = k.shape) s.nodes t.nodes :=
    forall₂_of_map_eq h.shapes fun _ _ _ _ => Eq.symm
  have hreferences : List.Forall₂ (fun k k' : Node =>
      k'.references = k.references.map (Reference.forgets s t)) s.nodes t.nodes := by
    have hflat := h.references
    rw [Scene.references, Scene.references, List.flatMap_def, List.flatMap_def, List.map_flatten,
      List.map_map] at hflat
    have hlengths : (s.nodes.map ((List.map fun e => (e.1, Reference.forgets s t e.2)) ∘
          fun k => k.references.map fun r => (k.id, r))).map List.length =
        (t.nodes.map fun k => k.references.map fun r => (k.id, r)).map List.length := by
      rw [List.map_map, List.map_map, ← List.forall₂_eq_eq_eq, List.forall₂_map_left_iff,
        List.forall₂_map_right_iff]
      refine hshapes.imp fun k k' hshape => ?_
      simp [Node.length_references_of_shape hshape]
    have hrows := List.eq_iff_flatten_eq.2 ⟨hflat.symm, hlengths⟩
    refine forall₂_of_map_eq hrows fun k _ k' _ heq => ?_
    simpa [Function.comp_def] using (congrArg (List.map Prod.snd) heq).symm
  rw [List.forall₂_iff_zip] at hshapes hreferences ⊢
  refine ⟨hshapes.1, fun {k k'} hkk => ?_⟩
  obtain ⟨hk, hk'⟩ := List.of_mem_zip hkk
  have hshape := hshapes.2 hkk
  refine ⟨hshape, ?_, ?_, hreferences.2 hkk⟩
  · refine h.row hs ht (fun x hx => ?_) (fun y hy => ?_) (congrArg Node.inputs hshape)
    · exact mem_connectors.2 ⟨k, hk, List.mem_append_left _ hx⟩
    · exact mem_connectors.2 ⟨k', hk', List.mem_append_left _ hy⟩
  · refine h.row hs ht (fun x hx => ?_) (fun y hy => ?_) (congrArg Node.outputs hshape)
    · exact mem_connectors.2 ⟨k, hk, List.mem_append_right _ hx⟩
    · exact mem_connectors.2 ⟨k', hk', List.mem_append_right _ hy⟩

end

/-! ## Nodes that are taken away -/

theorem bare_foldl (xs : List Connector) (s : Scene) :
    (xs.foldl (fun s x => s.disconnectAll x.id) s).bare = s.bare := by
  refine detach_induction (P := fun t => t.bare = s.bare) (fun hd ht => ?_) xs s rfl
  obtain ⟨before, after, -, -, -, rfl⟩ := disconnect?_eq_some hd
  rw [bare_release]
  exact ht

end Scene

/-- A node names another one as its neighbour, or as where one of its choices leads. -/
def Node.Names (n : Node) (id : NodeId) : Prop :=
  n.previous = some id ∨ n.next = some id ∨
    ∃ choices, n.content = .choice choices ∧ ∃ c ∈ choices, c.next = some id

namespace Scene

/-- In a scene that comes of editing, all who are named are there. -/
theorem Edited.exists_of_names {s : Scene} (h : s.Edited Plain) {k : Node} (hk : k ∈ s.nodes)
    {id : NodeId} (hid : k.Names id) : ∃ m ∈ s.nodes, m.id = id := by
  have hthere : ∀ r ∈ k.references, r.node = some id → ∃ m ∈ s.nodes, m.id = id := by
    intro r hr hnode
    obtain ⟨c, -, m, hm, hmid, -⟩ :=
      (h.open_truthful (mem_references.2 ⟨k, hk, rfl, hr⟩)).2 id hnode
    exact ⟨m, hm, hmid⟩
  rcases hid with hprevious | hnext | ⟨choices, hcontent, c, hc, hnext⟩
  · exact hthere _ List.mem_cons_self hprevious
  · by_cases hcontent : ∃ choices, k.content = .choice choices
    · obtain ⟨choices, hcontent⟩ := hcontent
      have hnone := (h.mono fun _ _ h => h.1).defers k hk choices hcontent
      cases hnone.symm.trans hnext
    · refine hthere ⟨.forth, k.next, k.outputs.map Connector.id⟩ (List.mem_cons_of_mem _ ?_) hnext
      rw [Node.ways_of_other fun choices h => hcontent ⟨choices, h⟩]
      exact List.mem_singleton.2 rfl
  · refine hthere ⟨.way, c.next, (k.output? c.output).toList⟩ (List.mem_cons_of_mem _ ?_) hnext
    rw [Node.ways_of_choice hcontent]
    exact List.mem_map_of_mem hc

/-- What is left of a scene without one of its nodes. -/
structure Erased (s : Scene) (n : Node) (s' : Scene) : Prop where
  untouched : ∀ c ∈ s'.connections, ∀ x ∈ n.connectors, c.touches x.id = false
  unnamed : ∀ k ∈ s'.nodes, ¬k.Names n.id
  /-- The connections between other nodes are kept in order. -/
  connections : s'.connections =
    s.connections.filter fun c => n.connectors.all fun x => !c.touches x.id
  /-- Other nodes are kept in order, but for what joined them to the one that is gone. -/
  nodes : List.Forall₂ (Node.Outlives s s') (s.nodes.filter fun k => !decide (k.id = n.id)) s'.nodes
  rest : s'.bare = s.bare

/-- A node of an intact scene is taken away by filtering, once it is detached.  None of its
    connectors is marked then. -/
theorem Intact.exists_removeNode {s : Scene} (h : s.Intact) {n : Node} (hn : n ∈ s.nodes) :
    ∃ t m, t = n.connectors.foldl (fun s x => s.disconnectAll x.id) s ∧ m.shape = n.shape ∧
      (∀ x ∈ m.connectors, x.connected = false) ∧ s.removeNode n.id =
        .ok ({ t with nodes := t.nodes.filter fun k => !decide (k.id = n.id) }, m) := by
  have hn' := h.isDistinct.node?_eq hn
  have ht := h.foldl n.connectors
  obtain ⟨m, hm, hshape⟩ := node?_congr (Intact.shapes_foldl n.connectors s).symm hn'
  refine ⟨_, m, rfl, hshape, fun x hx => ?_, ?_⟩
  · refine Bool.eq_false_iff.2 fun hconnected => ?_
    obtain ⟨c, hc, htouches⟩ := (ht.wired.marked x
      (mem_connectors.2 ⟨m, List.mem_of_find?_eq_some hm, hx⟩)).1 hconnected
    cases (Intact.untouched_foldl hn' hm hx hc).symm.trans htouches
  · rw [← eraseP_eq_filter, Scene.removeNode, hn']
    · dsimp only
      rw [hm]
    · refine (List.pairwise_map.1 ht.isDistinct.nodes).imp fun hne => ?_
      simp only [decide_eq_true_eq]
      exact fun h => hne (h.1.trans h.2.symm)

/-- A node that is taken away, from a scene that comes of editing, leaves no trace.  It comes
    back as it was, with no connector marked.  No connection is left that touches it, and no
    node that names it; everything else is kept, together with the marks of the connectors
    that were not joined to it. -/
theorem Edited.removeNode_erases {s : Scene} (h : s.Edited Plain) {n : Node} (hn : n ∈ s.nodes) :
    ∃ s' m, s.removeNode n.id = .ok (s', m) ∧ m.id = n.id ∧ m.shape = n.shape ∧
      (∀ x ∈ m.connectors, x.connected = false) ∧ Erased s n s' := by
  have hs := (h.mono fun _ _ h => h.1).intact
  obtain ⟨t, m, rfl, hshape, hmark, hremoved⟩ := hs.exists_removeNode hn
  have hconnections := Intact.connections_foldl n.connectors s
  refine ⟨_, m, hremoved, Node.id_of_shape hshape, hshape, hmark, {
    untouched := fun c hc x hx => ?_
    unnamed := fun k hk hnames => ?_
    connections := hconnections
    nodes := ?_
    rest := bare_foldl n.connectors s }⟩
  · rw [hconnections] at hc
    simpa using List.all_eq_true.1 (List.mem_filter.1 hc).2 x hx
  · -- the scene comes of editing still, so that whoever is named is there
    have hedited := h.edit (e := .removeNode n.id) ⟨⟨⟨.nil, List.forall_mem_nil _⟩, trivial⟩,
      trivial⟩
    rw [Scene.edit, hremoved] at hedited
    obtain ⟨l, hl, hlid⟩ := hedited.exists_of_names hk hnames
    simpa [hlid] using (List.mem_filter.1 hl).2
  · have hall := (hs.frees_foldl h.branched n.connectors).nodes hs (hs.foldl n.connectors)
    refine List.rel_filter (fun {k k'} hkk => ?_)
      (hall.imp fun k k' hkk => ⟨hkk.shape, hkk.inputs, hkk.outputs, hkk.references⟩)
    dsimp only
    rw [Node.id_of_shape hkk.shape]

/-- A combiner of two ways, a choice and an exit. -/
def islands : Scene :=
  ((({ name := "Roundabout" } : Scene).edit (.addCombiner 2 ⟨⟨0⟩⟩ fun i =>
    ⟨⟨.ofNat 128 (1 + i)⟩⟩)).edit (.addNode (.choice [{ text := "Again" }, { text := "Out" }]) ⟨⟨4⟩⟩
    fun i => ⟨⟨.ofNat 128 (5 + i)⟩⟩)).edit (.addNode (.state .exit) ⟨⟨8⟩⟩ fun _ => ⟨⟨9⟩⟩)

/-- From the combiner one comes to the choice, and from there back or to the exit. -/
def roundabout : Scene :=
  ((islands.edit (.connect ⟨⟨2⟩⟩ ⟨⟨5⟩⟩)).edit (.connect ⟨⟨6⟩⟩ ⟨⟨3⟩⟩)).edit (.connect ⟨⟨7⟩⟩ ⟨⟨9⟩⟩)

/-- Without the combiner, there is only the way from the choice to the exit. -/
theorem removeNode_erases_roundabout :
    roundabout.Edited Plain ∧ ∃ n ∈ roundabout.nodes, n.id = ⟨⟨0⟩⟩ ∧
      ∃ s' m, roundabout.removeNode ⟨⟨0⟩⟩ = .ok (s', m) ∧
        s'.connections = [⟨⟨⟨7⟩⟩, ⟨⟨9⟩⟩⟩] ∧ ∀ k ∈ s'.nodes, ¬k.Names ⟨⟨0⟩⟩ := by
  have hislands : islands.Edited Plain := by
    refine (((Edited.empty _).edit ⟨⟨?_, trivial⟩, trivial⟩).edit ⟨⟨?_, trivial⟩, rfl⟩).edit
      ⟨⟨?_, trivial⟩, rfl⟩
    all_goals exact ⟨by decide, by decide⟩
  have hconnect : ∀ (s : Scene) (a b : ConnectorId), s.Edited Plain →
      (s.edit (.connect a b)).Edited Plain :=
    fun s a b hs => hs.edit ⟨⟨⟨.nil, List.forall_mem_nil _⟩, trivial⟩, trivial⟩
  have h : roundabout.Edited Plain := hconnect _ _ _ (hconnect _ _ _ (hconnect _ _ _ hislands))
  have hn : roundabout.node? ⟨⟨0⟩⟩ = some _ := rfl
  have hmem := List.mem_of_find?_eq_some hn
  obtain ⟨s', m, hremoved, -, -, -, herased⟩ := h.removeNode_erases hmem
  exact ⟨h, _, hmem, rfl, s', m, hremoved, herased.connections, herased.unnamed⟩

end Scene

end VisualNovel
