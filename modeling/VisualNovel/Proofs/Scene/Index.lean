/-
  What the look-up tables of a scene hold.

  * `ConnectionIndex.node?_ofScene`, `ConnectionIndex.owner?_ofScene`: of several nodes
    with one identity or with one input, the tables know the last;
  * `ConnectionIndex.leaving_ofScene`: the connections that leave a connector, as the
    scene lists them;
  * `ConnectionIndex.follow?_ofScene`, `ConnectionIndex.successor?_ofScene`: an output and a
    node lead to where the first connection leads that leaves them;
  * `ConnectionIndex.mem_of_follow?`, `ConnectionIndex.mem_of_successor?`: what a node
    leads to is a node of the scene.
-/
import VisualNovel.Scene.Index

namespace VisualNovel

section
variable {α κ ν : Type} [BEq κ] [Hashable κ] {k : κ} {p : α → Bool} {v : α → ν}
  {record : Std.HashMap κ ν → α → Std.HashMap κ ν}

/-- If some items record a value under a key, then the last of them counts. -/
theorem getElem?_foldl_record
    (h : ∀ m a, (record m a)[k]? = if p a then some (v a) else m[k]?) (as : List α)
    (m : Std.HashMap κ ν) :
    (as.foldl record m)[k]? = ((as.reverse.find? p).map v).or m[k]? := by
  induction as generalizing m with
  | nil => rfl
  | cons a as ih =>
    rw [List.foldl_cons, ih, h, List.reverse_cons, List.find?_append]
    cases as.reverse.find? p with
    | some b => rfl
    | none =>
      rw [List.find?_singleton]
      split <;> rfl

end

section
variable {α : Type} {as : List α} {p : α × Nat → Bool} {x y : α × Nat}

/-- The first of the numbered items that satisfies a condition is before all others that
    do. -/
theorem find?_zipIdx_le (hx : as.zipIdx.find? p = some x) (hy : y ∈ as.zipIdx)
    (hp : p y = true) : x.2 ≤ y.2 := by
  obtain ⟨-, i, hi, rfl, hbefore⟩ := List.find?_eq_some_iff_getElem.1 hx
  obtain ⟨j, hj, rfl⟩ := List.mem_iff_getElem.1 hy
  simp only [List.getElem_zipIdx, Nat.zero_add]
  refine Nat.le_of_not_lt fun hlt => ?_
  have hnot := hbefore j hlt
  rw [hp] at hnot
  cases hnot

theorem eq_of_mem_zipIdx (hx : x ∈ as.zipIdx) (hy : y ∈ as.zipIdx) (h : x.2 = y.2) : x = y := by
  rw [List.mem_zipIdx_iff_getElem?] at hx hy
  exact Prod.ext (Option.some.inj (by rw [← hx, ← hy, h])) h

end

namespace ConnectionIndex

theorem getElem?_own (input : ConnectorId) (owners : Std.HashMap ConnectorId NodeId) (n : Node) :
    (own owners n)[input]? =
      if n.inputs.any fun c => c.id == input then some n.id else owners[input]? := by
  unfold own
  induction n.inputs generalizing owners with
  | nil => rfl
  | cons c cs ih =>
    rw [List.foldl_cons, ih, Std.HashMap.getElem?_insert, List.any_cons]
    cases cs.any fun c => c.id == input
    · simp
    · simp

theorem owner?_ofScene (s : Scene) (input : ConnectorId) :
    (ofScene s).owner? input =
      (s.nodes.reverse.find? fun n => n.inputs.any fun c => c.id == input).map Node.id := by
  change (s.nodes.foldl own ∅)[input]? = _
  rw [getElem?_foldl_record (getElem?_own input)]
  simp

theorem leaving_ofScene (s : Scene) (source : ConnectorId) :
    (ofScene s).leaving source =
      (s.connections.zipIdx.filter fun x => x.1.source == source).map fun x =>
        ⟨x.2, x.1.target⟩ := by
  have key : ∀ (xs : List (Connection × Nat)) (m : Std.HashMap ConnectorId (List Outgoing)),
      (xs.foldl leave m).getD source [] = m.getD source [] ++
        (xs.filter fun x => x.1.source == source).map fun x => ⟨x.2, x.1.target⟩ := by
    intro xs
    induction xs with
    | nil => simp
    | cons x xs ih =>
      intro m
      rw [List.foldl_cons, ih, leave, Std.HashMap.getD_insert, List.filter_cons]
      by_cases h : x.1.source == source
      · simp [eq_of_beq h]
      · simp [h]
  change (s.connections.zipIdx.foldl leave ∅).getD source [] = _
  rw [key, Std.HashMap.getD_empty, List.nil_append]

theorem node?_ofScene (s : Scene) (id : NodeId) :
    (ofScene s).node? s id = s.nodes.reverse.find? fun n => n.id == id := by
  have hslot : (ofScene s).slots[id]? =
      (s.nodes.zipIdx.reverse.find? fun x => x.1.id == id).map Prod.snd := by
    change (s.nodes.zipIdx.foldl _ ∅)[id]? = _
    rw [getElem?_foldl_record (p := fun x => x.1.id == id) (v := Prod.snd)]
    · simp
    · intro m x
      exact Std.HashMap.getElem?_insert
  -- the nodes are what the numbered nodes are without their numbers
  have hnodes : (s.nodes.reverse.find? fun n => n.id == id) =
      (s.nodes.zipIdx.reverse.find? fun x => x.1.id == id).map Prod.fst := by
    rw [show s.nodes.reverse = s.nodes.zipIdx.reverse.map Prod.fst by simp, List.find?_map]
    rfl
  rw [node?, hslot, hnodes]
  cases hx : s.nodes.zipIdx.reverse.find? fun x => x.1.id == id with
  | none => rfl
  | some x =>
    have hmem := List.mem_reverse.1 (List.mem_of_find?_eq_some hx)
    have hid : x.1.id = id := by simpa using List.find?_some hx
    have hget : s.nodes[x.2]? = some x.1 := List.mem_zipIdx_iff_getElem?.1 hmem
    simp [hget, hid, Option.filter_some]

/-- An output leads to the node of the first connection that leaves it. -/
theorem follow?_ofScene (s : Scene) (source : ConnectorId) :
    (ofScene s).follow? source =
      (s.connections.find? fun c => c.source == source).bind fun c =>
        (ofScene s).owner? c.target := by
  have hfirst : (s.connections.find? fun c => c.source == source) =
      (s.connections.zipIdx.find? fun x => x.1.source == source).map Prod.fst := by
    have hmap : s.connections = s.connections.zipIdx.map Prod.fst := by simp
    exact (congrArg (List.find? fun c => c.source == source) hmap).trans List.find?_map
  rw [follow?, leaving_ofScene, List.head?_map, List.head?_filter, hfirst, Option.bind_map,
    Option.bind_map]
  rfl

/-- Of several connections the first of the scene is one of them, and none of them comes
    before it. -/
theorem foldl_earlier (o : Outgoing) (os : List Outgoing) :
    os.foldl earlier o ∈ o :: os ∧ ∀ x ∈ o :: os, (os.foldl earlier o).position ≤ x.position := by
  induction os generalizing o with
  | nil => simp
  | cons p os ih =>
    obtain ⟨hmem, hle⟩ := ih (earlier o p)
    rw [List.foldl_cons]
    have hearlier : (earlier o p = o ∨ earlier o p = p) ∧ (earlier o p).position ≤ o.position ∧
        (earlier o p).position ≤ p.position := by
      unfold earlier
      split
      · rename_i h
        exact ⟨.inr rfl, Nat.le_of_lt h, Nat.le_refl _⟩
      · rename_i h
        exact ⟨.inl rfl, Nat.le_refl _, Nat.le_of_not_lt h⟩
    obtain ⟨hor, ho, hp⟩ := hearlier
    have hfirst := hle _ List.mem_cons_self
    refine ⟨?_, fun x hx => ?_⟩
    · rcases List.mem_cons.1 hmem with h | h
      · rw [h]
        rcases hor with h' | h'
        · rw [h']
          exact List.mem_cons_self
        · rw [h']
          exact List.mem_cons_of_mem _ List.mem_cons_self
      · exact List.mem_cons_of_mem _ (List.mem_cons_of_mem _ h)
    · rcases List.mem_cons.1 hx with rfl | hx
      · exact Nat.le_trans hfirst ho
      rcases List.mem_cons.1 hx with rfl | hx
      · exact Nat.le_trans hfirst hp
      · exact hle x (List.mem_cons_of_mem _ hx)

/-- The first connection that leaves a connector, with its position. -/
theorem head?_leaving_ofScene (s : Scene) (source : ConnectorId) :
    ((ofScene s).leaving source).head? =
      (s.connections.zipIdx.find? fun x => x.1.source == source).map fun x =>
        ⟨x.2, x.1.target⟩ := by
  rw [leaving_ofScene, List.head?_map, List.head?_filter]

/-- The first connection that leaves a node is the first of the scene that leaves any of its
    outputs. -/
theorem first?_ofScene (s : Scene) (n : Node) :
    (ofScene s).first? n =
      (s.connections.zipIdx.find? fun x => n.outputs.any fun o => o.id == x.1.source).map
        fun x => ⟨x.2, x.1.target⟩ := by
  have hheads : ∀ o, o ∈ n.outputs.filterMap (fun c => ((ofScene s).leaving c.id).head?) ↔
      ∃ c ∈ n.outputs, ∃ x, s.connections.zipIdx.find? (fun x => x.1.source == c.id) = some x ∧
        o = ⟨x.2, x.1.target⟩ := by
    intro o
    simp only [List.mem_filterMap, head?_leaving_ofScene, Option.map_eq_some_iff, eq_comm (a := o)]
  have hany : ∀ {c : Connector} {x : Connection × Nat}, c ∈ n.outputs → (c.id == x.1.source) = true →
      (n.outputs.any fun o => o.id == x.1.source) = true :=
    fun hc hx => List.any_eq_true.2 ⟨_, hc, hx⟩
  have hsource : ∀ {c : Connector} {x : Connection × Nat},
      s.connections.zipIdx.find? (fun x => x.1.source == c.id) = some x →
      (c.id == x.1.source) = true := by
    intro c x hx
    have hx' := List.find?_some hx
    exact BEq.symm hx'
  unfold first?
  cases hx : s.connections.zipIdx.find? fun x => n.outputs.any fun o => o.id == x.1.source with
  | none =>
    split
    · rfl
    · rename_i o os hos
      obtain ⟨c, hc, y, hy, -⟩ := (hheads o).1 (hos ▸ List.mem_cons_self)
      exact absurd (hany hc (hsource hy))
        (List.find?_eq_none.1 hx y (List.mem_of_find?_eq_some hy))
  | some x =>
    have hmem := List.mem_of_find?_eq_some hx
    -- what is first for one of the outputs is not before what is first for all of them
    have hfirst : ∀ {c : Connector} {y : Connection × Nat}, c ∈ n.outputs →
        s.connections.zipIdx.find? (fun z => z.1.source == c.id) = some y → x.2 ≤ y.2 :=
      fun hc hy => find?_zipIdx_le hx (List.mem_of_find?_eq_some hy) (hany hc (hsource hy))
    have hleaves := List.find?_some hx
    obtain ⟨c, hc, hcx⟩ := List.any_eq_true.1 hleaves
    have hxc : (x.1.source == c.id) = true := BEq.symm hcx
    obtain ⟨z, hz⟩ : ∃ z, s.connections.zipIdx.find? (fun x => x.1.source == c.id) = some z :=
      Option.isSome_iff_exists.1 (List.find?_isSome.2 ⟨x, hmem, hxc⟩)
    obtain rfl : z = x := eq_of_mem_zipIdx (List.mem_of_find?_eq_some hz) hmem
      (Nat.le_antisymm (find?_zipIdx_le hz hmem hxc) (hfirst hc hz))
    have hz' := (hheads ⟨z.2, z.1.target⟩).2 ⟨c, hc, z, hz, rfl⟩
    split
    · rename_i hos
      rw [hos] at hz'
      cases hz'
    · rename_i o os hos
      obtain ⟨he, hle⟩ := foldl_earlier o os
      obtain ⟨d, hd, y, hy, heq⟩ := (hheads _).1 (hos ▸ he)
      have hyz : y.2 ≤ z.2 := by simpa [heq] using hle _ (hos ▸ hz')
      rw [heq, eq_of_mem_zipIdx (List.mem_of_find?_eq_some hy) hmem
        (Nat.le_antisymm hyz (hfirst hd hy))]
      rfl

/-- A node leads to the node of the first connection that leaves any of its outputs. -/
theorem successor?_ofScene (s : Scene) (n : Node) :
    (ofScene s).successor? n =
      (s.connections.find? fun c => n.outputs.any fun o => o.id == c.source).bind fun c =>
        (ofScene s).owner? c.target := by
  have hfirst : (s.connections.find? fun c => n.outputs.any fun o => o.id == c.source) =
      (s.connections.zipIdx.find? fun x => n.outputs.any fun o => o.id == x.1.source).map
        Prod.fst := by
    have hmap : s.connections = s.connections.zipIdx.map Prod.fst := by simp
    exact (congrArg (List.find? _) hmap).trans List.find?_map
  rw [successor?, first?_ofScene, hfirst, Option.bind_map, Option.bind_map]
  rfl

/-! ## Where nodes lead -/

section
variable {s : Scene}

theorem mem_of_node? {id : NodeId} {n : Node} (h : (ofScene s).node? s id = some n) :
    n ∈ s.nodes ∧ n.id = id := by
  rw [node?_ofScene] at h
  exact ⟨List.mem_reverse.1 (List.mem_of_find?_eq_some h), by simpa using List.find?_some h⟩

theorem mem_of_owner? {input : ConnectorId} {id : NodeId}
    (h : (ofScene s).owner? input = some id) : id ∈ s.nodes.map Node.id := by
  rw [owner?_ofScene] at h
  obtain ⟨n, hn, rfl⟩ := Option.map_eq_some_iff.1 h
  exact List.mem_map_of_mem (List.mem_reverse.1 (List.mem_of_find?_eq_some hn))

theorem mem_of_follow? {source : ConnectorId} {id : NodeId}
    (h : (ofScene s).follow? source = some id) : id ∈ s.nodes.map Node.id := by
  obtain ⟨o, -, ho⟩ := Option.bind_eq_some_iff.1 h
  exact mem_of_owner? ho

theorem mem_of_successor? {n : Node} {id : NodeId}
    (h : (ofScene s).successor? n = some id) : id ∈ s.nodes.map Node.id := by
  obtain ⟨o, -, ho⟩ := Option.bind_eq_some_iff.1 h
  exact mem_of_owner? ho

end

end ConnectionIndex

end VisualNovel
