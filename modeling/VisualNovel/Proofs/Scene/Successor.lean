/-
  Where nodes say that they lead, and where playback finds that they do.  Editing writes the
  one into the nodes call by call; the other is read off the finished list of connections.

  * `Scene.Edited.leads`: they are the same for each choice, and for each node with one way on.
-/
import VisualNovel.Proofs.Scene.Neighbour

namespace VisualNovel

theorem Bearing.touches_near (b : Bearing) (c : Connection) : c.touches (b.near c) = true := by
  cases b with
  | back => simp [near, Connection.touches]
  | forth | way => simp [near, Connection.touches]

namespace Reference

/-- A reference by one connector goes by one connection. -/
theorem met_subsingleton {s : Scene} (h : Apart s.connections) {r : Reference}
    (hone : r.ends.length ≤ 1) {c d : Connection} (hc : c ∈ r.met s) (hd : d ∈ r.met s) : c = d := by
  obtain ⟨hcs, hcr⟩ := mem_met.1 hc
  obtain ⟨hds, hdr⟩ := mem_met.1 hd
  have hnear : r.bearing.near c = r.bearing.near d := by
    obtain ⟨x, hx⟩ : ∃ x, r.ends = [x] :=
      List.length_eq_one_iff.1 (Nat.le_antisymm hone (List.length_pos_of_mem hcr))
    rw [Meets, hx, List.mem_singleton] at hcr hdr
    rw [hcr, hdr]
  exact h.eq_of_touches hcs hds (r.bearing.touches_near c) (hnear ▸ r.bearing.touches_near d)

/-- A reference to what comes after a node, by one connector, names nobody only if that
    connector is free. -/
def Open (s : Scene) (r : Reference) : Prop :=
  r.bearing ≠ .back → r.ends.length ≤ 1 → r.node = none → r.met s = []

theorem open_of_fate {linked : Prop} {s t : Scene} {id : NodeId} {r : Reference}
    (h : r.Fate linked s t id) (hs : Apart s.connections)
    (hold : ∀ q, (id, q) ∈ s.references → q.Open s) : r.Open t := by
  intro hb hone hnone
  cases h with
  | fresh unmet => exact unmet
  | kept old like met node =>
    exact met.trans (hold _ old (like.bearing ▸ hb) (like.single hb hone) (node ▸ hnone))
  | forgot old like was gone met =>
    refine List.eq_nil_iff_forall_not_mem.2 fun d hd => gone ?_
    rw [met_subsingleton hs (like.single hb hone) was (met d hd)]
    exact (mem_met.1 hd).1
  | told _ _ _ _ node => cases node.symm.trans hnone

end Reference

namespace Scene

/-- A connection arrives at the node that receives it. -/
theorem Distinct.arrival?_eq {s : Scene} (h : s.Distinct) {n : Node} (hn : n ∈ s.nodes)
    {c : Connection} (hc : n.Receives c) : s.arrival? c = some n.id := by
  have hreceives : ∀ m : Node, (m.inputs.any fun x => decide (x.id = c.target)) = true ↔
      m.Receives c := by
    intro m
    simp [Node.Receives]
  obtain ⟨m, hm⟩ : ∃ m, (s.nodes.find? fun m => m.inputs.any fun x => decide (x.id = c.target)) =
      some m := Option.isSome_iff_exists.1 (List.find?_isSome.2 ⟨n, hn, (hreceives n).2 hc⟩)
  have hmc : m.Receives c := (hreceives m).1 (by simpa using List.find?_some hm)
  rw [arrival?, hm, h.eq_of_receives (List.mem_of_find?_eq_some hm) hn hmc hc, Option.map_some]

/-- Calls that give no choice a way of its own. -/
def Plain (s : Scene) (e : Edit) : Prop := Sound s e ∧ e.Unlinked

theorem Edited.mono {ok ok' : Scene → Edit → Prop} (hmono : ∀ s e, ok s e → ok' s e) {s : Scene}
    (h : s.Edited ok) : s.Edited ok' := by
  induction h with
  | empty name => exact .empty name
  | edit _ he ih => exact ih.edit (hmono _ _ he)

theorem Edited.open_truthful {s : Scene} (h : s.Edited Plain) {id : NodeId} {r : Reference}
    (href : (id, r) ∈ s.references) : r.Open s ∧ r.Truthful s := by
  induction h generalizing r with
  | empty name => cases href
  | edit hedited he ih =>
    have hs := (hedited.mono fun _ _ h => h.1).intact
    have hrevised := hs.revised_edit hedited.branched he.1
    have hfate := hrevised.fate href
    constructor
    · exact Reference.open_of_fate hfate hs.wired.apart fun q hq => (ih hq).1
    · exact hfate.truthful hrevised (fun _ h => h he.2) fun q hq _ => (ih hq).2

/-- A reference by one connector names the node that the first connection leads to which
    leaves that connector. -/
theorem Edited.node_eq {s : Scene} (h : s.Edited Plain) {id : NodeId} {r : Reference}
    (href : (id, r) ∈ s.references) (hb : r.bearing ≠ .back) (hone : r.ends.length ≤ 1) :
    r.node = (s.connections.find? fun c => decide (r.Meets c)).bind fun c =>
      (ConnectionIndex.ofScene s).owner? c.target := by
  have hs := (h.mono fun _ _ h => h.1).intact
  obtain ⟨hopen, htruthful⟩ := h.open_truthful href
  cases hr : r.node with
  | none =>
    have hnone : (s.connections.find? fun c => decide (r.Meets c)) = none := by
      rw [List.find?_eq_none]
      exact List.filter_eq_nil_iff.1 (hopen hb hone hr)
    rw [hnone]
    rfl
  | some k =>
    obtain ⟨c, hlast, m, hm, rfl, hmc⟩ := htruthful k hr
    have hc := List.mem_of_getLast? hlast
    obtain ⟨hcs, hmeets⟩ := Reference.mem_met.1 hc
    obtain ⟨d, hd⟩ : ∃ d, (s.connections.find? fun c => decide (r.Meets c)) = some d :=
      Option.isSome_iff_exists.1 (List.find?_isSome.2 ⟨c, hcs, decide_eq_true hmeets⟩)
    -- the first connection is the only one
    obtain rfl : d = c := Reference.met_subsingleton hs.wired.apart hone
      (Reference.mem_met.2 ⟨List.mem_of_find?_eq_some hd, by simpa using List.find?_some hd⟩) hc
    have hreceives : m.Receives d := by
      cases hbearing : r.bearing with
      | back => exact absurd hbearing hb
      | forth | way =>
        rw [hbearing] at hmc
        exact hmc
    rw [hd, Option.bind_some, hs.isDistinct.owner?_ofScene, hs.isDistinct.arrival?_eq hm hreceives]

/-- In a scene that comes of editing, a choice says that it leads to where playback follows
    its output to, and a node with one output that it leads to its successor. -/
theorem Edited.leads {s : Scene} (h : s.Edited Plain) {n : Node} (hn : n ∈ s.nodes) :
    (∀ choices, n.content = .choice choices → ∀ c ∈ choices, ∃ x, n.output? c.output = some x ∧
      c.next = (ConnectionIndex.ofScene s).follow? x) ∧
    ((∀ choices, n.content ≠ .choice choices) → n.outputs.length ≤ 1 →
      n.next = (ConnectionIndex.ofScene s).successor? n) := by
  constructor
  · intro choices hcontent c hc
    have hlt : c.output < n.outputs.length := List.mem_range.1
      (((Node.branched_of_choice hcontent).1 (h.branched n hn)).subset (List.mem_map_of_mem hc))
    have hx : n.output? c.output = some n.outputs[c.output].id := by
      rw [Node.output?, List.getElem?_eq_getElem hlt, Option.map_some]
    refine ⟨_, hx, ?_⟩
    have href : (⟨.way, c.next, [n.outputs[c.output].id]⟩ : Reference) ∈ n.references := by
      rw [Node.references_of_choice hcontent]
      exact List.mem_cons_of_mem _ (List.mem_map.2 ⟨c, hc, by rw [hx]; rfl⟩)
    rw [ConnectionIndex.follow?_ofScene]
    refine (h.node_eq (mem_references.2 ⟨n, hn, rfl, href⟩) (by simp) (by simp)).trans ?_
    congr 1
    refine congrArg (List.find? · _) (funext fun d => ?_)
    rw [Bool.eq_iff_iff]
    simp [Reference.Meets, Bearing.near]
  · intro hother hone
    have href : (⟨.forth, n.next, n.outputs.map Connector.id⟩ : Reference) ∈ n.references := by
      rw [Node.references_of_other hother]
      exact List.mem_cons_of_mem _ List.mem_cons_self
    rw [ConnectionIndex.successor?_ofScene]
    refine (h.node_eq (mem_references.2 ⟨n, hn, rfl, href⟩) (by simp) (by simpa using hone)).trans ?_
    congr 1
    refine congrArg (List.find? · _) (funext fun d => ?_)
    rw [Bool.eq_iff_iff]
    simp [Reference.Meets, Bearing.near]

/-- Two choices, the second of which leads to an exit. -/
def crossroads : Scene :=
  ((({ name := "Crossroads" } : Scene).edit (.addNode (.choice [{ text := "Stay" }, { text := "Go" }])
    ⟨⟨0⟩⟩ fun i => ⟨⟨.ofNat 128 (1 + i)⟩⟩)).edit (.addNode (.state .exit) ⟨⟨4⟩⟩ fun _ => ⟨⟨5⟩⟩)).edit
    (.connect ⟨⟨3⟩⟩ ⟨⟨5⟩⟩)

/-- The choices of the crossroads say where they lead. -/
theorem leads_crossroads :
    crossroads.Edited Plain ∧ ∃ n, crossroads.node? ⟨⟨0⟩⟩ = some n ∧ n.content =
        .choice [{ text := "Stay" }, { text := "Go", next := some ⟨⟨4⟩⟩, output := 1 }] ∧
      (ConnectionIndex.ofScene crossroads).follow? ⟨⟨2⟩⟩ = none ∧
      (ConnectionIndex.ofScene crossroads).follow? ⟨⟨3⟩⟩ = some ⟨⟨4⟩⟩ := by
  have h : crossroads.Edited Plain := by
    refine (((Edited.empty _).edit ⟨⟨?_, trivial⟩, rfl⟩).edit ⟨⟨?_, trivial⟩, rfl⟩).edit
      ⟨⟨?_, trivial⟩, trivial⟩
    all_goals exact ⟨by decide, by decide⟩
  have hn : crossroads.node? ⟨⟨0⟩⟩ = some _ := rfl
  have hleads := (h.leads (List.mem_of_find?_eq_some hn)).1 _ rfl
  obtain ⟨x, hx, hstay⟩ := hleads _ List.mem_cons_self
  obtain ⟨y, hy, hgo⟩ := hleads _ (List.mem_cons_of_mem _ List.mem_cons_self)
  cases hx
  cases hy
  exact ⟨h, _, hn, rfl, hstay.symm, hgo.symm⟩

end Scene

end VisualNovel
