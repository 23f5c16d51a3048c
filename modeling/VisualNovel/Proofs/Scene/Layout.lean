/-
  Nodes that are made and edited have an output for each way that they may take.

  * `Node.branched_make`: new nodes have an output for each way;
  * `perm_dropChoice`: a choice that is removed takes its output with it, and no other;
  * `Scene.Branched.edit`: whatever is asked of a scene, its nodes stay so;
  * `Scene.Crafted.branched`: what this says of all scenes that are made by blueprints and
    by editing.
-/
import VisualNovel.Proofs.Scene.Integrity
import VisualNovel.Scene.Blueprint

namespace VisualNovel

/-! ## Choices that are removed -/

/-- The numbers below a bound without one of them, with those after it moved up. -/
theorem perm_range_erase {m o : Nat} {os : List Nat} (h : (o :: os).Perm (List.range m)) :
    (os.map fun x => if o < x then x - 1 else x).Perm (List.range (m - 1)) := by
  have ho : o < m := List.mem_range.1 (h.subset List.mem_cons_self)
  obtain ⟨k, rfl⟩ : ∃ k, m = o + (1 + k) := ⟨m - o - 1, by omega⟩
  have hrange : List.range (o + (1 + k)) =
      List.range o ++ o :: (List.range k).map fun x => o + (1 + x) := by
    rw [List.range_add, List.range_add, List.map_append, List.map_map]
    rfl
  rw [hrange] at h
  have hos : os.Perm (List.range o ++ (List.range k).map fun x => o + (1 + x)) :=
    (h.trans List.perm_middle).cons_inv
  have hbefore : (List.range o).map (fun x => if o < x then x - 1 else x) = List.range o := by
    refine (List.map_congr_left fun x hx => if_neg ?_).trans (List.map_id _)
    have := List.mem_range.1 hx
    omega
  have hafter : ((List.range k).map fun x => o + (1 + x)).map
      (fun x => if o < x then x - 1 else x) = (List.range k).map fun x => o + x := by
    rw [List.map_map]
    refine List.map_congr_left fun x _ => ?_
    simp only [Function.comp_apply]
    rw [if_pos (by omega)]
    omega
  refine (hos.map _).trans (.of_eq ?_)
  rw [List.map_append, hbefore, hafter, ← List.range_add]
  congr 1
  omega

/-- When a choice is removed, the others still leave through all outputs but its own. -/
theorem perm_dropChoice {choices : List Choice} {index m : Nat} {c : Choice}
    (h : (choices.map Choice.output).Perm (List.range m)) (hc : choices[index]? = some c) :
    ((Scene.dropChoice choices index c.output).map Choice.output).Perm (List.range (m - 1)) := by
  obtain ⟨hi, rfl⟩ := List.getElem?_eq_some_iff.1 hc
  have hcons := (List.getElem_cons_eraseIdx_perm hi).map Choice.output
  have hdrop : (Scene.dropChoice choices index choices[index].output).map Choice.output =
      ((choices.eraseIdx index).map Choice.output).map
        fun x => if choices[index].output < x then x - 1 else x := by
    rw [Scene.dropChoice, List.map_map, List.map_map]
    refine List.map_congr_left fun c _ => ?_
    simp only [Function.comp_apply]
    split <;> rfl
  rw [hdrop]
  exact perm_range_erase (hcons.trans h)

/-- The choices of two nodes that leave through the same outputs are at the same positions. -/
theorem choice_of_outputs {choices others : List Choice}
    (h : others.map Choice.output = choices.map Choice.output) {index : Nat} {c : Choice}
    (hc : choices[index]? = some c) : ∃ d, others[index]? = some d ∧ d.output = c.output := by
  have hget := congrArg (·[index]?) h
  simp only [List.getElem?_map, hc, Option.map_some] at hget
  exact Option.map_eq_some_iff.1 hget

/-- A choice that stays leaves through another output than the one that goes. -/
theorem output_ne_of_mem_eraseIdx {choices : List Choice} {index m : Nat} {c d : Choice}
    (h : (choices.map Choice.output).Perm (List.range m)) (hc : choices[index]? = some c)
    (hd : d ∈ choices.eraseIdx index) : d.output ≠ c.output := by
  obtain ⟨hi, rfl⟩ := List.getElem?_eq_some_iff.1 hc
  have hcons := (List.getElem_cons_eraseIdx_perm hi).map Choice.output
  have hnodup := (hcons.trans h).nodup_iff.2 List.nodup_range
  exact fun heq => (List.nodup_cons.1 hnodup).1 (heq ▸ List.mem_map_of_mem hd)

/-- What is at another position than the one that goes is there or has moved up. -/
theorem getElem?_eraseIdx_moved {α : Type} (xs : List α) {i o : Nat} (h : i ≠ o) :
    (xs.eraseIdx o)[if o < i then i - 1 else i]? = xs[i]? := by
  rw [List.getElem?_eraseIdx]
  split
  · rename_i ho
    rw [if_neg (by omega)]
    congr 1
    omega
  · rw [if_pos (by omega)]

/-- The choices that stay keep their texts, where they lead and what they leave through. -/
theorem map_dropChoice {α : Type} (outputs : List α) {choices : List Choice} {index m : Nat}
    {c : Choice} (h : (choices.map Choice.output).Perm (List.range m))
    (hc : choices[index]? = some c) :
    (Scene.dropChoice choices index c.output).map
        (fun d => (d.text, d.next, (outputs.eraseIdx c.output)[d.output]?)) =
      (choices.eraseIdx index).map fun d => (d.text, d.next, outputs[d.output]?) := by
  rw [Scene.dropChoice, List.map_map]
  refine List.map_congr_left fun d hd => ?_
  have hmoved := getElem?_eraseIdx_moved outputs (output_ne_of_mem_eraseIdx h hc hd)
  rw [← hmoved, Function.comp_apply]
  split
  · rfl
  · rfl

/-! ## Nodes -/

namespace Node

theorem branched_make (content : Content) (id : NodeId) (connector : Nat → ConnectorId) :
    (make content id connector).Branched := by
  cases content with
  | choice choices =>
    have hnumbered : (choices.mapIdx fun i c => { c with output := i }).map Choice.output =
        List.range choices.length :=
      List.ext_getElem (by simp) fun i _ _ => by simp
    rw [branched_of_choice rfl, hnumbered]
    exact .of_eq (congrArg List.range (length_row ..).symm)
  | condition c => exact (branched_of_condition rfl).2 (length_row ..)
  | _ => trivial

theorem branched_combiner (inputs : Nat) (id : NodeId) (connector : Nat → ConnectorId) :
    (combiner inputs id connector).Branched := trivial

/-- A new node, as it is made. -/
inductive Made : Node → Prop where
  | make (content : Content) (id : NodeId) (connector : Nat → ConnectorId) :
    Made (.make content id connector)
  | combiner (inputs : Nat) (id : NodeId) (connector : Nat → ConnectorId) :
    Made (.combiner inputs id connector)

theorem Made.branched {n : Node} (h : n.Made) : n.Branched := by
  cases h with
  | make => exact branched_make ..
  | combiner => exact branched_combiner ..

end Node

/-! ## Scenes -/

namespace Scene

/-- All nodes of a scene have an output for each way that they may take. -/
def Branched (s : Scene) : Prop := ∀ n ∈ s.nodes, n.Branched

theorem branched_congr {s t : Scene} (h : s.shapes = t.shapes) : s.Branched ↔ t.Branched := by
  have key : ∀ s : Scene, s.Branched ↔ ∀ n ∈ s.shapes, n.Branched := by
    intro s
    simp [Branched, shapes, Node.branched_shape]
  rw [key, key, h]

namespace Branched
variable {s : Scene} (h : s.Branched)
include h

theorem addNode {n : Node} (hn : n.Branched) : (s.addNode n).Branched :=
  List.forall_mem_append.2 ⟨h, List.forall_mem_singleton.2 hn⟩

/-- One node may be changed, if it still has its outputs then. -/
theorem modifyNode {id : NodeId} {n : Node} {f : Node → Node} (hn : s.node? id = some n)
    (hf : n.Branched → (f n).Branched) : (s.modifyNode id f).Branched := by
  obtain ⟨-, before, after, hs, hmod, -⟩ := nodes_modifyNode hn
  unfold Branched at h ⊢
  rw [hs, List.forall_mem_append, List.forall_mem_cons] at h
  rw [hmod, List.forall_mem_append, List.forall_mem_cons]
  exact ⟨h.1, hf h.2.1, h.2.2⟩

/-- The same after a connector, if there is one, is detached. -/
theorem lose {id : NodeId} {n : Node} {f : Node → Node} (c : Option ConnectorId)
    (hn : s.node? id = some n) (hf : ∀ m : Node, m.shape = n.shape → m.Branched → (f m).Branched) :
    ((s.freed c).modifyNode id f).Branched := by
  obtain ⟨m, hm, hshape⟩ := node?_congr (shapes_freed s c).symm hn
  exact ((branched_congr (shapes_freed s c)).2 h).modifyNode hm (hf m hshape)

theorem connect {a b : ConnectorId} {s' : Scene} {c : Connection}
    (hc : s.connect a b = .ok (s', c)) : s'.Branched := by
  obtain ⟨_, -, _, -, _, -, _, -, -, -, -, -, -, -, rfl⟩ := connect_eq_ok hc
  exact (branched_congr (shapes_join ..)).2 h

theorem removeNode {id : NodeId} {s' : Scene} {n : Node} (hr : s.removeNode id = .ok (s', n)) :
    s'.Branched := by
  obtain ⟨m, _, before, after, -, rfl, -, hs, rfl⟩ := removeNode_eq_ok hr
  have hfreed := (branched_congr (Intact.shapes_foldl m.connectors s)).2 h
  unfold Branched at hfreed
  rw [hs, List.forall_mem_append, List.forall_mem_cons] at hfreed
  exact List.forall_mem_append.2 ⟨hfreed.1, hfreed.2.2⟩

theorem setSwitch {id : NodeId} {switch : Switch} {connector : Nat → ConnectorId} {s' : Scene}
    (hr : s.setSwitch id switch connector = .ok s') : s'.Branched := by
  obtain ⟨n, old, hn, -, -, rfl⟩ := setSwitch_eq_ok hr
  exact h.modifyNode hn fun _ => trivial

theorem addChoice {id : NodeId} {text : String} {connector : ConnectorId} {s' : Scene} {i : Nat}
    (hr : s.addChoice id text connector = .ok (s', i)) : s'.Branched := by
  obtain ⟨n, choices, hn, hcontent, rfl⟩ := addChoice_eq_ok hr
  refine h.modifyNode hn fun hbranched => ?_
  rw [Node.branched_of_choice hcontent] at hbranched
  rw [Node.branched_of_choice rfl, Node.withChoice, List.map_append, List.length_append,
    List.length_singleton, List.range_succ]
  exact hbranched.append_right _

theorem removeChoice {id : NodeId} {index : Nat} {s' : Scene}
    (hr : s.removeChoice id index = .ok s') : s'.Branched := by
  obtain ⟨n, choices, choice, hn, hcontent, hchoice, rfl⟩ := removeChoice_eq_ok hr
  refine h.lose (n.output? choice.output) hn fun m hshape hbranched => ?_
  -- detaching the output may have changed where the choices lead, but not their outputs
  obtain ⟨others, hm, houtputs⟩ := Node.choice_of_shape hshape hcontent
  obtain ⟨other, hother, houtput⟩ := choice_of_outputs houtputs hchoice
  rw [Node.branched_of_choice hm] at hbranched
  have hlast : other.output < m.outputs.length := List.mem_range.1
    (hbranched.subset (List.mem_map_of_mem (List.mem_of_getElem? hother)))
  rw [← houtput, Node.branched_of_choice (Node.content_without hm ..), Node.without,
    List.length_eraseIdx_of_lt hlast]
  exact perm_dropChoice hbranched hother

theorem addInput {id : NodeId} {connector : ConnectorId} {s' : Scene}
    (hr : s.addInput id connector = .ok s') : s'.Branched := by
  obtain ⟨n, hn, -, rfl⟩ := addInput_eq_ok hr
  exact h.modifyNode hn fun hbranched => hbranched

theorem removeInput {id : NodeId} {s' : Scene} (hr : s.removeInput id = .ok s') :
    s'.Branched := by
  obtain ⟨n, hn, -, rfl⟩ := removeInput_eq_ok hr
  exact h.lose _ hn fun _ _ hbranched => hbranched

/-- Whatever is asked of a scene, its nodes keep an output for each way. -/
theorem edit (e : Edit) : (s.edit e).Branched := by
  cases e with
  | addNode content id connector => exact h.addNode (Node.branched_make ..)
  | addCombiner inputs id connector => exact h.addNode (Node.branched_combiner ..)
  | connect a b => exact settled_map_induction h fun s' c hr => h.connect hr
  | disconnect c =>
    change ((s.disconnect? c).map Prod.fst).getD s |>.Branched
    cases hd : s.disconnect? c with
    | none => exact h
    | some r => exact (branched_congr (shapes_disconnect? hd)).2 h
  | removeNode id => exact settled_map_induction h fun s' n hr => h.removeNode hr
  | setSwitch id switch connector => exact settled_induction h fun s' hr => h.setSwitch hr
  | addChoice id text connector => exact settled_map_induction h fun s' i hr => h.addChoice hr
  | removeChoice id index => exact settled_induction h fun s' hr => h.removeChoice hr
  | addInput id connector => exact settled_induction h fun s' hr => h.addInput hr
  | removeInput id => exact settled_induction h fun s' hr => h.removeInput hr

end Branched

end Scene

/-! ## Blueprints -/

namespace Blueprint

/-- The blueprints that can be written with new nodes. -/
inductive Drafted : Blueprint → Prop where
  | named (name : String) : Drafted (named name)
  | place {b : Blueprint} (drafted : Drafted b) (label : String) {n : Node} (made : n.Made) :
    Drafted (b.place label n)
  | addBackground {b : Blueprint} (drafted : Drafted b) (key path : String) :
    Drafted (b.addBackground key path)
  | link {b : Blueprint} (drafted : Drafted b) (l : Link) : Drafted (b.link l)

theorem Drafted.branched {b : Blueprint} (h : b.Drafted) : b.scene.Branched := by
  induction h with
  | named => exact List.forall_mem_nil _
  | place _ _ made ih => exact ih.addNode made.branched
  | addBackground _ _ _ ih => exact ih
  | link _ _ ih => exact ih

theorem wire_branched {labels : Labels} {s s' : Scene} {l : Link} (h : s.Branched)
    (hw : wire labels s l = .ok s') : s'.Branched := by
  simp only [wire, bind, Except.bind] at hw
  split at hw
  · cases hw
  split at hw
  · cases hw
  split at hw
  · cases hw
  split at hw
  · cases hw
  rename_i source _ _ target _
  cases hc : s.connect source target with
  | error e =>
    rw [hc] at hw
    cases hw
  | ok r =>
    rw [hc] at hw
    cases hw
    exact h.connect hc

theorem build_branched {b : Blueprint} {s : Scene} (h : b.scene.Branched) (hb : b.build = .ok s) :
    s.Branched := by
  unfold build at hb
  split at hb
  · cases hb
  revert h hb
  generalize b.scene = s'
  induction b.links generalizing s' with
  | nil =>
    intro h hb
    cases hb
    exact h
  | cons l links ih =>
    intro h hb
    rw [List.foldlM_cons] at hb
    cases hw : wire b.labels s' l with
    | error e =>
      rw [hw] at hb
      cases hb
    | ok t =>
      rw [hw] at hb
      exact ih t (wire_branched h hw) hb

end Blueprint

namespace Scene

/-- The scenes that come of blueprints, and of empty scenes, by editing. -/
inductive Crafted : Scene → Prop where
  | empty (name : String) : Crafted { name }
  | built {b : Blueprint} {s : Scene} (drafted : b.Drafted) (built : b.build = .ok s) : Crafted s
  | edit {s : Scene} (crafted : Crafted s) (e : Edit) : Crafted (s.edit e)
  | addBackground {s : Scene} (crafted : Crafted s) (key path : String) :
    Crafted (s.addBackground key path)

theorem Crafted.branched {s : Scene} (h : s.Crafted) : s.Branched := by
  induction h with
  | empty => exact List.forall_mem_nil _
  | built drafted built => exact Blueprint.build_branched drafted.branched built
  | edit _ e ih => exact ih.edit e
  | addBackground _ _ _ ih => exact ih

end Scene

end VisualNovel
