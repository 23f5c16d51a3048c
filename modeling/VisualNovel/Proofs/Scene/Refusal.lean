/-
  Calls that are refused leave no trace.

  * `Draft.removeNode`, `Draft.setSwitch`, `Draft.removeChoice` and so on are the operations
    on nodes, write by write;
  * `Draft.mirrors_removeNode` and so on: they do what the operations on scenes do;
  * `Draft.perform_untouched`: whatever the scene is like, a call is refused before it
    writes anything, or it is carried out to the end.
-/
import VisualNovel.Proofs.Scene.Draft

namespace VisualNovel

namespace Draft

/-! ## Nodes -/

def removeNode (id : NodeId) : Action Node := do
  let n ← demand id
  clearAll (n.connectors.map Connector.id)
  match (← current).nodes.findIdx? fun n => decide (n.id = id) with
  | none => refuse (.nodeNotFound id)
  | some i =>
    let (n, nodes) ← takeAt (← current).nodes i
    write fun s => { s with nodes }
    return n

def setSwitch (id : NodeId) (switch : Switch) (connector : Nat → ConnectorId) : Action Unit := do
  let n ← demand id
  match n.content with
  | .state _ =>
    if (n.lost switch).any Connector.connected then refuse (.switchBlocked id switch)
    else
      write fun s => s.modifyNode id fun n => { n with content := .state switch }
      write fun s => s.modifyNode id fun n =>
        { n with inputs := Connector.row .input switch.layout.1 connector }
      write fun s => s.modifyNode id fun n =>
        { n with
          outputs := Connector.row .output switch.layout.2 fun i =>
            connector (switch.layout.1 + i) }
  | content => refuse (.wrongContent id "State" content.kindName)

def addChoice (id : NodeId) (text : String) (connector : ConnectorId) : Action Nat := do
  let n ← demand id
  match n.content with
  | .choice choices =>
    let outputs := n.outputs ++ [{ id := connector, flow := .output }]
    write fun s => s.modifyNode id fun n => { n with outputs }
    let output ← lower outputs.length
    let choices := choices ++ [({ text, output } : Choice)]
    write fun s => s.modifyNode id fun n => { n with content := .choice choices }
    lower choices.length
  | content => refuse (.wrongContent id "Choice" content.kindName)

/-- Takes the output at a position out of a node, if it has one there. -/
def dropOutput (id : NodeId) (n : Node) (output : Nat) : Action Unit := do
  if output < n.outputs.length then
    let (_, outputs) ← takeAt n.outputs output
    write fun s => s.modifyNode id fun n => { n with outputs }
  else return

/-- A choice after the output at a position is gone. -/
def moveUp (output : Nat) (c : Choice) : Action Choice :=
  if output < c.output then return { c with output := ← lower c.output } else return c

/-- Takes the choice at a position out of a node, if the node has choices. -/
def dropChoice (id : NodeId) (n : Node) (index output : Nat) : Action Unit := do
  match n.content with
  | .choice choices =>
    let (_, choices) ← takeAt choices index
    write fun s => s.modifyNode id fun n => { n with content := .choice choices }
    let choices ← choices.mapM (moveUp output)
    write fun s => s.modifyNode id fun n => { n with content := .choice choices }
  | _ => return

def removeChoice (id : NodeId) (index : Nat) : Action Unit := do
  let n ← demand id
  match n.content with
  | .choice choices =>
    match choices[index]? with
    | none => refuse (.choiceOutOfRange id index choices.length)
    | some c =>
      clearIfAny (n.output? c.output)
      let n ← demand id
      dropOutput id n c.output
      dropChoice id n index c.output
  | content => refuse (.wrongContent id "Choice" content.kindName)

def addInput (id : NodeId) (connector : ConnectorId) : Action Unit := do
  let n ← demand id
  match n.content with
  | .combiner =>
    write fun s => s.modifyNode id fun n =>
      { n with inputs := n.inputs ++ [{ id := connector, flow := .input }] }
  | content => refuse (.wrongContent id "Combiner" content.kindName)

def removeInput (id : NodeId) : Action Unit := do
  let n ← demand id
  match n.content with
  | .combiner =>
    if n.inputs.length ≤ 1 then refuse (.combinerNeedsInput id)
    else
      clearIfAny (n.inputs.getLast?.map Connector.id)
      change id fun n => { n with inputs := n.inputs.dropLast }
  | content => refuse (.wrongContent id "Combiner" content.kindName)

theorem mirrors_removeNode (d : Draft) (id : NodeId) :
    Mirrors (removeNode id) d (d.scene.removeNode id) := by
  refine Mirrors.demand fun n hn => ?_
  -- the node is still there after its connectors are freed
  have hshapes := Scene.Intact.shapes_foldl n.connectors d.scene
  obtain ⟨m, hm, -⟩ := Scene.node?_congr hshapes.symm hn
  dsimp only
  rw [hm]
  refine .ends ((ends_clearAll ..).bind fun k => ?_)
  obtain ⟨i, hi, htake⟩ := takeAt_findIdx? hm
  unfold Ends
  rw [current_bind]
  dsimp only
  rw [hi]
  refine Ends.bind_eq rfl (Ends.bind_eq (htake _) ?_)
  exact (ends_write ..).bind fun _ => ends_pure ..

section
variable {s : Scene} {id : NodeId} {n : Node} {f g : Node → Node} (h : s.node? id = some n)
include h

/-- The change of a node is a matter of what it makes of that node. -/
theorem modifyNode_congr (hfg : f n = g n) : s.modifyNode id f = s.modifyNode id g := by
  obtain ⟨-, before, after, -, hmod, -⟩ := Scene.nodes_modifyNode h
  have hnodes := (hmod f).trans (hfg ▸ (hmod g).symm)
  simp only [Scene.modifyNode, Scene.mk.injEq, true_and, and_true] at hnodes ⊢
  exact hnodes

/-- A node that is changed into itself. -/
theorem modifyNode_self (hf : f n = n) : s.modifyNode id f = s := by
  rw [modifyNode_congr h (g := fun n => n) hf, Scene.modifyNode, modifyFirst_eq_self fun _ _ _ => rfl]

end

/-- Two changes of a node that keeps its identity are one. -/
theorem modifyNode_modifyNode {s : Scene} {id : NodeId} {f g : Node → Node}
    (hf : ∀ n, (f n).id = n.id) :
    (s.modifyNode id f).modifyNode id g = s.modifyNode id fun n => g (f n) := by
  have hnodes : ∀ ns : List Node, modifyFirst (fun n => decide (n.id = id)) g
      (modifyFirst (fun n => decide (n.id = id)) f ns) =
        modifyFirst (fun n => decide (n.id = id)) (fun n => g (f n)) ns := by
    intro ns
    induction ns with
    | nil => rfl
    | cons n ns ih =>
      by_cases hn : n.id = id
      · simp [modifyFirst, hn, hf]
      · simp [modifyFirst, hn, ih]
  simp only [Scene.modifyNode, hnodes]

/-- An operation that returns no more than a scene. -/
def plain (r : Except SceneError Scene) : Except SceneError (Scene × Unit) := r.map (·, ())

theorem setSwitch_of_state {s : Scene} {id : NodeId} {n : Node} {old : Switch}
    (hn : s.node? id = some n) (hold : n.content = .state old) (switch : Switch)
    (connector : Nat → ConnectorId) :
    s.setSwitch id switch connector =
      if (n.lost switch).any Connector.connected then .error (.switchBlocked id switch)
      else .ok (s.modifyNode id (Node.asGate switch connector)) := by
  rw [Scene.setSwitch, hn]
  dsimp only
  rw [hold]
  cases switch <;> rfl

theorem mirrors_setSwitch (d : Draft) (id : NodeId) (switch : Switch)
    (connector : Nat → ConnectorId) :
    Mirrors (setSwitch id switch connector) d (plain (d.scene.setSwitch id switch connector)) := by
  unfold setSwitch
  cases hn : d.scene.node? id with
  | none =>
    rw [Scene.setSwitch, hn]
    exact .bind_stops (demand_none hn)
  | some n =>
    refine .bind_eq (demand_some hn) ?_
    cases hcontent : n.content with
    | state old =>
      rw [setSwitch_of_state hn hcontent]
      dsimp only
      split_ifs
      · exact .stops rfl
      · refine .ends ((ends_write ..).bind fun _ => (ends_write ..).bind fun _ =>
          (ends_write ..).congr ?_)
        dsimp only
        rw [modifyNode_modifyNode, modifyNode_modifyNode]
        · rfl
        · exact fun _ => rfl
        · exact fun _ => rfl
    | _ =>
      rw [Scene.setSwitch, hn]
      dsimp only
      rw [hcontent]
      exact .stops rfl

/-- A list to which something was added has a last position. -/
theorem lower_concat {α : Type} (xs : List α) (x : α) (d : Draft) :
    lower (xs ++ [x]).length d = .ok xs.length d := by
  rw [List.length_append]
  rfl

theorem mirrors_addChoice (d : Draft) (id : NodeId) (text : String) (connector : ConnectorId) :
    Mirrors (addChoice id text connector) d (d.scene.addChoice id text connector) := by
  unfold addChoice Scene.addChoice
  cases hn : d.scene.node? id with
  | none => exact .bind_stops (demand_none hn)
  | some n =>
    refine .bind_eq (demand_some hn) ?_
    dsimp only
    cases n.content with
    | choice choices =>
      refine .ends ((ends_write ..).bind fun _ => Ends.bind_eq (lower_concat ..) ?_)
      refine (ends_write ..).bind fun _ => (Ends.of_eq (lower_concat ..)).congr ?_
      dsimp only
      rw [modifyNode_modifyNode]
      · exact modifyNode_congr hn rfl
      · exact fun _ => rfl
    | _ => exact .stops rfl

theorem moveUp_eq (output : Nat) (c : Choice) (d : Draft) :
    moveUp output c d =
      .ok (if output < c.output then { c with output := c.output - 1 } else c) d := by
  unfold moveUp
  split_ifs with h
  · obtain ⟨k, hk⟩ : ∃ k, c.output = k + 1 := ⟨c.output - 1, by omega⟩
    rw [hk]
    rfl
  · rfl

/-- Looking at items one after the other without writing. -/
theorem mapM_eq {α β : Type} {f : α → Action β} {g : α → β} {d : Draft}
    (h : ∀ a, f a d = .ok (g a) d) (as : List α) : as.mapM f d = .ok (as.map g) d := by
  induction as with
  | nil => rfl
  | cons a as ih =>
    rw [List.mapM_cons]
    exact (bind_of_ok (h a)).trans (bind_of_ok ih)

theorem ends_dropOutput {d : Draft} {id : NodeId} {n : Node} (hn : d.scene.node? id = some n)
    (output : Nat) : Ends (dropOutput id n output) d ()
      (d.scene.modifyNode id fun n => { n with outputs := n.outputs.eraseIdx output }) := by
  unfold dropOutput
  split_ifs with h
  · refine Ends.bind_eq (takeAt_some (List.getElem?_eq_getElem h) d) ((ends_write ..).congr ?_)
    exact modifyNode_congr hn rfl
  · refine (ends_pure ..).congr (modifyNode_self hn ?_).symm
    rw [List.eraseIdx_of_length_le (by omega)]

theorem ends_dropChoice {d : Draft} {id : NodeId} {n : Node} {choices : List Choice} {index : Nat}
    (hcontent : n.content = .choice choices) (hi : index < choices.length) (output : Nat) :
    Ends (dropChoice id n index output) d () (d.scene.modifyNode id fun n =>
      { n with content := .choice (Scene.dropChoice choices index output) }) := by
  unfold dropChoice
  rw [hcontent]
  refine Ends.bind_eq (takeAt_some (List.getElem?_eq_getElem hi) d) ?_
  refine (ends_write ..).bind fun _ => Ends.bind_eq (mapM_eq (fun c => moveUp_eq output c _) _) ?_
  refine (ends_write ..).congr ?_
  dsimp only
  rw [modifyNode_modifyNode]
  · rfl
  · exact fun _ => rfl

theorem mirrors_removeChoice (d : Draft) (id : NodeId) (index : Nat) :
    Mirrors (removeChoice id index) d (plain (d.scene.removeChoice id index)) := by
  unfold removeChoice Scene.removeChoice
  cases hn : d.scene.node? id with
  | none => exact .bind_stops (demand_none hn)
  | some n =>
    refine .bind_eq (demand_some hn) ?_
    dsimp only
    cases hcontent : n.content with
    | choice choices =>
      dsimp only
      cases hc : choices[index]? with
      | none => exact .stops rfl
      | some c =>
        dsimp only
        -- after its output is freed the node has the same outputs and as many choices
        obtain ⟨m, hm, hshape⟩ :=
          Scene.node?_congr (Scene.shapes_freed d.scene (n.output? c.output)).symm hn
        obtain ⟨others, hothers, houtputs⟩ := Node.choice_of_shape hshape hcontent
        have hi : index < others.length := by
          have hlength := congrArg List.length houtputs
          rw [List.length_map, List.length_map] at hlength
          rw [hlength]
          exact (List.getElem?_eq_some_iff.1 hc).1
        refine .ends ((ends_clearIfAny ..).bind fun _ => Ends.bind_eq (demand_some hm) ?_)
        refine (ends_dropOutput hm _).bind fun _ => (ends_dropChoice hothers hi _).congr ?_
        dsimp only
        rw [modifyNode_modifyNode]
        · refine modifyNode_congr hm ?_
          rw [hothers]
        · exact fun _ => rfl
    | _ => exact .stops rfl

theorem mirrors_addInput (d : Draft) (id : NodeId) (connector : ConnectorId) :
    Mirrors (addInput id connector) d (plain (d.scene.addInput id connector)) := by
  unfold addInput Scene.addInput
  cases hn : d.scene.node? id with
  | none => exact .bind_stops (demand_none hn)
  | some n =>
    refine .bind_eq (demand_some hn) ?_
    dsimp only
    cases n.content with
    | combiner => exact .ends (ends_write ..)
    | _ => exact .stops rfl

theorem mirrors_removeInput (d : Draft) (id : NodeId) :
    Mirrors (removeInput id) d (plain (d.scene.removeInput id)) := by
  unfold removeInput Scene.removeInput
  cases hn : d.scene.node? id with
  | none => exact .bind_stops (demand_none hn)
  | some n =>
    refine .bind_eq (demand_some hn) ?_
    dsimp only
    cases n.content with
    | combiner =>
      dsimp only
      split_ifs
      · exact .stops rfl
      · have hfreed := Scene.shapes_freed d.scene (n.inputs.getLast?.map Connector.id)
        obtain ⟨m, hm, -⟩ := Scene.node?_congr hfreed.symm hn
        refine .ends ((ends_clearIfAny ..).bind fun _ => Ends.congr (ends_change hm _) ?_)
        cases n.inputs.getLast? <;> rfl
    | _ => exact .stops rfl

end Draft

/-! ## Calls -/

/-- What a call returns as far as the scene is concerned. -/
def Scene.attempt (s : Scene) : Edit → Except SceneError Scene
  | .addNode content id connector => .ok (s.addNode (.make content id connector))
  | .addCombiner inputs id connector => .ok (s.addNode (.combiner inputs id connector))
  | .connect a b => (s.connect a b).map Prod.fst
  | .disconnect c => .ok (((s.disconnect? c).map Prod.fst).getD s)
  | .removeNode id => (s.removeNode id).map Prod.fst
  | .setSwitch id switch connector => s.setSwitch id switch connector
  | .addChoice id text connector => (s.addChoice id text connector).map Prod.fst
  | .removeChoice id index => s.removeChoice id index
  | .addInput id connector => s.addInput id connector
  | .removeInput id => s.removeInput id

theorem Scene.edit_eq_settled (s : Scene) (e : Edit) : s.edit e = s.settled (s.attempt e) := by
  cases e <;> rfl

namespace Draft

def perform : Edit → Action Unit
  | .addNode content id connector => write fun s => s.addNode (.make content id connector)
  | .addCombiner inputs id connector => write fun s => s.addNode (.combiner inputs id connector)
  | .connect a b => do let _ ← connect a b
  | .disconnect c => do let _ ← disconnect c
  | .removeNode id => do let _ ← removeNode id
  | .setSwitch id switch connector => setSwitch id switch connector
  | .addChoice id text connector => do let _ ← addChoice id text connector
  | .removeChoice id index => removeChoice id index
  | .addInput id connector => addInput id connector
  | .removeInput id => removeInput id

theorem Mirrors.discard {α : Type} {x : Action α} {d : Draft} {r : Except SceneError (Scene × α)}
    (h : Mirrors x d r) : Mirrors (do let _ ← x) d (plain (r.map Prod.fst)) := by
  cases h with
  | ends h => exact .ends (h.bind fun _ => ends_pure ..)
  | stops h => exact .bind_stops h

theorem mirrors_perform (d : Draft) (e : Edit) :
    Mirrors (perform e) d (plain (d.scene.attempt e)) := by
  cases e with
  | addNode | addCombiner => exact .ends (ends_write (fun s => s.addNode _) d)
  | connect a b => exact (mirrors_connect d a b).discard
  | disconnect c =>
    rcases disconnect_cases c d with ⟨h, hd⟩ | ⟨s, x, n, h, hd⟩
    · rw [Scene.attempt, hd]
      exact .ends (Ends.bind_eq h (ends_pure ..))
    · rw [Scene.attempt, hd]
      exact .ends (Ends.bind ⟨n, h⟩ fun _ => ends_pure ..)
  | removeNode id => exact (mirrors_removeNode d id).discard
  | setSwitch id switch connector => exact mirrors_setSwitch d id switch connector
  | addChoice id text connector => exact (mirrors_addChoice d id text connector).discard
  | removeChoice id index => exact mirrors_removeChoice d id index
  | addInput id connector => exact mirrors_addInput d id connector
  | removeInput id => exact mirrors_removeInput d id

/-- In any scene whatsoever a call either does what it is there for, or it is refused before
    anything was written; it never looks for a position that a list does not have. -/
theorem perform_untouched (s : Scene) (e : Edit) :
    (∃ s' n, perform e ⟨s, 0⟩ = .ok () ⟨s', n⟩ ∧ s.attempt e = .ok s') ∨
    ∃ x, perform e ⟨s, 0⟩ = .error (.refused x) ⟨s, 0⟩ ∧ s.attempt e = .error x := by
  have h := mirrors_perform ⟨s, 0⟩ e
  dsimp only at h
  cases hr : s.attempt e with
  | ok s' =>
    rw [hr] at h
    cases h with
    | ends h =>
      obtain ⟨n, hn⟩ := h
      exact .inl ⟨s', n, hn, rfl⟩
  | error x =>
    rw [hr] at h
    cases h with
    | stops h => exact .inr ⟨x, h, rfl⟩

end Draft

end VisualNovel
