/-
  What the operations of editing have checked when they succeed, and what they then have done.

  * `Scene.connect_eq_ok`, `Scene.removeNode_eq_ok`, `Scene.addChoice_eq_ok`,
    `Scene.removeChoice_eq_ok`, `Scene.addInput_eq_ok` and `Scene.removeInput_eq_ok` are for
    one operation each; what is proved of editing starts from them;
  * `Node.withChoice`, `Node.without`, `Node.withInput` and `Node.withoutInput` are what
    becomes of the node, and `Scene.freed` of the connections of what it loses.
-/
import VisualNovel.Proofs.Scene.Shape

namespace VisualNovel

namespace Node

/-- The node with one more choice than it has, and an output for it. -/
def withChoice (choices : List Choice) (text : String) (connector : ConnectorId) (n : Node) : Node :=
  { n with
    outputs := n.outputs ++ [{ id := connector, flow := .output }]
    content := .choice (choices ++ [{ text, output := n.outputs.length }]) }

/-- The node without the choice at a position and the output through which that leaves. -/
def without (index output : Nat) (n : Node) : Node :=
  { n with
    outputs := n.outputs.eraseIdx output
    content := match n.content with
      | .choice choices => .choice (Scene.dropChoice choices index output)
      | content => content }

theorem id_without (index output : Nat) (n : Node) : (n.without index output).id = n.id := rfl

theorem content_without {n : Node} {choices : List Choice} (h : n.content = .choice choices)
    (index output : Nat) :
    (n.without index output).content = .choice (Scene.dropChoice choices index output) := by
  rw [without, h]

/-- The node with one more input. -/
def withInput (connector : ConnectorId) (n : Node) : Node :=
  { n with inputs := n.inputs ++ [{ id := connector, flow := .input }] }

/-- The node without its last input. -/
def withoutInput (n : Node) : Node := { n with inputs := n.inputs.dropLast }

end Node

namespace Scene
variable {s s' : Scene}

theorem exists_of_locate? {c : ConnectorId} {id : NodeId} {x : Connector}
    (h : s.locate? c = some (id, x)) : ∃ n ∈ s.nodes, n.id = id ∧ x ∈ n.connectors ∧ x.id = c := by
  obtain ⟨n, hn, hx⟩ := List.exists_of_findSome?_eq_some h
  obtain ⟨y, hy, heq⟩ := Option.map_eq_some_iff.1 hx
  obtain ⟨rfl, rfl⟩ := Prod.mk.inj heq
  exact ⟨n, hn, rfl, List.mem_of_find?_eq_some hy, by simpa using List.find?_some hy⟩

theorem Flow.eq_input_of_ne : ∀ {f : Flow}, f ≠ .output → f = .input
  | .input, _ => rfl
  | .output, h => absurd rfl h

/-- Connectors that are joined belong to nodes, are free and go in different directions; the
    output is the source of the connection. -/
theorem connect_eq_ok {a b : ConnectorId} {c : Connection} (h : s.connect a b = .ok (s', c)) :
    ∃ m ∈ s.nodes, ∃ x ∈ m.connectors, ∃ k ∈ s.nodes, ∃ y ∈ k.connectors,
      x.id = c.source ∧ y.id = c.target ∧ x.flow = .output ∧ y.flow = .input ∧
      x.connected = false ∧ y.connected = false ∧ s' = s.join c.source m.id c.target k.id := by
  unfold connect at h
  split at h
  · cases h
  rename_i aNode x ha
  split at h
  · cases h
  rename_i bNode y hb
  obtain ⟨m, hm, rfl, hx, rfl⟩ := exists_of_locate? ha
  obtain ⟨k, hk, rfl, hy, rfl⟩ := exists_of_locate? hb
  split_ifs at h with hne hxf hx' hy' hy' hx'
  · -- the first connector is the output
    have hyf : y.flow = .input := Flow.eq_input_of_ne fun hyf => hne (hxf.trans hyf.symm)
    cases h
    exact ⟨m, hm, x, hx, k, hk, y, hy, rfl, rfl, hxf, hyf, by simpa using hx', by simpa using hy', rfl⟩
  · -- the second connector is the output
    have hxf : x.flow = .input := Flow.eq_input_of_ne hxf
    have hyf : y.flow = .output := by
      by_contra hyf
      exact hne (hxf.trans (Flow.eq_input_of_ne hyf).symm)
    cases h
    exact ⟨k, hk, y, hy, m, hm, x, hx, rfl, rfl, hyf, hxf, by simpa using hy', by simpa using hx', rfl⟩

/-- A node that is taken away was there before its connectors were detached, and after. -/
theorem removeNode_eq_ok {id : NodeId} {n : Node} (h : s.removeNode id = .ok (s', n)) :
    ∃ m t before after, s.node? id = some m ∧
      t = m.connectors.foldl (fun s x => s.disconnectAll x.id) s ∧ t.node? id = some n ∧
      t.nodes = before ++ n :: after ∧ s' = { t with nodes := before ++ after } := by
  unfold removeNode at h
  split at h
  · cases h
  rename_i m hm
  dsimp only at h
  split at h
  · cases h
  rename_i k hk
  cases h
  obtain ⟨-, before, after, hs, -, he⟩ := nodes_modifyNode hk
  exact ⟨m, _, before, after, hm, rfl, hk, hs, by rw [he]⟩

theorem addChoice_eq_ok {id : NodeId} {text : String} {connector : ConnectorId} {i : Nat}
    (h : s.addChoice id text connector = .ok (s', i)) :
    ∃ n choices, s.node? id = some n ∧ n.content = .choice choices ∧
      s' = s.modifyNode id (Node.withChoice choices text connector) := by
  unfold addChoice at h
  split at h
  · cases h
  rename_i n hn
  split at h
  · rename_i choices hcontent
    cases h
    exact ⟨n, choices, hn, hcontent, rfl⟩
  · cases h

/-- The scene in which a connector, if there is one, is detached. -/
def freed (s : Scene) : Option ConnectorId → Scene
  | some c => s.disconnectAll c
  | none => s

theorem shapes_freed (s : Scene) : ∀ c, (s.freed c).shapes = s.shapes
  | none => rfl
  | some c => shapes_disconnectAll s c

theorem touches_freed {c : ConnectorId} :
    ∀ d ∈ (s.freed (some c)).connections, d.touches c = false := by
  intro d hd
  rw [freed, connections_disconnectAll] at hd
  simpa using (List.mem_filter.1 hd).2

theorem removeChoice_eq_ok {id : NodeId} {index : Nat} (h : s.removeChoice id index = .ok s') :
    ∃ n choices c, s.node? id = some n ∧ n.content = .choice choices ∧ choices[index]? = some c ∧
      s' = (s.freed (n.output? c.output)).modifyNode id (Node.without index c.output) := by
  unfold removeChoice at h
  split at h
  · cases h
  rename_i n hn
  split at h
  · rename_i choices hcontent
    split at h
    · cases h
    rename_i c hc
    cases h
    exact ⟨n, choices, c, hn, hcontent, hc, rfl⟩
  · cases h

/-- A choice that is there may be removed. -/
theorem removeChoice_of_choice {id : NodeId} {n : Node} (hn : s.node? id = some n)
    {choices : List Choice} (hcontent : n.content = .choice choices) {index : Nat} {c : Choice}
    (hc : choices[index]? = some c) :
    s.removeChoice id index =
      .ok ((s.freed (n.output? c.output)).modifyNode id (Node.without index c.output)) := by
  rw [removeChoice, hn]
  dsimp only
  rw [hcontent]
  dsimp only
  rw [hc]
  rfl

theorem addInput_eq_ok {id : NodeId} {connector : ConnectorId}
    (h : s.addInput id connector = .ok s') :
    ∃ n, s.node? id = some n ∧ n.content = .combiner ∧
      s' = s.modifyNode id (Node.withInput connector) := by
  unfold addInput at h
  split at h
  · cases h
  rename_i n hn
  split at h
  · rename_i hcontent
    cases h
    exact ⟨n, hn, hcontent, rfl⟩
  · cases h

theorem removeInput_eq_ok {id : NodeId} (h : s.removeInput id = .ok s') :
    ∃ n, s.node? id = some n ∧ n.content = .combiner ∧
      s' = (s.freed (n.inputs.getLast?.map Connector.id)).modifyNode id Node.withoutInput := by
  unfold removeInput at h
  split at h
  · cases h
  rename_i n hn
  split at h
  · rename_i hcontent
    split_ifs at h
    refine ⟨n, hn, hcontent, ?_⟩
    rw [← Except.ok.inj h]
    cases n.inputs.getLast? <;> rfl
  · cases h

end Scene

end VisualNovel
