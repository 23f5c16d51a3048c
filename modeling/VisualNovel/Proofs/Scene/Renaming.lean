/-
  Scenes under other identities.

  * `Renaming` gives nodes and connectors other identities, `Scene.rename` and
    `Project.rename` do so throughout;
  * `ConnectionIndex.follow?_rename`, `ConnectionIndex.successor?_rename` and
    `ConnectionIndex.node?_rename`: if no two identities become one, the look-up tables find
    what they found before, under its other identity;
  * `Renaming.exists_injective`: for that it is enough if no two identities become one that
    are used.
-/
import Mathlib.Logic.Equiv.Fintype
import Mathlib.Data.Set.Function
import VisualNovel.Project.Basic
import VisualNovel.Proofs.Scene.Index
import VisualNovel.Proofs.Scene.Shape

namespace VisualNovel

/-- Other identities for nodes and for connectors. -/
structure Renaming where
  node : NodeId → NodeId
  connector : ConnectorId → ConnectorId

/-- No two identities become one. -/
structure Renaming.Injective (r : Renaming) : Prop where
  node : Function.Injective r.node
  connector : Function.Injective r.connector

section
variable (r : Renaming)

def Connector.rename (x : Connector) : Connector := { x with id := r.connector x.id }

def Connection.rename (c : Connection) : Connection :=
  ⟨r.connector c.source, r.connector c.target⟩

def Choice.rename (c : Choice) : Choice := { c with next := c.next.map r.node }

def Content.rename : Content → Content
  | .choice choices => .choice (choices.map (Choice.rename r))
  | content => content

def Node.rename (n : Node) : Node :=
  { n with
    id := r.node n.id, previous := n.previous.map r.node, next := n.next.map r.node
    inputs := n.inputs.map (Connector.rename r), outputs := n.outputs.map (Connector.rename r)
    content := n.content.rename r }

def Scene.rename (s : Scene) : Scene :=
  { s with
    nodes := s.nodes.map (Node.rename r), connections := s.connections.map (Connection.rename r) }

def Project.rename (p : Project) : Project := { p with scenes := p.scenes.map (Scene.rename r) }

end

section
variable {r : Renaming}

@[simp] theorem Node.isEntry_rename (n : Node) : (n.rename r).isEntry = n.isEntry := by
  unfold isEntry rename
  cases n.content <;> simp [Content.rename]

theorem Scene.entry?_rename (s : Scene) :
    Scene.entry? (s.rename r) = s.entry?.map (Node.rename r) := by
  rw [Scene.entry?, rename, List.find?_map]
  exact congrArg (fun p => (s.nodes.find? p).map (Node.rename r)) (funext Node.isEntry_rename)

theorem Project.scene?_rename (p : Project) (name : String) :
    (p.rename r).scene? name = (p.scene? name).map (Scene.rename r) := List.find?_map ..

namespace ConnectionIndex
variable (hr : r.Injective) (s : Scene)
include hr

theorem owner?_rename (c : ConnectorId) :
    (ofScene (s.rename r)).owner? (r.connector c) = ((ofScene s).owner? c).map r.node := by
  have hsame : (fun n : Node => n.inputs.any fun x => x.id == r.connector c) ∘ Node.rename r =
      fun n => n.inputs.any fun x => x.id == c := by
    funext n
    simp only [Function.comp_apply, Node.rename, List.any_map]
    refine congrArg n.inputs.any (funext fun x => ?_)
    exact hr.connector.beq_eq
  rw [owner?_ofScene, owner?_ofScene, Scene.rename, ← List.map_reverse, List.find?_map, hsame,
    Option.map_map, Option.map_map]
  rfl

theorem follow?_rename (c : ConnectorId) :
    (ofScene (s.rename r)).follow? (r.connector c) = ((ofScene s).follow? c).map r.node := by
  have hsame : (fun x : Connection => x.source == r.connector c) ∘ Connection.rename r =
      fun x => x.source == c := by
    funext x
    exact hr.connector.beq_eq
  rw [follow?_ofScene, follow?_ofScene, Option.map_bind]
  simp only [Scene.rename, List.find?_map, hsame, Option.bind_map]
  exact congrArg _ (funext fun x => owner?_rename hr s x.target)

theorem successor?_rename (n : Node) :
    (ofScene (s.rename r)).successor? (n.rename r) = ((ofScene s).successor? n).map r.node := by
  have hsame : (fun x : Connection => (n.rename r).outputs.any fun o => o.id == x.source) ∘
      Connection.rename r = fun x => n.outputs.any fun o => o.id == x.source := by
    funext x
    simp only [Function.comp_apply, Node.rename, List.any_map]
    refine congrArg n.outputs.any (funext fun o => ?_)
    exact hr.connector.beq_eq
  rw [successor?_ofScene, successor?_ofScene, Option.map_bind]
  simp only [Scene.rename, List.find?_map, hsame, Option.bind_map]
  exact congrArg _ (funext fun x => owner?_rename hr s x.target)

theorem node?_rename (id : NodeId) :
    (ofScene (s.rename r)).node? (s.rename r) (r.node id) =
      ((ofScene s).node? s id).map (Node.rename r) := by
  have hsame : (fun n : Node => n.id == r.node id) ∘ Node.rename r = fun n => n.id == id := by
    funext n
    exact hr.node.beq_eq
  rw [node?_ofScene, node?_ofScene, Scene.rename, ← List.map_reverse, List.find?_map, hsame]

end ConnectionIndex

end

/-! ## Identities that are used -/

theorem Uuid.toFin_injective : Function.Injective fun u : Uuid => u.bits.toFin := by
  rintro ⟨⟨a⟩⟩ ⟨⟨b⟩⟩ h
  exact congrArg (fun i => (⟨⟨i⟩⟩ : Uuid)) h

instance : Finite Uuid := .of_injective _ Uuid.toFin_injective

instance : Finite NodeId :=
  .of_injective NodeId.uuid fun a b h => by rwa [NodeId.mk.injEq]

instance : Finite ConnectorId :=
  .of_injective ConnectorId.uuid fun a b h => by rwa [ConnectorId.mk.injEq]

/-- What separates some of finitely many items can be made to separate all. -/
theorem exists_injective_of_injOn {α : Type} [Finite α] {f : α → α} {s : Set α}
    (h : s.InjOn f) : ∃ g : α → α, Function.Injective g ∧ ∀ a ∈ s, g a = f a := by
  classical
  have := Fintype.ofFinite α
  refine ⟨(Equiv.Set.imageOfInjOn f s h).extendSubtype, Equiv.injective _, fun a ha => ?_⟩
  exact Equiv.extendSubtype_apply_of_mem _ a ha

/-- The nodes that a content refers to. -/
def Content.nodeIds : Content → List NodeId
  | .choice choices => choices.filterMap Choice.next
  | _ => []

/-- The identity of a node, and those of the nodes that it refers to. -/
def Node.nodeIds (n : Node) : List NodeId :=
  n.id :: (n.previous.toList ++ n.next.toList ++ n.content.nodeIds)

/-- The identities of nodes that are used in a scene. -/
def Scene.nodeIds (s : Scene) : List NodeId := s.nodes.flatMap Node.nodeIds

/-- The identities of connectors that are used in a scene. -/
def Scene.connectorIds (s : Scene) : List ConnectorId :=
  s.connectors.map Connector.id ++ s.connections.flatMap fun c => [c.source, c.target]

/-- No two identities become one that are used in a project. -/
structure Renaming.Separates (r : Renaming) (p : Project) : Prop where
  node : {id | id ∈ p.scenes.flatMap Scene.nodeIds}.InjOn r.node
  connector : {id | id ∈ p.scenes.flatMap Scene.connectorIds}.InjOn r.connector

section
variable {r q : Renaming}

theorem Content.rename_congr {c : Content} (h : ∀ id ∈ c.nodeIds, r.node id = q.node id) :
    c.rename r = c.rename q := by
  cases c with
  | choice choices =>
    refine congrArg Content.choice (List.map_congr_left fun c hc => ?_)
    have hnext : c.next.map r.node = c.next.map q.node :=
      Option.map_congr fun id hid => h id (List.mem_filterMap.2 ⟨c, hc, hid⟩)
    rw [Choice.rename, hnext]
    rfl
  | _ => rfl

theorem Connector.rename_congr {xs : List Connector}
    (h : ∀ x ∈ xs, r.connector x.id = q.connector x.id) : xs.map (rename r) = xs.map (rename q) :=
  List.map_congr_left fun x hx => by rw [rename, rename, h x hx]

theorem Node.rename_congr {n : Node} (hn : ∀ id ∈ n.nodeIds, r.node id = q.node id)
    (hc : ∀ x ∈ n.connectors, r.connector x.id = q.connector x.id) : n.rename r = n.rename q := by
  obtain ⟨hid, hprevious, hnext, hcontent⟩ : r.node n.id = q.node n.id ∧
      (∀ id ∈ n.previous, r.node id = q.node id) ∧ (∀ id ∈ n.next, r.node id = q.node id) ∧
      ∀ id ∈ n.content.nodeIds, r.node id = q.node id := by
    simpa [nodeIds, or_imp, forall_and, and_assoc] using hn
  obtain ⟨hin, hout⟩ := List.forall_mem_append.1 hc
  rw [rename, rename, hid, Option.map_congr hprevious, Option.map_congr hnext,
    Connector.rename_congr hin, Connector.rename_congr hout, Content.rename_congr hcontent]

theorem Scene.rename_congr {s : Scene} (hn : ∀ id ∈ s.nodeIds, r.node id = q.node id)
    (hc : ∀ id ∈ s.connectorIds, r.connector id = q.connector id) : s.rename r = s.rename q := by
  obtain ⟨hconnectors, hconnections⟩ := List.forall_mem_append.1 hc
  have hnodes : s.nodes.map (Node.rename r) = s.nodes.map (Node.rename q) := by
    refine List.map_congr_left fun n hmem => Node.rename_congr (fun id hid => ?_) fun x hx => ?_
    · exact hn id (List.mem_flatMap.2 ⟨n, hmem, hid⟩)
    · exact hconnectors _ (List.mem_map_of_mem (mem_connectors.2 ⟨n, hmem, hx⟩))
  have hlinks : s.connections.map (Connection.rename r) =
      s.connections.map (Connection.rename q) := by
    refine List.map_congr_left fun c hmem => ?_
    have hends : ∀ id ∈ [c.source, c.target], r.connector id = q.connector id := fun id hid =>
      hconnections id (List.mem_flatMap.2 ⟨c, hmem, hid⟩)
    rw [Connection.rename, Connection.rename, hends c.source (by simp), hends c.target (by simp)]
  rw [rename, rename, hnodes, hlinks]

theorem Project.rename_congr {p : Project}
    (hn : ∀ id ∈ p.scenes.flatMap Scene.nodeIds, r.node id = q.node id)
    (hc : ∀ id ∈ p.scenes.flatMap Scene.connectorIds, r.connector id = q.connector id) :
    p.rename r = p.rename q := by
  have hscenes : p.scenes.map (Scene.rename r) = p.scenes.map (Scene.rename q) := by
    refine List.map_congr_left fun s hmem => Scene.rename_congr (fun id hid => ?_) fun id hid => ?_
    · exact hn id (List.mem_flatMap.2 ⟨s, hmem, hid⟩)
    · exact hc id (List.mem_flatMap.2 ⟨s, hmem, hid⟩)
  rw [rename, rename, hscenes]

/-- A renaming that separates what is used does what one does that separates all. -/
theorem Renaming.Separates.exists_injective {p : Project} (h : r.Separates p) :
    ∃ q : Renaming, q.Injective ∧ p.rename q = p.rename r ∧
      ∀ id ∈ p.scenes.flatMap Scene.nodeIds, q.node id = r.node id := by
  obtain ⟨f, hf, hnode⟩ := exists_injective_of_injOn h.node
  obtain ⟨g, hg, hconnector⟩ := exists_injective_of_injOn h.connector
  exact ⟨⟨f, g⟩, ⟨hf, hg⟩, Project.rename_congr hnode hconnector, hnode⟩

end

end VisualNovel
