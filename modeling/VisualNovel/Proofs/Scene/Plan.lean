/-
  Links between labelled nodes, before any of them is made.  A link asks for a port on each
  side: a label, and the position of a connector.

  * `Plan`: nodes under their labels; `Plan.connector?` finds the connector at a port, and
    `Plan.connector?_inj` says that it is at one port only;
  * `Plan.Admits`: the links that the nodes have room for;
  * `Link.fault?`: what is wrong with a link, given those before it.
-/
import VisualNovel.Proofs.Scene.Reference

namespace VisualNovel

/-! ## Ports -/

/-- The end of a connection at a connector of a flow. -/
def Connection.tip (c : Connection) : Flow → ConnectorId
  | .input => c.target
  | .output => c.source

/-- What a link asks for on one side: a label, and the position of a connector. -/
def Link.port (l : Link) : Flow → String × Nat
  | .input => (l.target, l.input)
  | .output => (l.source, l.output)

/-! ## Plans -/

/-- Nodes under their labels, in the order in which they were placed. -/
abbrev Plan := List (String × Node)

namespace Plan

/-- The nodes, with no connections. -/
def scene (p : Plan) : Scene := { name := "", nodes := p.map Prod.snd }

/-- The labels of the nodes. -/
def labels (p : Plan) : Labels := p.map fun q => (q.1, q.2.id)

/-- The connector at a port, if there is one. -/
def connector? (p : Plan) (flow : Flow) (port : String × Nat) : Option ConnectorId :=
  (p.lookup port.1).bind fun n => (n.side flow)[port.2]?.map Connector.id

/-- The links name labels of nodes and connectors that these have, and no two of them the same
    output or the same input. -/
structure Admits (p : Plan) (links : List Link) : Prop where
  fits : ∀ l ∈ links, ∀ flow, ∃ x, p.connector? flow (l.port flow) = some x
  apart : links.Pairwise fun e l => ∀ flow, e.port flow ≠ l.port flow

theorem mem_of_lookup {p : Plan} {label : String} {n : Node} (h : p.lookup label = some n) :
    (label, n) ∈ p := by
  obtain ⟨before, after, rfl, -⟩ := List.lookup_eq_some_iff.1 h
  exact List.mem_append_right _ List.mem_cons_self

theorem lookup_of_mem {p : Plan} (h : (p.map Prod.fst).Nodup) {q : String × Node} (hq : q ∈ p) :
    p.lookup q.1 = some q.2 := by
  cases hn : p.lookup q.1 with
  | none => simpa using List.lookup_eq_none_iff.1 hn q hq
  | some n => rw [← List.inj_on_of_nodup_map h (mem_of_lookup hn) hq rfl]

theorem lookup_labels (p : Plan) (label : String) :
    p.labels.lookup label = (p.lookup label).map Node.id := by
  induction p with
  | nil => rfl
  | cons q p ih =>
    change List.lookup label ((q.1, q.2.id) :: Plan.labels p) = _
    rw [List.lookup_cons, List.lookup_cons, ih]
    split <;> rfl

theorem mem_nodes {p : Plan} {label : String} {n : Node} (h : p.lookup label = some n) :
    n ∈ p.scene.nodes := List.mem_map.2 ⟨_, mem_of_lookup h, rfl⟩

theorem exists_of_connector? {p : Plan} {flow : Flow} {port : String × Nat} {x : ConnectorId}
    (h : p.connector? flow port = some x) :
    ∃ n, p.lookup port.1 = some n ∧ ((n.side flow).map Connector.id)[port.2]? = some x := by
  obtain ⟨n, hn, hx⟩ := Option.bind_eq_some_iff.1 h
  exact ⟨n, hn, by rw [List.getElem?_map, hx]⟩

/-- There is one port for each connector. -/
theorem connector?_inj {p : Plan} (hd : p.scene.Distinct) {flow : Flow} {a b : String × Nat}
    {x : ConnectorId} (ha : p.connector? flow a = some x) (hb : p.connector? flow b = some x) :
    a = b := by
  obtain ⟨m, hm, hmx⟩ := exists_of_connector? ha
  obtain ⟨n, hn, hnx⟩ := exists_of_connector? hb
  obtain ⟨y, hy, hyx⟩ := List.mem_map.1 (List.mem_of_getElem? hmx)
  obtain ⟨z, hz, hzx⟩ := List.mem_map.1 (List.mem_of_getElem? hnx)
  obtain rfl := hd.eq_of_connector (mem_nodes hm) (mem_nodes hn) (Node.side_subset hy)
    (Node.side_subset hz) (hyx.trans hzx.symm)
  have hnodes := hd.nodes
  rw [scene, List.map_map] at hnodes
  have hlabel := List.inj_on_of_nodup_map hnodes (mem_of_lookup hm) (mem_of_lookup hn) rfl
  obtain ⟨hlt, -⟩ := List.getElem?_eq_some_iff.1 hmx
  refine Prod.ext ?_ ?_
  · exact congrArg (fun q : String × Node => q.1) hlabel
  · exact (List.getElem?_inj hlt (hd.side (mem_nodes hm) flow)).1 (hmx.trans hnx.symm)

theorem admits_concat {p : Plan} {links : List Link} {l : Link} :
    p.Admits (links ++ [l]) ↔ p.Admits links ∧
      (∀ flow, ∃ x, p.connector? flow (l.port flow) = some x) ∧
      ∀ e ∈ links, ∀ flow, e.port flow ≠ l.port flow := by
  constructor
  · rintro ⟨hfits, hapart⟩
    obtain ⟨hlinks, -, hlast⟩ := List.pairwise_append.1 hapart
    exact ⟨⟨fun e he => hfits e (List.mem_append_left _ he), hlinks⟩,
      hfits l (List.mem_append_right _ List.mem_cons_self),
      fun e he => hlast e he l List.mem_cons_self⟩
  · rintro ⟨hlinks, hfits, hlast⟩
    refine ⟨fun e he => ?_, List.pairwise_append.2 ⟨hlinks.apart, List.pairwise_singleton _ _,
      fun e he l' hl' => List.mem_singleton.1 hl' ▸ hlast e he⟩⟩
    rcases List.mem_append.1 he with he | he
    · exact hlinks.fits e he
    · exact List.mem_singleton.1 he ▸ hfits

end Plan

namespace Link

/-- A connection joins the connectors that the link asks for. -/
def Joins (p : Plan) (l : Link) (c : Connection) : Prop :=
  ∀ flow, p.connector? flow (l.port flow) = some (c.tip flow)

/-- The first thing that is wrong with a link, given those before it. -/
def fault? (p : Plan) (earlier : List Link) (l : Link) : Option SceneError :=
  if (p.lookup l.source).isNone then some (.unknownLabel l.source)
  else if (p.lookup l.target).isNone then some (.unknownLabel l.target)
  else
    match p.connector? .output (l.port .output), p.connector? .input (l.port .input) with
    | none, _ => some (.positionOutOfRange l.source l.output)
    | some _, none => some (.positionOutOfRange l.target l.input)
    | some x, some y =>
      if ∃ e ∈ earlier, e.port .output = l.port .output then some (.alreadyConnected x)
      else if ∃ e ∈ earlier, e.port .input = l.port .input then some (.alreadyConnected y)
      else none

/-- Nothing is wrong with a link that asks for connectors that are there and that no link
    before it has asked for. -/
theorem fault?_eq_none {p : Plan} {earlier : List Link} {l : Link} :
    l.fault? p earlier = none ↔ (∀ flow, ∃ x, p.connector? flow (l.port flow) = some x) ∧
      ∀ e ∈ earlier, ∀ flow, e.port flow ≠ l.port flow := by
  constructor
  · intro h
    unfold fault? at h
    split at h
    · cases h
    split at h
    · cases h
    split at h
    · cases h
    · cases h
    rename_i x y hx hy
    split at h
    · cases h
    split at h
    · cases h
    rename_i houtput hinput
    constructor
    · intro flow
      cases flow with
      | input => exact ⟨y, hy⟩
      | output => exact ⟨x, hx⟩
    · intro e he flow heq
      cases flow with
      | input => exact hinput ⟨e, he, heq⟩
      | output => exact houtput ⟨e, he, heq⟩
  · rintro ⟨hfits, hfree⟩
    obtain ⟨x, hx⟩ := hfits .output
    obtain ⟨y, hy⟩ := hfits .input
    obtain ⟨m, hm, -⟩ := Plan.exists_of_connector? hx
    obtain ⟨k, hk, -⟩ := Plan.exists_of_connector? hy
    have houtput : ¬∃ e ∈ earlier, e.port .output = l.port .output :=
      fun ⟨e, he, heq⟩ => hfree e he .output heq
    have hinput : ¬∃ e ∈ earlier, e.port .input = l.port .input :=
      fun ⟨e, he, heq⟩ => hfree e he .input heq
    change p.lookup l.source = some m at hm
    change p.lookup l.target = some k at hk
    simp [fault?, hm, hk, hx, hy, houtput, hinput]

end Link

end VisualNovel
