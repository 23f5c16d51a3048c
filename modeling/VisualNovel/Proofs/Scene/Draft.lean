/-
  Editing write by write.  An operation of `Scene` that fails has no scene to return.
  Here the operations work on a draft instead: they write to it one thing after the other,
  they look things up in what was written so far, where a look-up may fail, and whatever
  stops them leaves the draft as it is at that moment.

  * `Draft.takeAt` and `Draft.lower` are the partial functions of lists and numbers,
    `Draft.connect`, `Draft.disconnect` and `Draft.clear` the operations on connections;
  * `Draft.Mirrors`: an action does to a draft what an operation does to its scene, and
    where the operation fails nothing was written.
-/
import VisualNovel.Proofs.Scene.Integrity

namespace VisualNovel

/-- A scene that is being edited, with the number of writes so far. -/
structure Draft where
  scene : Scene
  writes : Nat := 0

/-- What stops an operation. -/
inductive Halt where
  | refused (e : SceneError)
  /-- A position past the end of a list. -/
  | outOfRange (index size : Nat)
  /-- A number below zero. -/
  | underflow

/-- The first connector of an identity. -/
def Scene.connector? (s : Scene) (c : ConnectorId) : Option Connector :=
  s.connectors.find? fun x => decide (x.id = c)

namespace Scene

theorem disconnectAll_of_none {s : Scene} {id : ConnectorId} (h : s.disconnect? id = none) :
    s.disconnectAll id = s := by
  unfold disconnectAll
  split
  · rfl
  · rename_i h'
    cases h.symm.trans h'

theorem disconnectAll_of_some {s s' : Scene} {id : ConnectorId} {c : Connection}
    (h : s.disconnect? id = some (s', c)) : s.disconnectAll id = s'.disconnectAll id := by
  rw [disconnectAll]
  split
  · rename_i h'
    cases h.symm.trans h'
  · rename_i h'
    cases h.symm.trans h'
    rfl

end Scene

namespace Draft

/-- What an operation does to a draft, also when it is stopped. -/
abbrev Action := EStateM Halt Draft

/-- The scene as it is written so far. -/
def current : Action Scene := return (← get).scene

def write (f : Scene → Scene) : Action Unit := modify fun d => ⟨f d.scene, d.writes + 1⟩

def refuse {α : Type} (e : SceneError) : Action α := throw (.refused e)

/-- Takes the item at a position out of a list that must have one there. -/
def takeAt {α : Type} (xs : List α) (i : Nat) : Action (α × List α) :=
  match xs[i]? with
  | some x => return (x, xs.eraseIdx i)
  | none => throw (.outOfRange i xs.length)

/-- The number before a number that must not be zero. -/
def lower : Nat → Action Nat
  | 0 => throw .underflow
  | n + 1 => return n

/-- The node of an identity, which must be there. -/
def demand (id : NodeId) : Action Node := do
  match (← current).node? id with
  | some n => return n
  | none => refuse (.nodeNotFound id)

/-- Changes the node of an identity, which must be there. -/
def change (id : NodeId) (f : Node → Node) : Action Unit := do
  let _ ← demand id
  write fun s => s.modifyNode id f

/-- Changes the node that something was located at, if it was and the node is there. -/
def changeLocated (found : Option (NodeId × Connector)) (f : Node → Node) : Action Unit := do
  match found with
  | some (id, _) =>
    match (← current).node? id with
    | some _ => write fun s => s.modifyNode id f
    | none => return
  | none => return

def locate (c : ConnectorId) : Action (NodeId × Connector) := do
  match (← current).locate? c with
  | some r => return r
  | none => refuse (.connectorNotFound c)

/-- Checks that the connector of an identity is free. -/
def checkFree (c : ConnectorId) : Action Unit := do
  match (← current).connector? c with
  | some x => if x.connected then refuse (.alreadyConnected c) else return
  | none => return

/-! ## The operations -/

/-- Joins an output of one node to an input of another, if both are free. -/
def join (source : ConnectorId) (sourceNode : NodeId) (target : ConnectorId)
    (targetNode : NodeId) : Action Connection := do
  checkFree source
  checkFree target
  write fun s => s.mark source true
  write fun s => s.mark target true
  change targetNode fun n => { n with previous := some sourceNode }
  change sourceNode (Node.refer source (some targetNode))
  write fun s => { s with connections := s.connections ++ [⟨source, target⟩] }
  return ⟨source, target⟩

def connect (a b : ConnectorId) : Action Connection := do
  let (aNode, aEnd) ← locate a
  let (bNode, bEnd) ← locate b
  if aEnd.flow = bEnd.flow then refuse (.sameFlow aEnd.flow)
  else if aEnd.flow = .output then join a aNode b bNode
  else join b bNode a aNode

def disconnect (id : ConnectorId) : Action (Option Connection) := do
  match (← current).connections.findIdx? fun c => c.touches id with
  | none => return none
  | some i =>
    let (c, connections) ← takeAt (← current).connections i
    write fun s => { s with connections }
    let sourceNode := (← current).locate? c.source
    let targetNode := (← current).locate? c.target
    changeLocated targetNode fun n => { n with previous := none }
    changeLocated sourceNode (Node.refer c.source none)
    write fun s => s.refresh c.source
    write fun s => s.refresh c.target
    return some c

/-! ## How actions end -/

section
variable {α β : Type} {x : Action α} {f : α → Action β} {d d' : Draft} {a : α} {b : β}

theorem bind_of_ok (h : x d = .ok a d') : (x >>= f) d = f a d' := by
  simp only [bind, EStateM.bind, h]

theorem bind_of_error {e : Halt} (h : x d = .error e d') : (x >>= f) d = .error e d' := by
  simp only [bind, EStateM.bind, h]

/-- An action returns a value and leaves a scene, after however many writes. -/
def Ends (x : Action α) (d : Draft) (a : α) (s : Scene) : Prop := ∃ n, x d = .ok a ⟨s, n⟩

theorem Ends.of_eq (h : x d = .ok a d') : Ends x d a d'.scene := ⟨_, h⟩

theorem Ends.congr {s t : Scene} (h : Ends x d a s) (hst : s = t) : Ends x d a t := hst ▸ h

theorem Ends.bind {s t : Scene} (h : Ends x d a s) (hf : ∀ n, Ends (f a) ⟨s, n⟩ b t) :
    Ends (x >>= f) d b t := by
  obtain ⟨n, hn⟩ := h
  obtain ⟨m, hm⟩ := hf n
  exact ⟨m, (bind_of_ok hn).trans hm⟩

/-- What was only looked up leaves the draft to what follows. -/
theorem Ends.bind_eq {s : Scene} (h : x d = .ok a d) (hf : Ends (f a) d b s) :
    Ends (x >>= f) d b s := by
  obtain ⟨m, hm⟩ := hf
  exact ⟨m, (bind_of_ok h).trans hm⟩

end

theorem ends_write (f : Scene → Scene) (d : Draft) : Ends (write f) d () (f d.scene) := ⟨_, rfl⟩

theorem ends_pure {α : Type} (a : α) (d : Draft) : Ends (pure a) d a d.scene := ⟨_, rfl⟩

theorem current_bind {β : Type} (f : Scene → Action β) (d : Draft) :
    (current >>= f) d = f d.scene d := rfl

section
variable {d : Draft} {id : NodeId} {n : Node} {c : ConnectorId}

theorem demand_some (h : d.scene.node? id = some n) : demand id d = .ok n d := by
  rw [demand, current_bind, h]
  rfl

theorem demand_none (h : d.scene.node? id = none) :
    demand id d = .error (.refused (.nodeNotFound id)) d := by
  rw [demand, current_bind, h]
  rfl

theorem ends_change (h : d.scene.node? id = some n) (f : Node → Node) :
    Ends (change id f) d () (d.scene.modifyNode id f) :=
  Ends.bind_eq (demand_some h) (ends_write ..)

theorem locate_some {r : NodeId × Connector} (h : d.scene.locate? c = some r) :
    locate c d = .ok r d := by
  rw [locate, current_bind, h]
  rfl

theorem locate_none (h : d.scene.locate? c = none) :
    locate c d = .error (.refused (.connectorNotFound c)) d := by
  rw [locate, current_bind, h]
  rfl

theorem checkFree_free {x : Connector} (h : d.scene.connector? c = some x)
    (hx : x.connected = false) : checkFree c d = .ok () d := by
  rw [checkFree, current_bind, h]
  simp only [hx, Bool.false_eq_true, if_false]
  rfl

theorem checkFree_connected {x : Connector} (h : d.scene.connector? c = some x)
    (hx : x.connected = true) : checkFree c d = .error (.refused (.alreadyConnected c)) d := by
  rw [checkFree, current_bind, h]
  simp only [hx, if_true]
  rfl

end

theorem takeAt_findIdx? {α : Type} {xs : List α} {p : α → Bool} {x : α}
    (h : xs.find? p = some x) :
    ∃ i, xs.findIdx? p = some i ∧ ∀ d, takeAt xs i d = .ok (x, xs.eraseP p) d := by
  obtain ⟨hp, i, hi, hx, hbefore⟩ := List.find?_eq_some_iff_getElem.1 h
  have hidx : xs.findIdx? p = some i := by
    refine List.findIdx?_eq_some_iff_getElem.2 ⟨hi, by rwa [hx], fun j hj => ?_⟩
    simpa using hbefore j hj
  refine ⟨i, hidx, fun d => ?_⟩
  rw [takeAt, List.getElem?_eq_getElem hi, hx, List.eraseP_eq_eraseIdx, hidx]
  rfl

theorem takeAt_some {α : Type} {xs : List α} {i : Nat} {x : α} (h : xs[i]? = some x) (d : Draft) :
    takeAt xs i d = .ok (x, xs.eraseIdx i) d := by
  rw [takeAt, h]
  rfl

/-! ## The operations on drafts and on scenes -/

/-- An action does to a draft what an operation does to its scene: it ends as the operation
    does, or it is stopped by the same error with the draft as it was. -/
inductive Mirrors {α : Type} (x : Action α) (d : Draft) : Except SceneError (Scene × α) → Prop
  | ends {s : Scene} {a : α} (h : Ends x d a s) : Mirrors x d (.ok (s, a))
  | stops {e : SceneError} (h : x d = .error (.refused e) d) : Mirrors x d (.error e)

section
variable {α β : Type} {x : Action α} {f : α → Action β} {d : Draft} {a : α}

theorem Mirrors.bind_eq {r : Except SceneError (Scene × β)} (h : x d = .ok a d)
    (hf : Mirrors (f a) d r) : Mirrors (x >>= f) d r := by
  cases hf with
  | ends hf => exact .ends (Ends.bind_eq h hf)
  | stops hf => exact .stops ((bind_of_ok h).trans hf)

theorem Mirrors.bind_stops {e : SceneError} (h : x d = .error (.refused e) d) :
    Mirrors (x >>= f) d (.error e) := .stops (bind_of_error h)

/-- A look-up of a node that an operation begins with. -/
theorem Mirrors.demand {id : NodeId} {f : Node → Action β}
    {r : Node → Except SceneError (Scene × β)} (hf : ∀ n, d.scene.node? id = some n →
      Mirrors (f n) d (r n)) :
    Mirrors (Draft.demand id >>= f) d (match d.scene.node? id with
      | none => .error (.nodeNotFound id)
      | some n => r n) := by
  cases h : d.scene.node? id with
  | none => exact .bind_stops (demand_none h)
  | some n => exact .bind_eq (demand_some h) (hf n h)

end

theorem locate?_eq_connector? {s : Scene} {c : ConnectorId} {id : NodeId} {x : Connector}
    (h : s.locate? c = some (id, x)) :
    s.connector? c = some x ∧ ∃ n, s.node? id = some n := by
  obtain ⟨as, n, bs, hs, hn, has⟩ := List.findSome?_eq_some_iff.1 h
  obtain ⟨y, hy, heq⟩ := Option.map_eq_some_iff.1 hn
  obtain ⟨rfl, rfl⟩ := Prod.mk.inj heq
  constructor
  · rw [Scene.connector?, Scene.connectors, List.find?_flatMap]
    refine List.findSome?_eq_some_iff.2 ⟨as, n, bs, hs, hy, fun m hm => ?_⟩
    simpa [Node.connector?] using has m hm
  · have hmem : n ∈ s.nodes := by simp [hs]
    exact Option.isSome_iff_exists.1 (List.find?_isSome.2 ⟨n, hmem, by simp⟩)

/-- Nodes are joined if both ends are free; the output is looked at first. -/
theorem mirrors_join {d : Draft} {source target : ConnectorId} {sourceNode targetNode : NodeId}
    {x y : Connector} (hx : d.scene.locate? source = some (sourceNode, x))
    (hy : d.scene.locate? target = some (targetNode, y)) :
    Mirrors (join source sourceNode target targetNode) d
      (if x.connected then .error (.alreadyConnected source)
      else if y.connected then .error (.alreadyConnected target)
      else .ok (d.scene.join source sourceNode target targetNode, ⟨source, target⟩)) := by
  obtain ⟨hxs, m, hm⟩ := locate?_eq_connector? hx
  obtain ⟨hys, n, hn⟩ := locate?_eq_connector? hy
  split_ifs with hx' hy'
  · exact .bind_stops (checkFree_connected hxs hx')
  · exact .bind_eq (checkFree_free hxs (by simpa using hx'))
      (.bind_stops (checkFree_connected hys hy'))
  · refine .bind_eq (checkFree_free hxs (by simpa using hx')) ?_
    refine .bind_eq (checkFree_free hys (by simpa using hy')) ?_
    -- the nodes are looked up again, in scenes of the same shapes
    have hmarks : d.scene.shapes = ((d.scene.mark source true).mark target true).shapes := by simp
    obtain ⟨n', hn', -⟩ := Scene.node?_congr hmarks hn
    have hrelinked : d.scene.shapes = (((d.scene.mark source true).mark target true).modifyNode
        targetNode fun n => { n with previous := some sourceNode }).shapes := by
      refine hmarks.trans (Eq.symm (Scene.shapes_modifyNode ?_))
      exact fun _ => rfl
    obtain ⟨m', hm', -⟩ := Scene.node?_congr hrelinked hm
    refine .ends ((ends_write ..).bind fun _ => (ends_write ..).bind fun _ => ?_)
    refine (ends_change hn' _).bind fun _ => (ends_change hm' _).bind fun _ => ?_
    exact (ends_write ..).bind fun _ => ends_pure ..

theorem mirrors_connect (d : Draft) (a b : ConnectorId) :
    Mirrors (connect a b) d (d.scene.connect a b) := by
  unfold connect Scene.connect
  cases ha : d.scene.locate? a with
  | none => exact .bind_stops (locate_none ha)
  | some r =>
    refine .bind_eq (locate_some ha) ?_
    cases hb : d.scene.locate? b with
    | none => exact .bind_stops (locate_none hb)
    | some r' =>
      refine .bind_eq (locate_some hb) ?_
      dsimp only
      by_cases hne : r.2.flow = r'.2.flow
      · rw [if_pos hne, if_pos hne]
        exact .stops rfl
      rw [if_neg hne, if_neg hne]
      by_cases hout : r.2.flow = .output
      · rw [if_pos hout, if_pos hout]
        exact mirrors_join ha hb
      · rw [if_neg hout, if_neg hout]
        exact mirrors_join hb ha

theorem modifyNode_of_none {s : Scene} {id : NodeId} (h : s.node? id = none) (f : Node → Node) :
    s.modifyNode id f = s := by
  rw [Scene.modifyNode, modifyFirst_eq_self fun n hn hid => absurd hid (List.find?_eq_none.1 h n hn)]

theorem ends_changeLocated (d : Draft) (found : Option (NodeId × Connector)) (f : Node → Node) :
    Ends (changeLocated found f) d () (match found with
      | some (n, _) => d.scene.modifyNode n f
      | none => d.scene) := by
  rcases found with _ | ⟨n, x⟩
  · exact ends_pure ..
  · dsimp only [changeLocated]
    unfold Ends
    rw [current_bind]
    cases h : d.scene.node? n with
    | some m => exact ends_write ..
    | none =>
      rw [modifyNode_of_none h]
      exact ends_pure ..

theorem disconnect_none {d : Draft} {id : ConnectorId} (h : d.scene.disconnect? id = none) :
    disconnect id d = .ok none d := by
  have hidx : (d.scene.connections.findIdx? fun c => c.touches id) = none :=
    List.findIdx?_eq_none_iff.2 (Scene.disconnect?_eq_none.1 h)
  rw [disconnect, current_bind, hidx]
  rfl

theorem ends_disconnect {d : Draft} {id : ConnectorId} {s : Scene} {c : Connection}
    (h : d.scene.disconnect? id = some (s, c)) : Ends (disconnect id) d (some c) s := by
  unfold Scene.disconnect? at h
  split at h
  · cases h
  · rename_i c' hc
    obtain ⟨rfl, rfl⟩ := Prod.mk.inj (Option.some.inj h)
    obtain ⟨i, hi, htake⟩ := takeAt_findIdx? hc
    unfold Ends
    rw [disconnect, current_bind, hi]
    refine Ends.bind_eq (a := d.scene) rfl ?_
    refine Ends.bind_eq (htake d) ?_
    refine (ends_write ..).bind fun _ => ?_
    refine Ends.bind_eq rfl (Ends.bind_eq rfl ?_)
    refine (ends_changeLocated ..).bind fun _ => (ends_changeLocated ..).bind fun _ => ?_
    refine (ends_write ..).bind fun _ => (ends_write ..).bind fun _ => ?_
    exact ends_pure ..

/-- There is nothing to undo, or a connection is undone; the action is never stopped. -/
theorem disconnect_cases (id : ConnectorId) (d : Draft) :
    (disconnect id d = .ok none d ∧ d.scene.disconnect? id = none) ∨
    ∃ s c n, disconnect id d = .ok (some c) ⟨s, n⟩ ∧ d.scene.disconnect? id = some (s, c) := by
  cases h : d.scene.disconnect? id with
  | none => exact .inl ⟨disconnect_none h, rfl⟩
  | some r =>
    obtain ⟨n, hn⟩ := ends_disconnect h
    exact .inr ⟨r.1, r.2, n, hn, rfl⟩

theorem length_disconnect {d d' : Draft} {id : ConnectorId} {c : Connection}
    (h : disconnect id d = .ok (some c) d') :
    d'.scene.connections.length < d.scene.connections.length := by
  rcases disconnect_cases id d with ⟨h', -⟩ | ⟨s, c', n, h', hd⟩
  · cases h'.symm.trans h
  · cases h'.symm.trans h
    exact Scene.length_disconnect? hd

/-- Undoes connections of a connector until there is none. -/
def clear (id : ConnectorId) (d : Draft) : EStateM.Result Halt Draft Unit :=
  match _h : disconnect id d with
  | .ok none d' => .ok () d'
  | .ok (some _) d' => clear id d'
  | .error e d' => .error e d'
termination_by d.scene.connections.length
decreasing_by exact length_disconnect _h

theorem ends_clear (id : ConnectorId) (d : Draft) :
    Ends (clear id) d () (d.scene.disconnectAll id) := by
  unfold Ends
  fun_induction clear id d with
  | case1 d d' h =>
    rcases disconnect_cases id d with ⟨h', hd⟩ | ⟨s, c, n, h', -⟩
    · cases h'.symm.trans h
      rw [Scene.disconnectAll_of_none hd]
      exact ⟨_, rfl⟩
    · cases h'.symm.trans h
  | case2 d c d' h ih =>
    rcases disconnect_cases id d with ⟨h', -⟩ | ⟨s, c, n, h', hd⟩
    · cases h'.symm.trans h
    · cases h'.symm.trans h
      rwa [Scene.disconnectAll_of_some hd]
  | case3 d e d' h =>
    rcases disconnect_cases id d with ⟨h', -⟩ | ⟨s, c, n, h', -⟩
    · cases h'.symm.trans h
    · cases h'.symm.trans h

/-- Undoes the connections of several connectors, one after the other. -/
def clearAll : List ConnectorId → Action Unit
  | [] => return
  | c :: cs => do
    clear c
    clearAll cs

theorem ends_clearAll (xs : List Connector) (d : Draft) :
    Ends (clearAll (xs.map Connector.id)) d ()
      (xs.foldl (fun s x => s.disconnectAll x.id) d.scene) := by
  induction xs generalizing d with
  | nil => exact ends_pure ..
  | cons x xs ih => exact (ends_clear ..).bind fun _ => ih _

def clearIfAny : Option ConnectorId → Action Unit
  | some c => clear c
  | none => return

theorem ends_clearIfAny (c : Option ConnectorId) (d : Draft) :
    Ends (clearIfAny c) d () (d.scene.freed c) := by
  cases c with
  | none => exact ends_pure ..
  | some c => exact ends_clear ..

end Draft

end VisualNovel
