/-
  Playback keeps to the scenes of the project and to their nodes.

  * `Beat.node?` and `Cursor.nodes` are the nodes that are named in what happens and in
    what is waited with;
  * `Turn.Confined`: a session plays a scene of the project, and what it has to go on with
    is about nodes of that scene;
  * `Playback.confined_invariant`: that is so at all times.
-/
import VisualNovel.Proofs.Playback.History

namespace VisualNovel

/-- The node at which a chain of nodes ends, if it is one of them. -/
def ChainEnd.node? : ChainEnd → Option NodeId
  | deadEnd node | revisited node => some node
  | noEntry | missingScene _ => none

/-- The node that is named in what happens. -/
def Beat.node? : Beat → Option NodeId
  | ran id => some id
  | told (.chainEnded reason) => reason.node?
  | _ => none

/-- The nodes that a wait may go on with. -/
def Cursor.nodes : Cursor → List NodeId
  | none => []
  | atNode node => [node]
  | fading node _ _ next => node :: next.toList
  | line l => l.node :: l.next.toList
  | choosing node targets => node :: targets.flatMap Option.toList

/-- Whether a node of an identity is in a scene. -/
def Scene.Has (s : Scene) (id : NodeId) : Prop := id ∈ s.nodes.map Node.id

/-- Whether a node of an identity is in a scene of the project. -/
def Project.Has (p : Project) (id : NodeId) : Prop := ∃ s ∈ p.scenes, s.Has id

/-- A turn in a scene of the project, and about nodes of that scene. -/
inductive Turn.Confined (p : Project) : Turn → Prop where
  | run {s : Session} {id : NodeId} (scene : s.scene ∈ p.scenes) (node : s.scene.Has id) :
    Confined p (.run s id)
  | rest {s : Session} {cursor : Cursor} {suspension : Suspension} (scene : s.scene ∈ p.scenes)
    (nodes : ∀ id ∈ cursor.nodes, s.scene.Has id) : Confined p (.rest (some s) cursor suspension)
  | idle : Confined p (.rest none .none .idle)
  | fail {s : Session} {e : PlaybackError} (scene : s.scene ∈ p.scenes)
    (node : ∀ id ∈ e.node?, s.scene.Has id) : Confined p (.fail s e)

/-- A piece of playback that names nodes of the project only. -/
structure Piece.Confined (p : Project) (piece : Piece) : Prop where
  beats : ∀ b ∈ piece.beats, ∀ id ∈ b.node?, p.Has id
  turn : piece.turn.Confined p

namespace Piece.Confined
variable {p : Project} {piece : Piece} {bs : List Beat}

theorem after (h : piece.Confined p) (hb : ∀ b ∈ bs, ∀ id ∈ b.node?, p.Has id) :
    (piece.after bs).Confined p :=
  ⟨List.forall_mem_append.2 ⟨hb, h.beats⟩, h.turn⟩

/-- What names no node may happen before. -/
theorem after_told (h : piece.Confined p) (hb : ∀ b ∈ bs, b.node? = none) :
    (piece.after bs).Confined p :=
  h.after fun b hb' id hid => by simp [hb b hb'] at hid

end Piece.Confined

namespace Engine
variable {st : Staging} {p : Project} {s : Session}

theorem enterScene_confined (h : s.scene ∈ p.scenes) : (enterScene s).Confined p := by
  rcases enterScene_outcome s with ⟨-, hfail⟩ | ⟨-, ⟨-, hrest⟩ | ⟨n, hn, hrun⟩⟩
  · rw [hfail]
    exact ⟨nofun, .fail h nofun⟩
  · rw [hrest]
    exact ⟨by simp [Beat.node?, ChainEnd.node?], .rest h nofun⟩
  · rw [hrun]
    have hmem : s.scene.Has n.id := List.mem_map_of_mem (List.mem_of_find?_eq_some hn)
    exact ⟨by simp [Beat.node?], .run h hmem⟩

theorem leave_confined (h : s.scene ∈ p.scenes) {node : NodeId} {next : Option NodeId}
    (hnode : s.scene.Has node) (hnext : ∀ id ∈ next, s.scene.Has id) :
    (leave s node next).Confined p := by
  rcases leave_outcome s node next with ⟨reason, hrest, hreason⟩ | ⟨n, rfl, -, hrun⟩
  · have hnamed : ∀ id ∈ reason.node?, s.scene.Has id := by
      rcases hreason with ⟨-, rfl⟩ | ⟨n, -, rfl, rfl⟩
      · rintro _ ⟨⟩
        exact hnode
      · exact hnext
    rw [hrest]
    refine ⟨fun b hb id hid => ⟨s.scene, h, ?_⟩, .rest h nofun⟩
    rw [List.mem_singleton.1 hb] at hid
    exact hnamed id hid
  · rw [hrun]
    exact ⟨nofun, .run h (hnext n rfl)⟩

theorem reveal_confined (h : s.scene ∈ p.scenes) {l : LineCursor} (hnode : s.scene.Has l.node)
    (hnext : ∀ id ∈ l.next, s.scene.Has id) : (reveal st s l).Confined p := by
  have hline : ∀ id ∈ (Cursor.line l).nodes, s.scene.Has id := by
    simpa [Cursor.nodes, hnode] using hnext
  rcases reveal_outcome st s l with ⟨-, hshow⟩ | ⟨-, text, htype⟩
  · rw [hshow]
    exact ⟨by simp [Beat.node?], .rest h hline⟩
  · rw [htype]
    exact ⟨by simp [Beat.node?], .rest h hline⟩

theorem beginLine_confined (h : s.scene ∈ p.scenes) {node : NodeId} {d : Dialogue} {l : Line}
    {rest : List Line} {next : Option NodeId} (hnode : s.scene.Has node)
    (hnext : ∀ id ∈ next, s.scene.Has id) : (beginLine st s node d l rest next).Confined p := by
  unfold beginLine
  refine (reveal_confined h hnode hnext).after_told fun b hb => ?_
  obtain ⟨i, hi, rfl⟩ := List.mem_map.1 hb
  cases cues_of_mem hi with
  | sprite | voice => rfl

/-- What a node does before it leads on names no node, and the scene stays. -/
theorem Passes.confined {t : Session} {told : List Beat} (h : Passes s told t) :
    t.scene = s.scene ∧ ∀ b ∈ told, b.node? = none := by
  cases h with
  | writes => exact ⟨rfl, nofun⟩
  | shows character =>
    refine ⟨?_, by simp [Beat.node?]⟩
    unfold Session.showCharacter
    split <;> rfl
  | hides => exact ⟨rfl, by simp [Beat.node?]⟩

theorem step_confined {id : NodeId} (h : s.scene ∈ st.project.scenes) (hid : s.scene.Has id) :
    (step st s id).Confined st.project := by
  obtain ⟨piece, hacts, hstep⟩ := step_acts st s id
  rw [hstep]
  have hran : ∀ b ∈ [Beat.ran id], ∀ i ∈ b.node?, st.project.Has i := by
    simpa [Beat.node?] using ⟨s.scene, h, hid⟩
  refine Piece.Confined.after ?_ hran
  cases hacts with
  | leaves passed leads =>
    obtain ⟨hscene, htold⟩ := passed.confined
    refine (leave_confined ?_ ?_ ?_).after_told htold
    all_goals rwa [hscene]
  | @fades path fade next leads =>
    refine ⟨nofun, .rest h fun i hi => ?_⟩
    rcases List.mem_cons.1 hi with rfl | hi
    · exact hid
    · exact leads i (Option.mem_toList.1 hi)
  | speaks d l rest leads => exact beginLine_confined h hid leads
  | offers same leads =>
    refine ⟨by simp [Beat.node?], .rest h fun i hi => ?_⟩
    rcases List.mem_cons.1 hi with rfl | hi
    · exact hid
    · obtain ⟨next, hnext, hi⟩ := List.mem_flatMap.1 hi
      exact leads next hnext i (Option.mem_toList.1 hi)
  | fails names =>
    refine ⟨nofun, .fail h fun i hi => ?_⟩
    rw [names] at hi
    cases hi
    exact hid
  | restarts => exact (enterScene_confined (by exact h)).after_told (by simp [Beat.node?])
  | ends => exact ⟨by simp [Beat.node?], .idle⟩
  | switches name fade found =>
    exact (enterScene_confined (by exact found)).after_told (by simp [Beat.node?])
  | strays => exact ⟨by simp [Beat.node?, ChainEnd.node?], .rest h nofun⟩

end Engine

namespace Playback
variable {st : Staging}

theorem Answers.confined {p : Project} {s : Session} {cursor : Cursor} {w : Wake} {piece : Piece}
    (ha : Answers st s cursor w piece) (h : s.scene ∈ p.scenes)
    (hc : ∀ id ∈ cursor.nodes, s.scene.Has id) : piece.Confined p := by
  cases ha with
  | appears node path fade next =>
    refine (Engine.leave_confined h (hc node List.mem_cons_self) fun id hid => ?_).after_told
      (by simp [Beat.node?])
    exact hc id (List.mem_cons_of_mem _ (Option.mem_toList.2 hid))
  | chooses node target =>
    refine Engine.leave_confined (by exact h) (hc node List.mem_cons_self) fun id hid => ?_
    exact hc id (List.mem_cons_of_mem _ (List.mem_flatMap.2
      ⟨_, List.mem_of_getElem? target, Option.mem_toList.2 hid⟩))
  | @types l | @completes l | @leaves l | @speaks l =>
    have hnode := hc l.node List.mem_cons_self
    have hnext : ∀ id ∈ l.next, s.scene.Has id := fun id hid =>
      hc id (List.mem_cons_of_mem _ (Option.mem_toList.2 hid))
    first
    | exact Engine.reveal_confined h hnode hnext
    | exact Engine.leave_confined h hnode hnext
    | exact Engine.beginLine_confined h hnode hnext

/-- Playback keeps to the nodes of the scenes of the project, at all times. -/
theorem confined_invariant (st : Staging) :
    Invariant st fun bs t => (∀ b ∈ bs, ∀ id ∈ b.node?, st.project.Has id) ∧
      t.Confined st.project where
  new := ⟨nofun, .idle⟩
  opens bs s h hs := by
    have hscene : s.scene ∈ st.project.scenes := by
      obtain ⟨scene, hscene, rfl⟩ := Option.map_eq_some_iff.1 hs
      exact List.mem_of_find?_eq_some hscene
    have hconfined := Engine.enterScene_confined hscene
    exact ⟨List.forall_mem_append.2 ⟨h.1, hconfined.beats⟩, hconfined.turn⟩
  steps bs s id h := by
    cases h.2 with
    | run scene node =>
      have hconfined := Engine.step_confined scene node
      exact ⟨List.forall_mem_append.2 ⟨h.1, hconfined.beats⟩, hconfined.turn⟩
  wakes bs s cursor reason timeout w piece h _ hp := by
    cases h.2 with
    | rest scene nodes =>
      have hconfined := (wake?_answers hp).confined (s := s.noteWait) scene nodes
      exact ⟨List.forall_mem_append.2 ⟨h.1, hconfined.beats⟩, hconfined.turn⟩
  stops bs t h _ := by
    refine ⟨List.forall_mem_append.2 ⟨h.1, ?_⟩, .idle⟩
    simp [Beat.node?]
  rests bs cursor suspension h := by
    obtain ⟨-, ⟨⟩⟩ := h
    exact ⟨rfl, rfl⟩

end Playback

end VisualNovel
