/-
  What a piece of playback does to its session, as far as the scenes are concerned that
  are entered.

  * `Piece.Stays`: a piece of playback that enters no scene, with the nodes that it may
    lead to;
  * `Engine.enterScene_cases`: what becomes of the entry of a scene;
  * `Engine.step_cases`: a node stays in its scene, after it wrote to the boards at
    most, or it enters a scene.
-/
import VisualNovel.Proofs.Playback.Act

namespace VisualNovel

/-- A later session with the same scene, boards and entries. -/
structure Session.Keeps (s t : Session) : Prop where
  scene : t.scene = s.scene
  boards : t.boards = s.boards
  entries : t.entries = s.entries

/-- A turn that stays in the scene: it visits a new node, or it comes to rest, or it
    fails for a reason other than want of progress. -/
inductive Turn.Stays (leads : NodeId → Prop) (s : Session) : Turn → Prop where
  | run {t : Session} {id : NodeId} (kept : s.Keeps t) (visited : t.visited = s.visited ++ [id])
    (new : id ∉ s.visited) (may : leads id) : Stays leads s (.run t id)
  | rest {t : Option Session} {cursor : Cursor} {suspension : Suspension}
    (kept : ∀ u ∈ t, s.Keeps u) : Stays leads s (.rest t cursor suspension)
  | fail {t : Session} {e : PlaybackError} (kept : s.Keeps t)
    (reason : ∀ scene, e ≠ .noProgress scene) : Stays leads s (.fail t e)

/-- A piece of playback that enters no scene. -/
structure Piece.Stays (leads : NodeId → Prop) (s : Session) (p : Piece) : Prop where
  entrances : p.entrances = []
  turn : p.turn.Stays leads s

namespace Session

theorem Keeps.refl (s : Session) : s.Keeps s := ⟨rfl, rfl, rfl⟩

theorem Keeps.trans {s t u : Session} (h : s.Keeps t) (h' : t.Keeps u) : s.Keeps u :=
  ⟨h'.scene.trans h.scene, h'.boards.trans h.boards, h'.entries.trans h.entries⟩

end Session

namespace Piece.Stays
variable {leads : NodeId → Prop} {s t : Session} {p : Piece}

theorem after (h : p.Stays leads s) {told : List Beat} (ht : Beat.entrances told = []) :
    (p.after told).Stays leads s :=
  ⟨by rw [entrances_after, ht, h.entrances]; rfl, h.turn⟩

/-- What stays after another session that was kept stays after that one as well. -/
theorem of_keeps (hk : s.Keeps t) (hv : t.visited = s.visited) (h : p.Stays leads t) :
    p.Stays leads s := by
  obtain ⟨entrances, turn⟩ := h
  refine ⟨entrances, ?_⟩
  revert turn
  generalize p.turn = turn
  intro h
  cases h with
  | run kept visited new may => exact .run (hk.trans kept) (hv ▸ visited) (hv ▸ new) may
  | rest kept => exact .rest fun u hu => hk.trans (kept u hu)
  | fail kept reason => exact .fail (hk.trans kept) reason

end Piece.Stays

namespace Engine

/-- The entry of a scene is refused, or it is recorded; and then the scene has a way
    in, at which playback goes on, or not. -/
theorem enterScene_cases (s : Session) :
    (s.isRepeated = true ∧ enterScene s = { turn := .fail s (.noProgress s.scene.name) }) ∨
    s.isRepeated = false ∧ (enterScene s).entrances = [(s.scene.name, s.boards)] ∧
      ((enterScene s).turn = .rest s.noteEntry .none .done ∨
        ∃ n, s.scene.entry? = some n ∧
          (enterScene s).turn = .run { s.noteEntry with visited := [n.id] } n.id) := by
  rcases enterScene_outcome s with ⟨hr, hfail⟩ | ⟨hr, ⟨-, hrest⟩ | ⟨n, hn, hrun⟩⟩
  · exact .inl ⟨hr, hfail⟩
  · rw [hrest]
    exact .inr ⟨hr, rfl, .inl rfl⟩
  · rw [hrun]
    exact .inr ⟨hr, rfl, .inr ⟨n, hn, rfl⟩⟩

section
variable {st : Staging} {leads : NodeId → Prop} {s : Session}

theorem leave_some {node n : NodeId} (h : n ∉ s.visited) :
    leave s node (some n) = { turn := .run { s with visited := s.visited ++ [n] } n } := by
  rcases leave_outcome s node (some n) with
    ⟨-, -, ⟨⟨⟩, -⟩ | ⟨n', hn', ⟨rfl⟩, -⟩⟩ | ⟨n', ⟨rfl⟩, -, hrun⟩
  · exact absurd hn' h
  · exact hrun

theorem leave_stays {node : NodeId} {next : Option NodeId} (h : ∀ n ∈ next, leads n) :
    (leave s node next).Stays leads s := by
  rcases leave_outcome s node next with ⟨reason, hrest, -⟩ | ⟨n, rfl, hn, hrun⟩
  · rw [hrest]
    exact ⟨rfl, .rest fun u hu => Option.some.inj hu ▸ .refl s⟩
  · rw [hrun]
    exact ⟨rfl, .run ⟨rfl, rfl, rfl⟩ rfl hn (h n rfl)⟩

theorem reveal_stays {l : LineCursor} : (reveal st s l).Stays leads s := by
  rcases reveal_outcome st s l with ⟨-, hshow⟩ | ⟨-, text, htype⟩
  · rw [hshow]
    exact ⟨rfl, .rest fun u hu => Option.some.inj hu ▸ ⟨rfl, rfl, rfl⟩⟩
  · rw [htype]
    exact ⟨rfl, .rest fun u hu => Option.some.inj hu ▸ .refl s⟩

theorem beginLine_stays {node : NodeId} {d : Dialogue} {l : Line} {rest : List Line}
    {next : Option NodeId} : (beginLine st s node d l rest next).Stays leads s := by
  obtain ⟨told, l', -, -, hline⟩ := beginLine_outcome st s node d l rest next
  rw [hline]
  exact reveal_stays.after (Beat.entrances_told told)

end

/-! ## Nodes -/

/-- What a node does before it leads on is to write to the boards, as far as the scenes are
    concerned that are entered. -/
theorem Passes.keeps {s t : Session} {told : List Beat} (h : Passes s told t) :
    ∃ boards, Writes s boards ∧ Session.Keeps { s with boards } t ∧ t.visited = s.visited ∧
      Beat.entrances told = [] := by
  cases h with
  | writes written => exact ⟨_, written, .refl _, rfl, rfl⟩
  | shows character =>
    refine ⟨s.boards, .inl rfl, ?_⟩
    unfold Session.showCharacter
    split
    · exact ⟨.refl s, rfl, rfl⟩
    · exact ⟨⟨rfl, rfl, rfl⟩, rfl, rfl⟩
  | hides => exact ⟨s.boards, .inl rfl, ⟨rfl, rfl, rfl⟩, rfl, rfl⟩

/-- A node enters a scene: its own one anew, or one of the project with the boards of
    the session or of the project. -/
structure Enters (st : Staging) (s t : Session) : Prop where
  entries : t.entries = s.entries
  scene : t.scene = s.scene ∨ t.scene ∈ st.project.scenes
  boards : t.boards = s.boards ∨ t.boards = st.project.boards

/-- What a node does: it stays in the scene, where it leads to another of the nodes, or
    it enters a scene. -/
theorem step_cases (st : Staging) (s : Session) (id : NodeId) :
    (∃ boards, Writes s boards ∧
      (step st s id).Stays (fun i => i ∈ s.scene.nodes.map Node.id) { s with boards }) ∨
    ∃ t told, Enters st s t ∧ Beat.entrances told = [] ∧
      step st s id = (enterScene t).after told := by
  obtain ⟨piece, hacts, hstep⟩ := step_acts st s id
  rw [hstep]
  -- all but the events and what leads out of the scene leave the boards as they are
  have stay : piece.Stays (fun i => i ∈ s.scene.nodes.map Node.id) s →
      ∃ boards, Writes s boards ∧ (piece.after [.ran id]).Stays
        (fun i => i ∈ s.scene.nodes.map Node.id) { s with boards } :=
    fun h => ⟨s.boards, .inl rfl, h.after rfl⟩
  cases hacts with
  | leaves passed leads =>
    obtain ⟨boards, hw, hk, hv, he⟩ := passed.keeps
    exact .inl ⟨boards, hw, ((Piece.Stays.of_keeps hk hv (leave_stays leads)).after he).after rfl⟩
  | fades => exact .inl (stay ⟨rfl, .rest fun u hu => Option.some.inj hu ▸ .refl s⟩)
  | speaks => exact .inl (stay beginLine_stays)
  | offers => exact .inl (stay ⟨rfl, .rest fun u hu => Option.some.inj hu ▸ ⟨rfl, rfl, rfl⟩⟩)
  | fails names =>
    refine .inl (stay ⟨rfl, .fail (.refl s) fun scene he => ?_⟩)
    rw [he] at names
    cases names
  | restarts =>
    exact .inr ⟨s.clearPresentation.resetVisited, [.ran id, .told .sessionStopped],
      ⟨rfl, .inl rfl, .inl rfl⟩, rfl, rfl⟩
  | ends => exact .inl (stay ⟨rfl, .rest nofun⟩)
  | @switches scene name fade found =>
    refine .inr ⟨s.moveTo st.project scene st.config.carryBoards,
      [.ran id, .told .sessionStopped, .told (.switchScene name fade)],
      ⟨rfl, .inr found, ?_⟩, rfl, rfl⟩
    dsimp only [Session.moveTo]
    split
    · exact .inl rfl
    · exact .inr rfl
  | strays => exact .inl (stay ⟨rfl, .rest fun u hu => Option.some.inj hu ▸ .refl s⟩)

end Engine

/-- A wake lets playback go on in the scene in which it waited. -/
theorem Playback.wake?_stays {st : Staging} {s : Session} {cursor : Cursor} {w : Wake}
    {piece : Piece} (h : wake? st s cursor w = some piece) : piece.Stays (fun _ => True) s := by
  cases wake?_answers h with
  | appears => exact (Engine.leave_stays fun _ _ => trivial).after rfl
  | types | completes => exact Engine.reveal_stays
  | leaves => exact Engine.leave_stays fun _ _ => trivial
  | speaks => exact Engine.beginLine_stays
  | chooses =>
    refine Piece.Stays.of_keeps (t := { s with choices := [] }) ⟨rfl, rfl, rfl⟩ rfl ?_
    exact Engine.leave_stays fun _ _ => trivial

end VisualNovel
