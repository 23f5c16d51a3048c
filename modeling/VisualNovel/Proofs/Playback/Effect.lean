/-
  What a node does to the boards and to the scene of its session.

  * `Piece.Calm`: a piece of playback that neither enters a scene nor writes to a board;
  * `Engine.Effects` lists what a node can do besides, by what is in it, and
    `Engine.perform_effects` says that it does one of these;
  * `Playback.wake?_calm`: a wake does nothing besides.
-/
import VisualNovel.Proofs.Playback.Step

namespace VisualNovel

/-- Whether nothing but an intent other than the switch of a scene is told. -/
def Beat.isCalm : Beat → Bool
  | told (.switchScene ..) => false
  | told _ => true
  | entered .. | ran _ => false

/-- A piece of playback that stays in the scene of its session, with the boards as they
    are, and tells of no switch. -/
structure Piece.Calm (s : Session) (p : Piece) : Prop where
  stays : p.Stays (fun _ => True) s
  beats : ∀ b ∈ p.beats, b.isCalm = true

namespace Beat
variable {bs : List Beat}

theorem entrances_of_calm (h : ∀ b ∈ bs, b.isCalm = true) : entrances bs = [] := by
  refine List.filterMap_eq_nil_iff.2 fun b hb => ?_
  cases b with
  | entered | ran => cases h _ hb
  | told => rfl

end Beat

namespace Piece.Calm
variable {s t : Session} {p : Piece} {told : List Beat}

theorem after (h : p.Calm s) (ht : ∀ b ∈ told, b.isCalm = true) : (p.after told).Calm s :=
  ⟨h.stays.after (Beat.entrances_of_calm ht), List.forall_mem_append.2 ⟨ht, h.beats⟩⟩

theorem of_keeps (hk : s.Keeps t) (hv : t.visited = s.visited) (h : p.Calm t) : p.Calm s :=
  ⟨.of_keeps hk hv h.stays, h.beats⟩

/-- A failure is calm, but for the one that comes of entering a scene. -/
theorem fail {e : PlaybackError} (he : ∀ scene, e ≠ .noProgress scene) :
    Piece.Calm s { turn := .fail s e } :=
  ⟨⟨rfl, .fail (.refl s) he⟩, List.forall_mem_nil _⟩

end Piece.Calm

namespace Engine
variable {st : Staging} {s : Session}

theorem leave_calm {node : NodeId} {next : Option NodeId} : (leave s node next).Calm s := by
  refine ⟨leave_stays fun _ _ => trivial, ?_⟩
  rcases leave_outcome s node next with ⟨reason, hrest, -⟩ | ⟨n, -, -, hrun⟩
  · rw [hrest]
    simp [Beat.isCalm]
  · rw [hrun]
    exact List.forall_mem_nil _

theorem reveal_calm {l : LineCursor} : (reveal st s l).Calm s := by
  refine ⟨reveal_stays, ?_⟩
  rcases reveal_outcome st s l with ⟨-, hshow⟩ | ⟨-, text, htype⟩
  · rw [hshow]
    simp [Beat.isCalm]
  · rw [htype]
    simp [Beat.isCalm]

theorem beginLine_calm {node : NodeId} {d : Dialogue} {l : Line} {rest : List Line}
    {next : Option NodeId} : (beginLine st s node d l rest next).Calm s := by
  obtain ⟨told, l', hcues, -, hline⟩ := beginLine_outcome st s node d l rest next
  rw [hline]
  refine reveal_calm.after fun b hb => ?_
  obtain ⟨i, hi, rfl⟩ := List.mem_map.1 hb
  cases hcues i hi with
  | sprite | voice => rfl

theorem background_calm {n : Node} {b : Background} : (background st s n b).Calm s := by
  unfold background
  dsimp only
  split
  · exact leave_calm
  · exact ⟨⟨rfl, .rest fun u hu => Option.some.inj hu ▸ .refl s⟩, List.forall_mem_nil _⟩

/-- A character comes on or goes off, and nothing else happens. -/
theorem appear_keeps (st : Staging) (s : Session) (a : Appearance) :
    s.Keeps (appear st s a).1 ∧ (appear st s a).1.visited = s.visited ∧
      ∀ b ∈ (appear st s a).2, b.isCalm = true := by
  unfold appear
  split
  · split
    · exact ⟨.refl s, rfl, List.forall_mem_nil _⟩
    · unfold Session.showCharacter
      split
      · exact ⟨.refl s, rfl, by simp [Beat.isCalm]⟩
      · exact ⟨⟨rfl, rfl, rfl⟩, rfl, by simp [Beat.isCalm]⟩
  · split
    · exact ⟨⟨rfl, rfl, rfl⟩, rfl, by simp [Beat.isCalm]⟩
    · exact ⟨.refl s, rfl, List.forall_mem_nil _⟩

theorem choose_calm {n : Node} {choices : List Choice} : (choose st s n choices).Calm s := by
  unfold choose
  split
  · exact .fail (by simp)
  split
  · exact leave_calm
  split
  · rename_i e he
    obtain ⟨i, c, -, -, rfl⟩ := choiceTargets_error he
    exact .fail (by simp)
  · exact ⟨⟨rfl, .rest fun u hu => Option.some.inj hu ▸ ⟨rfl, rfl, rfl⟩⟩, by simp [Beat.isCalm]⟩

theorem branch_calm {n : Node} {c : Check} : (branch s n c).Calm s := by
  unfold branch
  split
  · exact leave_calm
  · exact .fail (by simp)

/-! ## Nodes -/

variable (st s)

/-- What a node can do. -/
inductive Effects (n : Node) : Piece → Prop where
  /-- Nothing to the boards and the scene. -/
  | calm {p : Piece} (content : ∀ c, n.content ≠ .event c) (calm : p.Calm s) : Effects n p
  /-- It makes its change. -/
  | writes {c : Change} {p : Piece} (content : n.content = .event c)
    (calm : p.Calm { s with boards := (c.apply s.boards).1 }) : Effects n p
  /-- It enters the scene again. -/
  | restarts (content : n.content = .state .exit) :
    Effects n ((enterScene s.clearPresentation.resetVisited).after [.told .sessionStopped])
  /-- It enters another scene. -/
  | switches {t : SceneSwitch} {scene : Scene} (content : n.content = .scene t)
    (found : st.project.scene? t.scene = some scene) :
    Effects n ((enterScene (s.moveTo st.project scene st.config.carryBoards)).after
      [.told .sessionStopped, .told (.switchScene t.scene t.fade)])

theorem exitScene_effects {n : Node} (hn : n.content = .state .exit) :
    Effects st s n (exitScene st s) := by
  unfold exitScene
  split
  · exact .restarts hn
  · exact .calm (by simp [hn]) ⟨⟨rfl, .rest nofun⟩, by simp [Piece.after, Beat.isCalm]⟩

theorem switchScene_effects {n : Node} {t : SceneSwitch} (hn : n.content = .scene t) :
    Effects st s n (switchScene st s t) := by
  unfold switchScene
  split
  · exact .calm (by simp [hn])
      ⟨⟨rfl, .rest fun u hu => Option.some.inj hu ▸ .refl s⟩, by simp [Beat.isCalm]⟩
  · rename_i u hu
    obtain ⟨scene, found, rfl⟩ := Option.map_eq_some_iff.1 hu
    exact .switches hn found

theorem perform_effects (n : Node) : Effects st s n (perform st s n) := by
  unfold perform
  split
  · rename_i hn
    exact exitScene_effects st s hn
  · rename_i hn
    exact .calm (by simp [hn]) background_calm
  · rename_i a hn
    obtain ⟨hkept, hvisited, hbeats⟩ := appear_keeps st s a
    exact .calm (by simp [hn]) ((Piece.Calm.of_keeps hkept hvisited leave_calm).after hbeats)
  · rename_i hn
    refine .calm (by simp [hn]) ?_
    split
    · exact leave_calm
    · exact beginLine_calm
  · rename_i hn
    exact .calm (by simp [hn]) choose_calm
  · rename_i c hn
    exact .writes hn leave_calm
  · rename_i hn
    exact .calm (by simp [hn]) branch_calm
  · rename_i hn
    exact switchScene_effects st s hn
  all_goals
    rename_i hn
    exact .calm (by simp [hn]) leave_calm

end Engine

/-- A wake lets playback go on in the scene in which it waited, with the boards as they
    were. -/
theorem Playback.wake?_calm {st : Staging} {s : Session} {cursor : Cursor} {w : Wake}
    {piece : Piece} (h : wake? st s cursor w = some piece) : piece.Calm s := by
  cases wake?_answers h with
  | appears => exact Engine.leave_calm.after (by simp [Beat.isCalm])
  | types | completes => exact Engine.reveal_calm
  | leaves => exact Engine.leave_calm
  | speaks => exact Engine.beginLine_calm
  | chooses =>
    exact .of_keeps (t := { s with choices := [] }) ⟨rfl, rfl, rfl⟩ rfl Engine.leave_calm

end VisualNovel
