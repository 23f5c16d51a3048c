/-
  What playback without the check depends on.  It does not depend on what was entered, for
  only the check asks for that, nor on the sign of zero on the boards.

  * `Session.level` takes both away from a session, and `Piece.level` from what happens;
  * `Engine.step_level`: what a node does depends on no more.
-/
import VisualNovel.Proofs.Board.Level
import VisualNovel.Proofs.Playback.Unchecked

namespace VisualNovel

/-- The session without the sign of zero on its boards and without what was entered. -/
def Session.level (s : Session) : Session := { s with boards := s.boards.level, entries := [] }

/-- What happens, without the sign of zero on the boards. -/
def Beat.level : Beat → Beat
  | entered scene boards => entered scene boards.level
  | b => b

def Turn.level : Turn → Turn
  | run s id => run s.level id
  | rest s cursor suspension => rest (s.map Session.level) cursor suspension
  | fail s e => fail s.level e

def Piece.level (p : Piece) : Piece := ⟨p.beats.map Beat.level, p.turn.level⟩

/-- What happens but for the entrances: the nodes that are run and the intents. -/
def Beat.trail (bs : List Beat) : List Beat :=
  bs.filter fun
    | entered .. => false
    | _ => true

@[simp] theorem Beat.trail_append (as bs : List Beat) : trail (as ++ bs) = trail as ++ trail bs :=
  List.filter_append ..

theorem Beat.trail_prefix {as bs : List Beat} (h : as <+: bs) : trail as <+: trail bs :=
  h.filter _

theorem Beat.trail_map_level (bs : List Beat) : trail (bs.map level) = trail bs := by
  induction bs with
  | nil => rfl
  | cons b bs ih =>
    cases b with
    | entered scene boards => exact ih
    | ran id => exact congrArg (Beat.ran id :: ·) ih
    | told i => exact congrArg (Beat.told i :: ·) ih

namespace Session
variable (s : Session)

@[simp] theorem scene_level : s.level.scene = s.scene := rfl

@[simp] theorem index_level : s.level.index = s.index := rfl

@[simp] theorem hasVisited_level (n : NodeId) : s.level.hasVisited n = s.hasVisited n := rfl

@[simp] theorem isOnScreen_level (character : String) :
    s.level.isOnScreen character = s.isOnScreen character := rfl

theorem visit_level (n : NodeId) : s.level.visit n = (s.visit n).level := by
  unfold visit
  rw [hasVisited_level]
  split <;> rfl

theorem showCharacter_level (character : String) :
    s.level.showCharacter character = (s.showCharacter character).level := by
  unfold showCharacter
  rw [isOnScreen_level]
  split <;> rfl

end Session

@[simp] theorem Session.level_level (s : Session) : s.level.level = s.level := by
  simp [level]

@[simp] theorem Turn.level_level (t : Turn) : t.level.level = t.level := by
  cases t with
  | rest s => cases s <;> simp [level]
  | _ => simp [level]

@[simp] theorem Beat.level_comp_level : level ∘ level = level := by
  funext b
  cases b <;> simp [level]

@[simp] theorem Piece.level_level (p : Piece) : p.level.level = p.level := by
  simp [level]

theorem Piece.level_after (p : Piece) (told : List Beat) :
    (p.after told).level = p.level.after (told.map Beat.level) := by
  simp [level, after]

namespace Engine
variable (st : Staging) (s : Session)

theorem leave_level (node : NodeId) (next : Option NodeId) :
    leave s.level node next = (leave s node next).level := by
  cases next with
  | none => rfl
  | some n =>
    simp only [leave, Session.hasVisited_level, Session.visit_level]
    split <;> rfl

theorem reveal_level (l : LineCursor) : reveal st s.level l = (reveal st s l).level := by
  unfold reveal
  split <;> rfl

theorem map_level_told (is : List Intent) : (is.map Beat.told).map Beat.level = is.map .told := by
  rw [List.map_map]
  rfl

theorem beginLine_level (node : NodeId) (d : Dialogue) (l : Line) (rest : List Line)
    (next : Option NodeId) :
    beginLine st s.level node d l rest next = (beginLine st s node d l rest next).level := by
  unfold beginLine
  rw [Piece.level_after, map_level_told, ← reveal_level]
  rfl

theorem background_level (n : Node) (b : Background) :
    background st s.level n b = (background st s n b).level := by
  simp only [background, Session.scene_level, Session.index_level, leave_level]
  split <;> rfl

theorem appear_level (a : Appearance) :
    (appear st s.level a).1 = (appear st s a).1.level ∧
      (appear st s.level a).2 = (appear st s a).2.map Beat.level := by
  simp only [appear, Session.isOnScreen_level, Session.showCharacter_level]
  split
  · split <;> exact ⟨rfl, rfl⟩
  · by_cases hshown : s.isOnScreen a.character = true
    · simp only [hshown, if_true]
      exact ⟨rfl, rfl⟩
    · simp only [hshown]
      exact ⟨rfl, rfl⟩

theorem choose_level (n : Node) (choices : List Choice) :
    choose st s.level n choices = (choose st s n choices).level := by
  have htargets : choiceTargets s.level n choices = choiceTargets s n choices := rfl
  simp only [choose, htargets, leave_level]
  split
  · rfl
  split
  · rfl
  split <;> rfl

theorem branch_level (n : Node) (c : Check) : branch s.level n c = (branch s n c).level := by
  have hanswer : c.answer s.level.boards = c.answer s.boards := c.answer_level s.boards
  simp only [branch, hanswer, Session.index_level, leave_level]
  split <;> rfl

theorem enterUnchecked_level : (enterUnchecked s.level).level = (enterUnchecked s).level := by
  cases hn : s.scene.entry? with
  | none =>
    rw [enterUnchecked_of_none hn, enterUnchecked_of_none (s := s.level) hn]
    simp [Piece.level, Beat.level, Turn.level, Session.level, Session.noteEntry]
  | some n =>
    rw [enterUnchecked_of_some hn, enterUnchecked_of_some (s := s.level) hn]
    simp [Piece.level, Beat.level, Turn.level, Session.level, Session.noteEntry]

variable {s} in
theorem enterUnchecked_congr {t : Session} (h : s.level = t.level) :
    (enterUnchecked s).level = (enterUnchecked t).level := by
  rw [← enterUnchecked_level s, h, enterUnchecked_level]

end Engine

theorem Piece.unchecked_level (p : Piece) : p.level.unchecked.level = p.unchecked.level := by
  obtain ⟨beats, turn⟩ := p
  cases turn with
  | run | rest => exact level_level _
  | fail s e =>
    cases e with
    | noProgress scene =>
      change ((Engine.enterUnchecked s.level).after (beats.map Beat.level)).level =
        ((Engine.enterUnchecked s).after beats).level
      simp [level_after, Engine.enterUnchecked_level]
    | _ => exact level_level _

namespace Engine
variable (st : Staging) (s : Session)

theorem exitScene_level :
    (exitScene st s.level).unchecked.level = (exitScene st s).unchecked.level := by
  unfold exitScene
  split
  · simp only [Piece.unchecked_after, enterScene_unchecked, Piece.level_after]
    rw [enterUnchecked_congr (t := s.clearPresentation.resetVisited)]
    simp [Session.level, Session.clearPresentation, Session.resetVisited]
  · rfl

theorem switchScene_level (t : SceneSwitch) :
    (switchScene st s.level t).unchecked.level = (switchScene st s t).unchecked.level := by
  unfold switchScene Session.switchScene?
  cases st.project.scene? t.scene with
  | none => simp [Piece.unchecked, Piece.level, Turn.level]
  | some scene =>
    simp only [Option.map_some, Piece.unchecked_after, enterScene_unchecked, Piece.level_after]
    rw [enterUnchecked_congr (t := s.moveTo st.project scene st.config.carryBoards)]
    cases hcarry : st.config.carryBoards <;> simp [Session.level, Session.moveTo]

/-- What a node does, without the check, depends on no more. -/
theorem perform_level (n : Node) :
    (perform st s.level n).unchecked.level = (perform st s n).unchecked.level := by
  unfold perform
  split
  · exact exitScene_level st s
  · rw [background_level, Piece.unchecked_level]
  · rename_i a _
    obtain ⟨hsession, hbeats⟩ := appear_level st s a
    dsimp only
    rw [hsession, hbeats, leave_level, Session.index_level, ← Piece.level_after,
      Piece.unchecked_level]
  · split
    · rw [Session.index_level, leave_level, Piece.unchecked_level]
    · rw [Session.index_level, beginLine_level, Piece.unchecked_level]
  · rw [choose_level, Piece.unchecked_level]
  · rename_i c _
    have hwritten : ({ s.level with boards := (c.apply s.level.boards).1 } : Session).level =
        ({ s with boards := (c.apply s.boards).1 } : Session).level := by
      simp [Session.level, c.apply_level]
    rw [← Piece.unchecked_level, ← leave_level, hwritten, leave_level, Piece.unchecked_level]
    rfl
  · rw [branch_level, Piece.unchecked_level]
  · exact switchScene_level st s _
  all_goals rw [Session.index_level, leave_level, Piece.unchecked_level]

theorem step_level (id : NodeId) :
    (step st s.level id).unchecked.level = (step st s id).unchecked.level := by
  unfold step
  simp only [Piece.unchecked_after, Piece.level_after, Session.scene_level, Session.index_level]
  cases s.index.node? s.scene id with
  | none => exact congrArg _ ((leave_level s id none).symm ▸ Piece.unchecked_level _)
  | some n => exact congrArg _ (perform_level st s n)

end Engine

end VisualNovel
