/-
  Identities do not influence playback.

  * `Session.rename`, `Piece.rename`, `Playback.rename` and `Report.rename` give nodes and
    connectors other identities in all that playback makes;
  * `Engine.step_rename`, `Playback.run_rename`, `Playback.call_rename`: if no two identities
    become one, a node, a run and a call do the same under other identities;
  * `Calls.rename_same`: so do all calls in a story, if no two of its own identities become
    one.
-/
import VisualNovel.Proofs.Playback.Confine
import VisualNovel.Proofs.Scene.Renaming

namespace VisualNovel

section
variable (r : Renaming)

def Staging.rename (st : Staging) : Staging := { st with project := st.project.rename r }

def Session.rename (s : Session) : Session :=
  { s with
    scene := s.scene.rename r, index := .ofScene (s.scene.rename r), index_eq := rfl
    visited := s.visited.map r.node }

def LineCursor.rename (l : LineCursor) : LineCursor :=
  { l with node := r.node l.node, next := l.next.map r.node }

def Cursor.rename : Cursor → Cursor
  | none => none
  | atNode node => atNode (r.node node)
  | fading node path fade next => fading (r.node node) path fade (next.map r.node)
  | line l => line (l.rename r)
  | choosing node targets => choosing (r.node node) (targets.map (Option.map r.node))

def ChainEnd.rename : ChainEnd → ChainEnd
  | deadEnd node => deadEnd (r.node node)
  | revisited node => revisited (r.node node)
  | reason => reason

/-- An intent names a node only if it says where a chain of nodes ends. -/
def Intent.rename : Intent → Intent
  | chainEnded reason => chainEnded (reason.rename r)
  | i => i

def Beat.rename : Beat → Beat
  | ran node => ran (r.node node)
  | told i => told (i.rename r)
  | entered scene boards => entered scene boards

def PlaybackError.rename : PlaybackError → PlaybackError
  | choiceOutputMismatch node choices outputs =>
    choiceOutputMismatch (r.node node) choices outputs
  | choiceOutputMissing node choice output => choiceOutputMissing (r.node node) choice output
  | conditionOutputs node outputs => conditionOutputs (r.node node) outputs
  | e => e

def Turn.rename : Turn → Turn
  | run s node => run (s.rename r) (r.node node)
  | rest s cursor suspension => rest (s.map (Session.rename r)) (cursor.rename r) suspension
  | fail s e => fail (s.rename r) (e.rename r)

def Piece.rename (p : Piece) : Piece := ⟨p.beats.map (Beat.rename r), p.turn.rename r⟩

def Outcome.rename : Outcome → Outcome
  | failed e => failed (e.rename r)
  | outcome => outcome

def Playback.rename (p : Playback) : Playback :=
  { p with session := p.session.map (Session.rename r), cursor := p.cursor.rename r }

def Report.rename (p : Report) : Report :=
  ⟨p.playback.rename r, p.beats.map (Beat.rename r), p.outcome.rename r⟩

end

section
variable {r : Renaming}

theorem Piece.rename_after (bs : List Beat) (p : Piece) :
    (p.after bs).rename r = (p.rename r).after (bs.map (Beat.rename r)) := by
  rw [Piece.after, rename, List.map_append]
  rfl

theorem Report.rename_after (bs : List Beat) (p : Report) :
    (p.after bs).rename r = (p.rename r).after (bs.map (Beat.rename r)) := by
  rw [Report.after, rename, List.map_append]
  rfl

/-- What is computed from renamed items is renamed, if each item has it so. -/
theorem mapM_map_except {α α' β β' ε ε' : Type} {f : α → Except ε β} {f' : α' → Except ε' β'}
    {g : α → α'} {b : β → β'} {e : ε → ε'} (h : ∀ a, f' (g a) = ((f a).map b).mapError e)
    (as : List α) : (as.map g).mapM f' = ((as.mapM f).map (List.map b)).mapError e := by
  induction as with
  | nil => rfl
  | cons a as ih =>
    rw [List.map_cons, List.mapM_cons, List.mapM_cons, h, ih]
    cases f a with
    | error => rfl
    | ok =>
      cases as.mapM f with
      | error => rfl
      | ok => rfl

namespace Staging
variable (st : Staging)

@[simp] theorem project_rename : (st.rename r).project = st.project.rename r := rfl

@[simp] theorem opening_rename : (st.rename r).opening = st.opening := rfl

@[simp] theorem config_rename : (st.rename r).config = st.config := rfl

end Staging

namespace Session

@[simp] theorem boards_rename (s : Session) : (s.rename r).boards = s.boards := rfl

@[simp] theorem isOnScreen_rename (s : Session) (character : String) :
    (s.rename r).isOnScreen character = s.isOnScreen character := rfl

theorem follow?_rename (hr : r.Injective) (s : Session) (c : ConnectorId) :
    (s.rename r).index.follow? (r.connector c) = (s.index.follow? c).map r.node := by
  rw [s.index_eq]
  exact ConnectionIndex.follow?_rename hr s.scene c

theorem successor?_rename (hr : r.Injective) (s : Session) (n : Node) :
    (s.rename r).index.successor? (n.rename r) = (s.index.successor? n).map r.node := by
  rw [s.index_eq]
  exact ConnectionIndex.successor?_rename hr s.scene n

theorem node?_rename (hr : r.Injective) (s : Session) (id : NodeId) :
    (s.rename r).index.node? (s.rename r).scene (r.node id) =
      (s.index.node? s.scene id).map (Node.rename r) := by
  rw [s.index_eq]
  exact ConnectionIndex.node?_rename hr s.scene id

theorem hasVisited_rename (hr : r.Injective) (s : Session) (id : NodeId) :
    (s.rename r).hasVisited (r.node id) = s.hasVisited id := by
  rw [Bool.eq_iff_iff, hasVisited_iff, hasVisited_iff]
  exact List.mem_map_of_injective hr.node

theorem visit_rename (hr : r.Injective) (s : Session) (id : NodeId) :
    (s.visit id).rename r = (s.rename r).visit (r.node id) := by
  rw [visit, visit, hasVisited_rename hr]
  split
  · rfl
  · simp only [rename, List.map_append]
    rfl

theorem showCharacter_rename (s : Session) (character : String) :
    (s.rename r).showCharacter character = (s.showCharacter character).rename r := by
  rw [showCharacter, showCharacter, isOnScreen_rename]
  split
  · rfl
  · rfl

theorem open?_rename (p : Project) (name : String) :
    open? (p.rename r) name = (open? p name).map (Session.rename r) := by
  rw [open?, open?, Project.scene?_rename, Option.map_map, Option.map_map]
  rfl

theorem switchScene?_rename (s : Session) (p : Project) (name : String) (carry : Bool) :
    (s.rename r).switchScene? (p.rename r) name carry =
      (s.switchScene? p name carry).map (Session.rename r) := by
  rw [switchScene?, switchScene?, Project.scene?_rename, Option.map_map, Option.map_map]
  rfl

end Session

namespace Engine
variable (hr : r.Injective) (st : Staging) (s : Session)

theorem enterScene_rename : enterScene (s.rename r) = (enterScene s).rename r := by
  have hentry : Scene.entry? (s.rename r).noteEntry.scene =
      s.noteEntry.scene.entry?.map (Node.rename r) := Scene.entry?_rename _
  unfold enterScene
  dsimp only
  rw [show (s.rename r).isRepeated = s.isRepeated from rfl, hentry]
  cases s.isRepeated with
  | true => rfl
  | false =>
    cases s.noteEntry.scene.entry? with
    | none => rfl
    | some n => rfl

theorem reveal_rename (l : LineCursor) :
    reveal (st.rename r) (s.rename r) (l.rename r) = (reveal st s l).rename r := by
  dsimp only [reveal, LineCursor.rename]
  split
  · rfl
  · rfl

theorem rename_cues {i : Intent} (h : Cues s i) : i.rename r = i := by
  cases h with
  | sprite | voice => rfl

theorem beginLine_rename (node : NodeId) (d : Dialogue) (l : Line) (rest : List Line)
    (next : Option NodeId) :
    beginLine (st.rename r) (s.rename r) (r.node node) d l rest (next.map r.node) =
      (beginLine st s node d l rest next).rename r := by
  have hcues : (((spriteOf st s d l).toList ++ (voiceOf st d l).toList).map Beat.told).map
      (Beat.rename r) = ((spriteOf st s d l).toList ++ (voiceOf st d l).toList).map .told := by
    rw [List.map_map]
    refine List.map_congr_left fun i hi => ?_
    exact congrArg Beat.told (rename_cues s (cues_of_mem hi))
  unfold beginLine
  dsimp only
  rw [Piece.rename_after, hcues, ← reveal_rename]
  rfl

include hr

theorem leave_rename (node : NodeId) (next : Option NodeId) :
    leave (s.rename r) (r.node node) (next.map r.node) = (leave s node next).rename r := by
  cases next with
  | none => rfl
  | some n =>
    dsimp only [Option.map_some, leave]
    rw [Session.hasVisited_rename hr, ← Session.visit_rename hr]
    split
    · rfl
    · rfl

theorem background_rename (n : Node) (b : Background) :
    background (st.rename r) (s.rename r) (n.rename r) b = (background st s n b).rename r := by
  unfold background
  dsimp only
  rw [Session.successor?_rename hr,
    show (s.rename r).scene.backgrounds = s.scene.backgrounds from rfl]
  cases (if b.assetKind = .sprite then s.scene.backgrounds.get? b.key else none) with
  | none => exact leave_rename hr s ..
  | some path => rfl

omit hr in
theorem appear_rename (a : Appearance) :
    appear (st.rename r) (s.rename r) a =
      ((appear st s a).1.rename r, (appear st s a).2.map (Beat.rename r)) := by
  unfold appear
  cases a.switch with
  | enter =>
    dsimp only
    rw [show (st.rename r).project.character? = st.project.character? from rfl]
    cases (st.project.character? a.character).bind fun c => c.sprites.get? a.sprite with
    | none => rfl
    | some path => exact congrArg (·, _) (Session.showCharacter_rename s _)
  | exit =>
    dsimp only
    rw [Session.isOnScreen_rename]
    split
    · rfl
    · rfl

theorem choiceTargets_rename (n : Node) (choices : List Choice) :
    choiceTargets (s.rename r) (n.rename r) (choices.map (Choice.rename r)) =
      ((choiceTargets s n choices).map (List.map (Option.map r.node))).mapError
        (PlaybackError.rename r) := by
  unfold choiceTargets
  rw [List.zipIdx_map]
  refine mapM_map_except (fun (c, i) => ?_) _
  have houtput : (n.rename r).output? (c.rename r).output =
      (n.output? c.output).map r.connector := by
    simp only [Node.output?, Node.rename, List.getElem?_map, Option.map_map]
    rfl
  dsimp only [Prod.map_apply]
  rw [houtput]
  cases n.output? c.output with
  | none => rfl
  | some o => exact congrArg Except.ok (Session.follow?_rename hr s o)

theorem choose_rename (n : Node) (choices : List Choice) :
    choose (st.rename r) (s.rename r) (n.rename r) (choices.map (Choice.rename r)) =
      (choose st s n choices).rename r := by
  have houtputs : (n.rename r).outputs.length = n.outputs.length := List.length_map _
  have htexts : (choices.map (Choice.rename r)).map
      (fun c => (st.rename r).config.personalize c.text) =
        choices.map fun c => st.config.personalize c.text := List.map_map
  unfold choose
  rw [houtputs, List.length_map, List.isEmpty_map, choiceTargets_rename hr]
  dsimp only
  rw [htexts]
  split
  · rfl
  · split
    · exact leave_rename hr s n.id none
    · cases choiceTargets s n choices with
      | error e => rfl
      | ok targets => rfl

theorem branch_rename (n : Node) (c : Check) :
    branch (s.rename r) (n.rename r) c = (branch s n c).rename r := by
  unfold branch
  rw [show (n.rename r).outputs = n.outputs.map (Connector.rename r) from rfl]
  match n.outputs with
  | [yes, no] =>
    dsimp only [List.map_cons, List.map_nil]
    rw [← leave_rename hr]
    refine congrArg (leave (s.rename r) (r.node n.id)) ?_
    rw [Session.boards_rename]
    cases (c.answer s.boards).branch? with
    | none => exact Session.successor?_rename hr s n
    | some yes =>
      cases yes with
      | true => exact Session.follow?_rename hr s _
      | false => exact Session.follow?_rename hr s _
  | [] => rfl
  | [_] => rfl
  | _ :: _ :: _ :: rest =>
    have hlength : (rest.map (Connector.rename r)).length = rest.length := List.length_map _
    exact congrArg (fun k => (⟨[], .fail (s.rename r) (.conditionOutputs (r.node n.id) (k + 3))⟩ :
      Piece)) hlength

omit hr in
theorem exitScene_rename :
    exitScene (st.rename r) (s.rename r) = (exitScene st s).rename r := by
  unfold exitScene
  rw [Piece.rename_after, Staging.config_rename]
  cases st.config.exitBehavior with
  | restart =>
    exact congrArg (Piece.after [.told .sessionStopped])
      (enterScene_rename s.clearPresentation.resetVisited)
  | stop => rfl

omit hr in
theorem switchScene_rename (t : SceneSwitch) :
    switchScene (st.rename r) (s.rename r) t = (switchScene st s t).rename r := by
  unfold switchScene
  rw [Staging.project_rename, Staging.config_rename, Session.switchScene?_rename]
  cases s.switchScene? st.project t.scene st.config.carryBoards with
  | none => rfl
  | some s' =>
    dsimp only [Option.map_some]
    rw [Piece.rename_after, enterScene_rename]
    rfl

theorem perform_rename (n : Node) :
    perform (st.rename r) (s.rename r) (n.rename r) = (perform st s n).rename r := by
  have hleave : ∀ t : Session, leave (t.rename r) (r.node n.id)
      ((s.rename r).index.successor? (n.rename r)) =
        (leave t n.id (s.index.successor? n)).rename r := by
    intro t
    rw [Session.successor?_rename hr, leave_rename hr]
  unfold perform
  rw [show (n.rename r).content = n.content.rename r from rfl]
  cases n.content with
  | background b => exact background_rename hr st s n b
  | character a =>
    dsimp only [Content.rename]
    rw [appear_rename]
    dsimp only
    rw [Piece.rename_after, ← hleave]
    rfl
  | dialogue d =>
    dsimp only [Content.rename]
    cases d.lines with
    | nil => exact hleave s
    | cons l rest =>
      dsimp only
      rw [Session.successor?_rename hr]
      exact beginLine_rename st s n.id d l rest _
  | choice choices => exact choose_rename hr st s n choices
  | event c => exact hleave { s with boards := (c.apply s.boards).1 }
  | condition c => exact branch_rename hr s n c
  | scene t => exact switchScene_rename st s t
  | state gate =>
    cases gate with
    | enter => exact hleave s
    | exit => exact exitScene_rename st s
  | checkpoint | combiner => exact hleave s

theorem step_rename (id : NodeId) :
    step (st.rename r) (s.rename r) (r.node id) = (step st s id).rename r := by
  unfold step
  rw [Piece.rename_after, Session.node?_rename hr]
  refine congrArg (Piece.after [.ran (r.node id)]) ?_
  cases s.index.node? s.scene id with
  | none => exact leave_rename hr s id none
  | some n => exact perform_rename hr st s n

end Engine

namespace Playback
variable (hr : r.Injective) (st : Staging)

theorem settle_rename (s : Option Session) (cursor : Cursor) (suspension : Suspension) :
    settle (s.map (Session.rename r)) (cursor.rename r) suspension =
      (settle s cursor suspension).rename r := by
  unfold settle
  cases suspension.isWaiting with
  | true =>
    cases s with
    | none => rfl
    | some s => rfl
  | false => rfl

theorem stop_rename (p : Playback) :
    (p.rename r).stop = (p.stop.1.rename r, p.stop.2.map (Beat.rename r)) := by
  obtain ⟨session, cursor, state, suspension⟩ := p
  cases session with
  | none => rfl
  | some s => rfl

include hr

theorem run_rename (last : Suspension) (fuel : Nat) (s : Session) (id : NodeId) :
    run (st.rename r) last fuel (s.rename r) (r.node id) = (run st last fuel s id).rename r := by
  induction fuel generalizing s id with
  | zero => rfl
  | succ fuel ih =>
    unfold run
    dsimp only
    rw [Engine.step_rename hr]
    generalize Engine.step st s id = piece
    obtain ⟨beats, turn⟩ := piece
    cases turn with
    | run s' id' =>
      dsimp only [Piece.rename, Turn.rename]
      rw [ih, Report.rename_after]
    | rest s' cursor suspension =>
      dsimp only [Piece.rename, Turn.rename]
      rw [settle_rename]
      rfl
    | fail s' e => rfl

theorem follow_rename (last : Suspension) (fuel : Nat) (piece : Piece) :
    follow (st.rename r) last fuel (piece.rename r) = (follow st last fuel piece).rename r := by
  obtain ⟨beats, turn⟩ := piece
  cases turn with
  | run s id =>
    rw [follow_run, Report.rename_after, ← run_rename hr]
    exact follow_run
  | rest s cursor suspension =>
    dsimp only [follow, Piece.rename, Turn.rename]
    rw [settle_rename]
    rfl
  | fail s e => rfl

/-- A wait that is over goes on in the same way. -/
theorem wake?_rename (s : Session) (cursor : Cursor) (w : Wake) :
    wake? (st.rename r) (s.rename r) (cursor.rename r) w =
      (wake? st s cursor w).map (Piece.rename r) := by
  cases cursor with
  | none | atNode => cases w <;> rfl
  | fading node path fade next =>
    cases w with
    | timer =>
      dsimp only [wake?, Cursor.rename, Option.map_some]
      rw [Piece.rename_after, Engine.leave_rename hr]
      rfl
    | advance | choice => rfl
  | line l =>
    cases w with
    | timer => exact congrArg some (Engine.reveal_rename st s { l with revealed := l.revealed + 1 })
    | advance =>
      dsimp only [wake?, Cursor.rename, LineCursor.rename]
      split
      · exact congrArg some (Engine.reveal_rename st s { l with revealed := l.text.length })
      · cases l.rest with
        | nil => exact congrArg some (Engine.leave_rename hr s l.node l.next)
        | cons l' rest =>
          exact congrArg some (Engine.beginLine_rename st s l.node l.dialogue l' rest l.next)
    | choice => rfl
  | choosing node targets =>
    cases w with
    | choice i =>
      dsimp only [wake?, Cursor.rename]
      rw [List.getElem?_map, Option.map_map, Option.map_map]
      refine congrArg (targets[i]?.map ·) (funext fun next => ?_)
      exact Engine.leave_rename hr { s with choices := [] } node next
    | timer | advance => rfl

theorem start_rename (fuel : Nat) (p : Playback) :
    (p.rename r).start (st.rename r) fuel = (p.start st fuel).rename r := by
  unfold start
  dsimp only
  rw [stop_rename, Staging.project_rename, Staging.opening_rename, Session.open?_rename,
    Report.rename_after]
  refine congrArg (Report.after _) ?_
  cases Session.open? st.project st.opening with
  | none => rfl
  | some s =>
    dsimp only [Option.map_some]
    rw [Engine.enterScene_rename]
    exact follow_rename hr st ..

theorem resume_rename (fuel : Nat) (p : Playback) (w : Wake) :
    (p.rename r).resume (st.rename r) fuel w = (p.resume st fuel w).rename r := by
  have hsession : ((p.rename r).session.bind fun s =>
      wake? (st.rename r) s (p.rename r).cursor w) =
        (p.session.bind fun s => wake? st s p.cursor w).map (Piece.rename r) := by
    rw [Option.map_bind, show (p.rename r).session = p.session.map (Session.rename r) from rfl,
      Option.bind_map]
    exact congrArg _ (funext fun s => wake?_rename hr st s p.cursor w)
  unfold resume
  rw [hsession, show (p.rename r).suspension = p.suspension from rfl]
  cases p.suspension.accepts w with
  | true =>
    cases p.session.bind fun s => wake? st s p.cursor w with
    | none => rfl
    | some piece => exact follow_rename hr st ..
  | false => rfl

theorem call_rename (fuel : Nat) (p : Playback) (c : Call) :
    (p.rename r).call (st.rename r) fuel c = (p.call st fuel c).rename r := by
  cases c with
  | start => exact start_rename hr st fuel p
  | resume w => exact resume_rename hr st fuel p w
  | stop =>
    dsimp only [call]
    rw [stop_rename]
    rfl

end Playback

namespace Calls
variable (hr : r.Injective) (st : Staging) (cs : Calls)
include hr

theorem playback_rename : cs.playback (st.rename r) = (cs.playback st).rename r := by
  induction cs with
  | nil => rfl
  | cons call cs ih =>
    obtain ⟨c, fuel⟩ := call
    rw [playback, playback, ih, Playback.call_rename hr]
    rfl

theorem report_rename (c : Call) (fuel : Nat) :
    report (st.rename r) c fuel cs = (report st c fuel cs).rename r := by
  rw [report, playback_rename hr, Playback.call_rename hr]
  rfl

end Calls

end

/-! ## Identities that are used -/

/-- What a call comes to names nodes of the project only. -/
theorem Calls.report_confined (st : Staging) (cs : Calls) (c : Call) (fuel : Nat) :
    (∀ b ∈ (report st c fuel cs).beats, ∀ id ∈ b.node?, st.project.Has id) ∧
    ∀ e, (report st c fuel cs).outcome = .failed e → ∀ id ∈ e.node?, st.project.Has id := by
  have hinvariant := Playback.confined_invariant st
  constructor
  · obtain ⟨-, -, ⟨hbeats, -⟩, -⟩ := hinvariant.holds ((c, fuel) :: cs)
    exact (List.forall_mem_append.1 hbeats).2
  · intro e he id hid
    rcases hinvariant.fails cs c fuel he with rfl | ⟨s, -, hfail⟩
    · cases hid
    · cases hfail with
      | fail scene node => exact ⟨_, scene, node id hid⟩

section
variable {r q : Renaming}

theorem ChainEnd.rename_congr {reason : ChainEnd}
    (h : ∀ id ∈ reason.node?, r.node id = q.node id) : reason.rename r = reason.rename q := by
  cases reason with
  | deadEnd node => exact congrArg deadEnd (h node rfl)
  | revisited node => exact congrArg revisited (h node rfl)
  | noEntry | missingScene => rfl

theorem Beat.rename_congr {b : Beat} (h : ∀ id ∈ b.node?, r.node id = q.node id) :
    b.rename r = b.rename q := by
  cases b with
  | ran node => exact congrArg ran (h node rfl)
  | told i =>
    cases i with
    | chainEnded reason =>
      exact congrArg (fun reason => told (.chainEnded reason)) (ChainEnd.rename_congr h)
    | _ => rfl
  | entered => rfl

theorem PlaybackError.rename_congr {e : PlaybackError}
    (h : ∀ id ∈ e.node?, r.node id = q.node id) : e.rename r = e.rename q := by
  cases e with
  | choiceOutputMismatch node | choiceOutputMissing node | conditionOutputs node =>
    rw [rename, rename, h node rfl]
  | sceneNotFound | noProgress | driver => rfl

theorem Beat.intents_rename (r : Renaming) (bs : List Beat) :
    intents (bs.map (rename r)) = (intents bs).map (Intent.rename r) := by
  rw [intents, intents, List.filterMap_map, List.map_filterMap]
  refine congrArg (List.filterMap · bs) (funext fun b => ?_)
  cases b <;> rfl

theorem Project.Has.mem_nodeIds {p : Project} {id : NodeId} (h : p.Has id) :
    id ∈ p.scenes.flatMap Scene.nodeIds := by
  obtain ⟨s, hs, hid⟩ := h
  obtain ⟨n, hn, rfl⟩ := List.mem_map.1 hid
  exact List.mem_flatMap.2 ⟨s, hs, List.mem_flatMap.2 ⟨n, hn, List.mem_cons_self⟩⟩

end

/-- A call in a story whose nodes and connectors have other identities, none of which became
    one, does what it does in the story itself, after the same calls: it comes to the same
    suspension or, but for the nodes that are named, to the same error, it has the same intents,
    but for the nodes at which chains end, and it leaves the same state, the same suspension and
    the same boards. -/
theorem Calls.rename_same {st : Staging} {r : Renaming} (h : r.Separates st.project) (cs : Calls)
    (c : Call) (fuel : Nat) :
    (report (st.rename r) c fuel cs).outcome = (report st c fuel cs).outcome.rename r ∧
    Beat.intents (report (st.rename r) c fuel cs).beats =
      (Beat.intents (report st c fuel cs).beats).map (Intent.rename r) ∧
    (report (st.rename r) c fuel cs).playback.state = (report st c fuel cs).playback.state ∧
    (report (st.rename r) c fuel cs).playback.suspension =
      (report st c fuel cs).playback.suspension ∧
    (report (st.rename r) c fuel cs).playback.session.map Session.boards =
      (report st c fuel cs).playback.session.map Session.boards := by
  obtain ⟨q, hq, hproject, hnode⟩ := h.exists_injective
  have hstory : st.rename r = st.rename q :=
    congrArg (fun p => { st with project := p }) hproject.symm
  have hused : ∀ id, st.project.Has id → q.node id = r.node id := fun id hid =>
    hnode id hid.mem_nodeIds
  obtain ⟨hbeats, herror⟩ := report_confined st cs c fuel
  rw [hstory, report_rename hq]
  generalize report st c fuel cs = p at hbeats herror
  have hintents : p.beats.map (Beat.rename q) = p.beats.map (Beat.rename r) :=
    List.map_congr_left fun b hb => Beat.rename_congr fun id hid => hused id (hbeats b hb id hid)
  refine ⟨?_, ?_, rfl, rfl, ?_⟩
  · obtain ⟨playback, beats, outcome⟩ := p
    cases outcome with
    | failed e =>
      exact congrArg Outcome.failed
        (PlaybackError.rename_congr fun id hid => hused id (herror e rfl id hid))
    | suspended | unfinished => rfl
  · rw [← Beat.intents_rename, ← hintents]
    rfl
  · exact Option.map_map ..

/-- Other identities for the nodes of the prompt; those that it does not use become one. -/
def Renaming.prompt : Renaming where
  node n := if n = ⟨⟨0⟩⟩ then ⟨⟨1⟩⟩ else ⟨⟨0⟩⟩
  connector := id

/-- The only choice is taken, and leads nowhere. -/
theorem Calls.rename_same_prompt :
    Renaming.prompt.Separates Staging.prompt.project ∧
    (report (Staging.prompt.rename .prompt) (.resume (.choice 0)) 0 [(.start, 2)]).outcome =
      .suspended .done ∧
    Beat.intents
      (report (Staging.prompt.rename .prompt) (.resume (.choice 0)) 0 [(.start, 2)]).beats =
        [.chainEnded (.deadEnd ⟨⟨0⟩⟩)] := by
  have hseparates : Renaming.prompt.Separates Staging.prompt.project := by
    have hids : Staging.prompt.project.scenes.flatMap Scene.nodeIds = [⟨⟨0⟩⟩, ⟨⟨2⟩⟩] := by decide
    refine ⟨?_, Function.injective_id.injOn⟩
    rw [hids]
    intro a ha b hb h
    rcases List.mem_pair.1 ha with rfl | rfl
    all_goals
      rcases List.mem_pair.1 hb with rfl | rfl
      all_goals
        first
        | rfl
        | exact absurd h (by decide)
  obtain ⟨s, -, hplayback, -⟩ := reached_prompt
  have htaken : report .prompt (.resume (.choice 0)) 0 [(.start, 2)] =
      ⟨.settle (some { s.noteWait with choices := [] }) .none .done,
        [.told (.chainEnded (.deadEnd ⟨⟨2⟩⟩))], .suspended .done⟩ := by
    rw [report, hplayback]
    rfl
  obtain ⟨houtcome, hintents, -⟩ := rename_same hseparates [(.start, 2)] (.resume (.choice 0)) 0
  rw [htaken] at houtcome hintents
  exact ⟨hseparates, houtcome, hintents⟩

end VisualNovel
