/-
  The engine: it runs nodes until it has to wait, and says what for.

  * `Engine.step` runs one node, `Engine.run` runs nodes until it waits;
  * `Playback.start`, `Playback.resume` and `Playback.stop` are what a host calls;
  * a `Report` is the outcome of a call: where playback stands and the `Beat`s on
    the way, of which the intents are what the host sees.

  A run of nodes need not end, so a call is given a number of nodes that it may run;
  `Outcome.unfinished` says that they were not enough.
-/
import VisualNovel.Board.Rule
import VisualNovel.Intent.Basic
import VisualNovel.Playback.Config
import VisualNovel.Playback.Error
import VisualNovel.Playback.Session
import VisualNovel.Playback.State
import VisualNovel.Project.Assets

namespace VisualNovel

/-- What does not change while a story is played. -/
structure Staging where
  project : Project
  /-- The scene that a session is opened on. -/
  opening : String
  config : Config
  assets : Assets := .relative

/-- What happens on the way from one wait to the next. -/
inductive Beat where
  /-- A scene is entered. -/
  | entered (scene : String) (boards : Boards)
  /-- A node is run. -/
  | ran (node : NodeId)
  /-- The host is told something. -/
  | told (i : Intent)
  deriving DecidableEq

/-- The intents among the beats. -/
def Beat.intents (bs : List Beat) : List Intent :=
  bs.filterMap fun
    | told i => some i
    | _ => none

/-- A line that is being typed or is shown. -/
structure LineCursor where
  node : NodeId
  dialogue : Dialogue
  /-- The lines after this one. -/
  rest : List Line
  speaker : String
  text : String
  /-- The number of characters that are shown. -/
  revealed : Nat
  /-- Where the dialogue leads. -/
  next : Option NodeId
  deriving DecidableEq

/-- What a wait has to go on with. -/
inductive Cursor where
  | none
  /-- A node that is being run. -/
  | atNode (node : NodeId)
  /-- A background that is to be shown. -/
  | fading (node : NodeId) (path : String) (fade : Binary64) (next : Option NodeId)
  | line (l : LineCursor)
  /-- Choices that are shown, with where each of them leads. -/
  | choosing (node : NodeId) (targets : List (Option NodeId))
  deriving DecidableEq

/-- What comes next after a piece of playback. -/
inductive Turn where
  /-- A node is to be run. -/
  | run (s : Session) (node : NodeId)
  | rest (s : Option Session) (cursor : Cursor) (suspension : Suspension)
  | fail (s : Session) (e : PlaybackError)

/-- A piece of playback: what happens in it, and what comes next. -/
structure Piece where
  beats : List Beat := []
  turn : Turn

/-- A piece of playback after something else happened. -/
def Piece.after (beats : List Beat) (p : Piece) : Piece := { p with beats := beats ++ p.beats }

namespace Engine

variable (st : Staging)

/-- Enters the scene of a session. -/
def enterScene (s : Session) : Piece :=
  if s.isRepeated then { turn := .fail s (.noProgress s.scene.name) }
  else
    let entered := .entered s.scene.name s.boards
    let s := s.noteEntry
    match s.scene.entry? with
    | none => ⟨[entered, .told (.chainEnded .noEntry)], .rest s .none .done⟩
    | some n => ⟨[entered], .run (s.resetVisited.visit n.id) n.id⟩

/-- Leaves a node for the next one, unless that was visited before. -/
def leave (s : Session) (node : NodeId) : (next : Option NodeId) → Piece
  | none => ⟨[.told (.chainEnded (.deadEnd node))], .rest s .none .done⟩
  | some n =>
    if s.hasVisited n then ⟨[.told (.chainEnded (.revisited n))], .rest s .none .done⟩
    else { turn := .run (s.visit n) n }

/-! ## Lines -/

/-- Shows a line as far as it is typed. -/
def reveal (s : Session) (l : LineCursor) : Piece :=
  if l.text.length ≤ l.revealed then
    ⟨[.told (.showLine l.speaker l.text)],
      .rest (some { s with line := some (l.speaker, l.text) }) (.line l)
        (.wait .advance Option.none)⟩
  else
    ⟨[.told (.revealText l.speaker (String.ofList (l.text.toList.take l.revealed)))],
      .rest (some s) (.line l) (.wait .advance (some st.config.typewriterDelay))⟩

/-- The sprite that a line puts on its speaker, who must be on screen. -/
def spriteOf (s : Session) (d : Dialogue) (l : Line) : Option Intent :=
  if d.playerLine || l.sprite.isEmpty || !s.isOnScreen d.character then none
  else ((st.project.character? d.character).bind fun c => c.sprites.get? l.sprite).map fun path =>
    .changeSprite d.character (st.assets.resolve path)

/-- The voice of a line. -/
def voiceOf (d : Dialogue) (l : Line) : Option Intent :=
  if l.audio.isEmpty then none
  else ((st.project.character? d.character).bind fun c => c.sounds.get? l.audio).map fun path =>
    .playVoice d.character (st.assets.resolve path)

/-- Begins a line of a dialogue. -/
def beginLine (s : Session) (node : NodeId) (d : Dialogue) (l : Line) (rest : List Line)
    (next : Option NodeId) : Piece :=
  let text := st.config.personalize l.text
  let speaker := if d.playerLine then st.config.playerName else d.character
  (reveal st s ⟨node, d, rest, speaker, text, min text.length 1, next⟩).after
    (((spriteOf st s d l).toList ++ (voiceOf st d l).toList).map .told)

/-! ## Nodes -/

/-- Starts the fade of a background, if it can be shown. -/
def background (s : Session) (n : Node) (b : Background) : Piece :=
  let next := s.index.successor? n
  match if b.assetKind = .sprite then s.scene.backgrounds.get? b.key else none with
  | none => leave s n.id next
  | some path =>
    { turn := .rest s (.fading n.id (st.assets.resolve path) b.fade next)
        (.wait .timer (some (.ofSeconds b.fade))) }

/-- The horizontal distance from the middle of the screen. -/
def offset (position : UInt8) : Binary32 :=
  (((Binary.ofNat position.toNat).sub (.ofNat 50)).div (.ofNat 50)).mul st.config.viewport.width

/-- Brings a character on or takes it off. -/
def appear (s : Session) (a : Appearance) : Session × List Beat :=
  match a.switch with
  | .enter =>
    match (st.project.character? a.character).bind fun c => c.sprites.get? a.sprite with
    | none => (s, [])
    | some path =>
      let position := min a.position 100
      (s.showCharacter a.character,
        [.told (.showCharacter a.character (st.assets.resolve path) position
          (offset st position) a.fade)])
  | .exit =>
    if s.isOnScreen a.character then
      (s.hideCharacter a.character, [.told (.hideCharacter a.character)])
    else (s, [])

/-- Where each choice leads; all must leave through an output of the node. -/
def choiceTargets (s : Session) (n : Node) (choices : List Choice) :
    Except PlaybackError (List (Option NodeId)) :=
  choices.zipIdx.mapM fun (c, i) =>
    match n.output? c.output with
    | some o => .ok (s.index.follow? o)
    | none => .error (.choiceOutputMissing n.id i c.output)

/-- Shows the choices of a node. -/
def choose (s : Session) (n : Node) (choices : List Choice) : Piece :=
  if n.outputs.length ≠ choices.length then
    { turn := .fail s (.choiceOutputMismatch n.id choices.length n.outputs.length) }
  else if choices.isEmpty then leave s n.id none
  else
    match choiceTargets s n choices with
    | .error e => { turn := .fail s e }
    | .ok targets =>
      let texts := choices.map fun c => st.config.personalize c.text
      ⟨[.told (.showChoices texts)],
        .rest (some { s with choices := texts }) (.choosing n.id targets)
          (.wait .choice Option.none)⟩

/-- Takes one of the two branches of a condition, or where the node leads if it has
    no answer. -/
def branch (s : Session) (n : Node) (c : Check) : Piece :=
  match n.outputs with
  | [yes, no] =>
    leave s n.id <| match (c.answer s.boards).branch? with
      | some true => s.index.follow? yes.id
      | some false => s.index.follow? no.id
      | none => s.index.successor? n
  | outputs => { turn := .fail s (.conditionOutputs n.id outputs.length) }

/-- Goes on after the exit of a scene. -/
def exitScene (s : Session) : Piece :=
  Piece.after [.told .sessionStopped] <| match st.config.exitBehavior with
    | .restart => enterScene s.clearPresentation.resetVisited
    | .stop => { turn := .rest Option.none .none .idle }

/-- Moves to another scene. -/
def switchScene (s : Session) (t : SceneSwitch) : Piece :=
  match s.switchScene? st.project t.scene st.config.carryBoards with
  | none => ⟨[.told (.chainEnded (.missingScene t.scene))], .rest s .none .done⟩
  | some s =>
    (enterScene s).after [.told .sessionStopped, .told (.switchScene t.scene t.fade)]

/-- What a node does. -/
def perform (s : Session) (n : Node) : Piece :=
  match n.content with
  | .state .exit => exitScene st s
  | .background b => background st s n b
  | .character a =>
    let (s', beats) := appear st s a
    (leave s' n.id (s.index.successor? n)).after beats
  | .dialogue d =>
    match d.lines with
    | [] => leave s n.id (s.index.successor? n)
    | l :: rest => beginLine st s n.id d l rest (s.index.successor? n)
  | .choice choices => choose st s n choices
  | .event c => leave { s with boards := (c.apply s.boards).1 } n.id (s.index.successor? n)
  | .condition c => branch s n c
  | .scene t => switchScene st s t
  | .state .enter | .checkpoint _ | .combiner => leave s n.id (s.index.successor? n)

/-- Runs a node. -/
def step (s : Session) (id : NodeId) : Piece :=
  Piece.after [.ran id] <| match s.index.node? s.scene id with
    | none => leave s id none
    | some n => perform st s n

end Engine

/-- Where a playback stands. -/
structure Playback where
  session : Option Session := none
  cursor : Cursor := .none
  state : EngineState := .idle
  suspension : Suspension := .idle

/-- How a call ends. -/
inductive Outcome where
  | suspended (s : Suspension)
  | failed (e : PlaybackError)
  /-- More nodes would have to be run than the call was given. -/
  | unfinished
  deriving DecidableEq

/-- What a call comes to. -/
structure Report where
  playback : Playback
  beats : List Beat := []
  outcome : Outcome

/-- A report about a call that began with something else. -/
def Report.after (beats : List Beat) (r : Report) : Report := { r with beats := beats ++ r.beats }

namespace Playback

/-- Comes to rest.  A wait begins a new stretch without waits. -/
def settle (session : Option Session) (cursor : Cursor) (suspension : Suspension) : Playback where
  session := if suspension.isWaiting then session.map Session.noteWait else session
  cursor
  state := suspension.state
  suspension

/-- Runs nodes from one on, until playback rests or fails.  A failure leaves the last
    suspension as it was. -/
def run (st : Staging) (last : Suspension) : (fuel : Nat) → Session → NodeId → Report
  | 0, s, id => ⟨⟨s, .atNode id, .running, last⟩, [], .unfinished⟩
  | fuel + 1, s, id =>
    let piece := Engine.step st s id
    match piece.turn with
    | .run s' id' => (run st last fuel s' id').after piece.beats
    | .rest s' cursor suspension =>
      ⟨settle s' cursor suspension, piece.beats, .suspended suspension⟩
    | .fail s' e => ⟨⟨s', .atNode id, .running, last⟩, piece.beats, .failed e⟩

/-- Goes on after a piece of playback that ran no node. -/
def follow (st : Staging) (last : Suspension) (fuel : Nat) (piece : Piece) : Report :=
  match piece.turn with
  | .run s id => (run st last fuel s id).after piece.beats
  | .rest s cursor suspension => ⟨settle s cursor suspension, piece.beats, .suspended suspension⟩
  | .fail s e => ⟨⟨s, .none, .running, last⟩, piece.beats, .failed e⟩

/-- Ends the session, if there is one. -/
def stop (p : Playback) : Playback × List Beat :=
  if p.session.isSome then (settle none .none .idle, [.told .sessionStopped]) else (p, [])

/-- Opens a session on the opening scene and runs to the first wait.  A session that
    is open is stopped first. -/
def start (st : Staging) (fuel : Nat) (p : Playback) : Report :=
  let (p, beats) := p.stop
  Report.after beats <| match Session.open? st.project st.opening with
    | none => ⟨p, [], .failed (.sceneNotFound st.opening)⟩
    | some s => follow st p.suspension fuel (Engine.enterScene s)

/-- What a wake makes of a wait, if it means anything. -/
def wake? (st : Staging) (s : Session) : Cursor → Wake → Option Piece
  | .fading node path fade next, .timer =>
    some ((Engine.leave s node next).after [.told (.showBackground path fade)])
  | .line l, .timer => some (Engine.reveal st s { l with revealed := l.revealed + 1 })
  | .line l, .advance =>
    if l.revealed < l.text.length then
      some (Engine.reveal st s { l with revealed := l.text.length })
    else match l.rest with
      | [] => some (Engine.leave s l.node l.next)
      | l' :: rest => some (Engine.beginLine st s l.node l.dialogue l' rest l.next)
  | .choosing node targets, .choice i =>
    targets[i]?.map fun next => Engine.leave { s with choices := [] } node next
  | _, _ => none

/-- Feeds a wake to a playback.  One that means nothing changes nothing. -/
def resume (st : Staging) (fuel : Nat) (p : Playback) (w : Wake) : Report :=
  match if p.suspension.accepts w then p.session.bind fun s => wake? st s p.cursor w else none with
  | none => ⟨p, [], .suspended p.suspension⟩
  | some piece => follow st p.suspension fuel piece

end Playback

end VisualNovel
