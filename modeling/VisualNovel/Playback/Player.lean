/-
  Players: a playback that is driven by a clock and by the signals of its user.
  Signals are taken in the order in which they were sent, before any timer; a timer
  counts from the moment at which playback began to wait.

  * `Player.step` is what a player does next at the time of its clock;
  * `Player.settle` lets it act until it waits, `Player.sleep` lets time pass and
    `Player.join` lets it come to its end;
  * the clock of a player goes in milliseconds: a timer due between two of them
    fires at the second;
  * the clock does not go on for ever: a player that is to wait until after its last moment
    breaks off (`Player.breakOff`), and does not stop the session.
-/
import VisualNovel.Playback.Engine

namespace VisualNovel

/-- What the user of a player sends. -/
inductive Signal where
  | advance
  | choose (index : Nat)
  | stop
  deriving DecidableEq, Repr

/-- What a player did. -/
structure Summary where
  finalState : EngineState
  /-- The signals and timers that were handed to playback. -/
  wakes : Nat
  /-- The signals that did not fit. -/
  ignored : Nat
  deriving DecidableEq, Repr

/-- How far a player is. -/
inductive Phase where
  | new
  | driving
  | ended (result : Except PlaybackError Summary)
  /-- Playback did not come to a wait. -/
  | lost

/-- A player of a story. -/
structure Player where
  playback : Playback := {}
  phase : Phase := .new
  /-- The signals that were sent and not yet taken. -/
  signals : List Signal := []
  /-- Whether no more signals can come. -/
  closed : Bool := false
  /-- The time, in nanoseconds. -/
  now : Nat := 0
  /-- The last moment that the clock can tell. -/
  horizon : Nat := 9223372036854775808 * 1000000000 - 1
  /-- The number of the task that the player runs in. -/
  task : Nat := 1
  /-- When the running timer is due. -/
  deadline : Option Nat := none
  wakes : Nat := 0
  ignored : Nat := 0
  /-- The state that the user sees. -/
  shown : EngineState := .idle
  beats : List Beat := []

namespace Player

def isEnded (p : Player) : Bool :=
  match p.phase with
  | .ended _ => true
  | _ => false

/-- Sends a signal; a player that ended takes none. -/
def send (p : Player) (s : Signal) : Player × Bool :=
  if p.isEnded then (p, false) else ({ p with signals := p.signals ++ [s] }, true)

/-- Ends a player whose playback is over. -/
def finish (p : Player) : Player :=
  { p with
    phase := .ended (.ok ⟨p.playback.state, p.wakes, p.ignored⟩)
    shown := p.playback.state }

/-- Stops playback and ends the player. -/
def halt (p : Player) : Player :=
  let (playback, beats) := p.playback.stop
  finish { p with playback, beats := p.beats ++ beats }

/-- Tells the host about an error, stops playback and ends the player. -/
def fail (p : Player) (e : PlaybackError) : Player :=
  let (playback, beats) := p.playback.stop
  { p with
    playback, phase := .ended (.error e), shown := playback.state
    beats := p.beats ++ .told (.fault e.message) :: beats }

/-- What a player ends with that is to wait for longer than its clock can tell. -/
def overflow (p : Player) : PlaybackError :=
  .driver s!"task {p.task} panicked with message \"overflow when adding duration to instant\""

/-- Ends a player in the midst of its session: playback is not stopped, and the host is told
    nothing. -/
def breakOff (p : Player) : Player := { p with phase := .ended (.error p.overflow) }

/-- Whether the clock can tell when a wait that begins now is over. -/
def reaches (p : Player) (s : Suspension) : Bool :=
  s.timeout?.all fun d => p.now + d.nanos ≤ p.horizon

/-- Takes in what a call of playback came to. -/
def absorb (p : Player) (r : Report) : Player :=
  let p := { p with playback := r.playback, beats := p.beats ++ r.beats }
  match r.outcome with
  | .suspended s =>
    if p.reaches s then
      let p := { p with
        phase := .driving, shown := r.playback.state
        deadline := s.timeout?.map fun d => p.now + d.nanos }
      if s = .idle then p.finish else p
    else p.breakOff
  | .failed e => p.fail e
  | .unfinished => { p with phase := .lost }

/-- Starts playback.  The user sees what it came to before the clock is asked how long to wait. -/
def launch (st : Staging) (fuel : Nat) (p : Player) : Player :=
  let r := p.playback.start st fuel
  absorb { p with shown := r.playback.state } r

/-- Hands a wake to playback, if it fits. -/
def wake (st : Staging) (fuel : Nat) (p : Player) (w : Wake) : Player :=
  if p.playback.suspension.accepts w then
    absorb { p with wakes := p.wakes + 1 } (p.playback.resume st fuel w)
  else { p with ignored := p.ignored + 1 }

/-- The first millisecond of the clock that is not before a time. -/
def tick (time : Nat) : Nat := (time + 999999) / 1000000 * 1000000

/-- Whether the running timer is due. -/
def isDue (p : Player) : Bool :=
  match p.deadline with
  | some d => tick d ≤ p.now
  | none => false

/-- What the player does next at this time, if anything. -/
def step (st : Staging) (fuel : Nat) (p : Player) : Option Player :=
  match p.phase, p.signals with
  | .new, _ => some (p.launch st fuel)
  | .driving, .advance :: signals => some (wake st fuel { p with signals } .advance)
  | .driving, .choose i :: signals => some (wake st fuel { p with signals } (.choice i))
  | .driving, .stop :: signals => some (halt { p with signals })
  | .driving, [] =>
    if p.closed then some p.halt
    else if p.isDue then some (p.wake st fuel .timer)
    else none
  | _, _ => none

/-- Acts until there is nothing to do at this time, at most `n` times. -/
def settle (st : Staging) (fuel : Nat) : (n : Nat) → Player → Player
  | 0, p => p
  | n + 1, p =>
    match p.step st fuel with
    | some p' => settle st fuel n p'
    | none => p

/-- Lets time pass up to a moment.  The timers that are due on the way fire in order,
    at most `n` of them. -/
def passUntil (st : Staging) (fuel : Nat) (moment : Nat) : (n : Nat) → Player → Player
  | 0, p => p
  | n + 1, p =>
    let p := settle st fuel (n + 1) p
    match if p.isEnded then none else p.deadline with
    | some d =>
      if tick d ≤ moment then passUntil st fuel moment n { p with now := max p.now (tick d) }
      else { p with now := moment }
    | none => { p with now := moment }

/-- Lets a length of time pass. -/
def sleep (st : Staging) (fuel n : Nat) (p : Player) (time : Duration) : Player :=
  passUntil st fuel (p.now + time.nanos) n p

/-- Lets the player come to its end: no more signals are sent. -/
def join (st : Staging) (fuel n : Nat) (p : Player) : Player :=
  settle st fuel n { p with closed := true }

end Player

end VisualNovel
