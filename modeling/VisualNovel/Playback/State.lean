/-
  Where playback stands, and what can move it.

  * `Suspension` is what playback waits for, `Wake` what may end a wait;
  * `Suspension.accepts` says which wakes end which waits;
  * `EngineState` is the part of it that is shown.
-/
import VisualNovel.Named
import VisualNovel.Number.Duration

namespace VisualNovel

/-- What a wait is for. -/
inductive WaitReason where
  | advance
  | choice
  | timer
  deriving DecidableEq, Repr

instance : Named WaitReason where
  all := [.advance, .choice, .timer]
  name
    | .advance => "AwaitingAdvance"
    | .choice => "AwaitingChoice"
    | .timer => "AwaitingTimer"
  find_name a := by cases a <;> decide

/-- What is fed to a playback that waits. -/
inductive Wake where
  | timer
  | advance
  | choice (index : Nat)
  deriving DecidableEq, Repr

/-- What playback does in general. -/
inductive EngineState where
  /-- There is no session. -/
  | idle
  | running
  | suspended (reason : WaitReason)
  /-- The chain of nodes ended; what was shown stays. -/
  | stopped
  deriving DecidableEq, Repr

def EngineState.text : EngineState → String
  | idle => "idle"
  | running => "running"
  | suspended reason => s!"suspended ({Named.name reason})"
  | stopped => "stopped"

/-- Where playback handed control back. -/
inductive Suspension where
  /-- It waits for input, for a timer, or for the first of both. -/
  | wait (reason : WaitReason) (timeout : Option Duration)
  /-- The chain of nodes ended. -/
  | done
  /-- The session is over. -/
  | idle
  deriving DecidableEq, Repr

namespace Suspension

/-- How long a wait lasts at most. -/
def timeout? : Suspension → Option Duration
  | wait _ timeout => timeout
  | _ => none

def isWaiting : Suspension → Bool
  | wait .. => true
  | _ => false

/-- Whether a wake means anything now: a timer if one is running, an advance while a
    line is shown or typed, a choice while choices are shown. -/
def accepts : Suspension → Wake → Bool
  | wait _ timeout, .timer => timeout.isSome
  | wait .advance _, .advance => true
  | wait .choice _, .choice _ => true
  | _, _ => false

/-- The state of a playback that came to rest. -/
def state : Suspension → EngineState
  | wait reason _ => .suspended reason
  | done => .stopped
  | idle => .idle

end Suspension

end VisualNovel
