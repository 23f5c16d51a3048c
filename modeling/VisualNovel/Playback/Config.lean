/-
  The settings of playback.

  * `Config.ofEnvironment` takes what is not given from the environment;
  * `Config.personalize` puts the name of the player into a text.
-/
import VisualNovel.Named
import VisualNovel.Number.Duration
import VisualNovel.Number.Literal
import VisualNovel.Text.Replace

namespace VisualNovel

/-- What is done at the exit of a scene. -/
inductive ExitBehavior where
  /-- The scene is entered again, with its boards as they are. -/
  | restart
  /-- The session ends. -/
  | stop
  deriving DecidableEq, Repr

instance : Named ExitBehavior where
  all := [.restart, .stop]
  name
    | .restart => "Restart"
    | .stop => "Stop"
  find_name a := by cases a <;> decide

/-- The size of the screen. -/
structure Viewport where
  width : Binary32 := .ofNat 1920
  height : Binary32 := .ofNat 1080
  deriving DecidableEq

/-- A place that a bus hands intents to. -/
inductive SinkKind where
  | stdOut
  | memory
  deriving DecidableEq, Repr

instance : Named SinkKind where
  all := [.stdOut, .memory]
  name
    | .stdOut => "StdOut"
    | .memory => "Memory"
  find_name a := by cases a <;> decide

/-- The settings of a bus. -/
structure BusConfig where
  /-- The number of intents kept for subscribers that are behind. -/
  capacity : Nat
  sinks : List SinkKind
  deriving DecidableEq, Repr

namespace BusConfig

def defaultCapacity : Nat := 1024

/-- The settings with a capacity, if it is not zero. -/
def ofCapacity (capacity : Nat) (sinks : List SinkKind) : BusConfig :=
  ⟨if capacity = 0 then defaultCapacity else capacity, sinks⟩

def stdOut : BusConfig := ofCapacity defaultCapacity [.stdOut]

def memory : BusConfig := ofCapacity defaultCapacity [.memory]

/-- Adds a sink that is not there yet. -/
def addSink (c : BusConfig) (sink : SinkKind) : BusConfig :=
  if c.sinks.contains sink then c else { c with sinks := c.sinks ++ [sink] }

end BusConfig

/-- The variables that settings are taken from. -/
structure Environment where
  playerName : Option String := none
  typewriterMillis : Option String := none

/-- The settings of playback. -/
structure Config where
  playerName : String
  /-- The time from one typed character to the next. -/
  typewriterDelay : Duration
  viewport : Viewport := {}
  exitBehavior : ExitBehavior := .restart
  /-- Whether boards are kept when the scene changes. -/
  carryBoards : Bool := false
  /-- What stands for the name of the player. -/
  placeholder : String := "\x7bPlayer\x7d"
  bus : BusConfig := .stdOut
  deriving DecidableEq

namespace Config

def defaultPlayerName : String := "Player"

def defaultTypewriterMillis : Nat := 125

/-- The name in the environment, unless it is blank. -/
def environmentName (env : Environment) : String :=
  match env.playerName with
  | some name => if (Text.trim name.toList).isEmpty then defaultPlayerName else name
  | none => defaultPlayerName

/-- The delay in the environment, if it is a number of milliseconds. -/
def environmentDelay (env : Environment) : Duration :=
  .ofMillis <| (env.typewriterMillis.bind fun s =>
    Literal.nat? UInt64.size (Text.trim s.toList)).getD defaultTypewriterMillis

/-- The settings with a name and a delay; what is not given is taken from the
    environment. -/
def ofEnvironment (env : Environment) (name : Option String) (delay : Option Duration) :
    Config where
  playerName := name.getD (environmentName env)
  typewriterDelay := delay.getD (environmentDelay env)

/-- Puts the name of the player in place of the placeholder. -/
def personalize (c : Config) (text : String) : String :=
  Text.replace c.placeholder c.playerName text

end Config

end VisualNovel
