/-
  Intents: what the host is to show, in the order in which the story gets there.

  * `Intent.text` says what an intent is about, `Intent.line` is its line in a log.
-/
import VisualNovel.Number.Decimal
import VisualNovel.Uuid

namespace VisualNovel

/-- Why a story stops without being stopped. -/
inductive ChainEnd where
  /-- The scene has no way in. -/
  | noEntry
  /-- A node leads nowhere. -/
  | deadEnd (node : NodeId)
  /-- The next node was visited before. -/
  | revisited (node : NodeId)
  /-- The next scene is not there. -/
  | missingScene (scene : String)
  deriving DecidableEq, Repr

def ChainEnd.text : ChainEnd → String
  | noEntry => "scene has no entry node"
  | deadEnd n => s!"dead end at {n.text}"
  | revisited n => s!"node {n.text} already visited"
  | missingScene scene => "scene `" ++ scene ++ "` not found"

/-- An instruction to the host. -/
inductive Intent where
  | showBackground (path : String) (fade : Binary64)
  | showCharacter (character sprite : String) (position : UInt8) (offset : Binary32)
      (fade : Binary64)
  | hideCharacter (character : String)
  /-- The beginning of a line that is being typed. -/
  | revealText (speaker text : String)
  | showLine (speaker text : String)
  | changeSprite (character sprite : String)
  | playVoice (character audio : String)
  | showChoices (choices : List String)
  | switchScene (scene : String) (fade : Binary64)
  | sessionStopped
  | chainEnded (reason : ChainEnd)
  | fault (message : String)
  deriving DecidableEq

namespace Intent

/-- The name of the kind of an intent. -/
def kindName : Intent → String
  | showBackground .. => "ShowBackground"
  | showCharacter .. => "ShowCharacter"
  | hideCharacter _ => "HideCharacter"
  | revealText .. => "RevealText"
  | showLine .. => "ShowLine"
  | changeSprite .. => "ChangeSprite"
  | playVoice .. => "PlayVoice"
  | showChoices _ => "ShowChoices"
  | switchScene .. => "SwitchScene"
  | sessionStopped => "SessionStopped"
  | chainEnded _ => "ChainEnded"
  | fault _ => "Fault"

/-- Whether an intent only shows how far the typing of a line has come. -/
def isProgress : Intent → Bool
  | revealText .. => true
  | _ => false

/-- What an intent is about. -/
def text : Intent → String
  | showBackground path fade => s!"background {path} (fade {Numeral.spoken.text fade}s)"
  | showCharacter character sprite position _ _ =>
    s!"show {character} as {sprite} at {position.toNat}%"
  | hideCharacter character => s!"hide {character}"
  | revealText speaker text => s!"{speaker}: {text}…"
  | showLine speaker text => s!"{speaker}: {text}"
  | changeSprite character sprite => s!"{character} → {sprite}"
  | playVoice character audio => s!"voice {character}: {audio}"
  | showChoices choices =>
    "choices: " ++ " | ".intercalate (choices.mapIdx fun i c => s!"[{i}] {c}")
  | switchScene scene fade => s!"switch to scene {scene} (fade {Numeral.spoken.text fade}s)"
  | sessionStopped => "session stopped"
  | chainEnded reason => s!"chain ended: {reason.text}"
  | fault message => s!"fault: {message}"

/-! ## Logs -/

/-- The colours of a log. -/
def green : String := "\x1b[32m"
def magenta : String := "\x1b[35m"
def red : String := "\x1b[31m"
def uncoloured : String := "\x1b[0m"

/-- The line of an intent in a log: its kind and what it is about, in colours if the
    log has them. -/
def line (coloured : Bool) (i : Intent) : String :=
  if coloured then
    let body := match i with
      | fault _ => red
      | _ => magenta
    s!"{green}[{i.kindName}]{uncoloured} {body}{i.text}{uncoloured}\n"
  else s!"[{i.kindName}] {i.text}\n"

/-- The log of several intents. -/
def log (coloured : Bool) (is : List Intent) : String := String.join (is.map (line coloured))

end Intent

end VisualNovel
