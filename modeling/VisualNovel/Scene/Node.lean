/-
  The nodes of a scene.  A node has an identity, connectors, references to its
  neighbours, and a content, which is what playback acts on.

  * `Content` lists what nodes may hold, `Content.layout` how many connectors each
    comes with;
  * `Node.make` makes a node of a content, with new identities.
-/
import VisualNovel.Board.Rule
import VisualNovel.Scene.Connector

namespace VisualNovel

/-- Whether something comes on or goes off: the gate of a scene, a background or a
    character. -/
inductive Switch where
  | enter
  | exit
  deriving DecidableEq, Repr

instance : Named Switch where
  all := [.enter, .exit]
  name
    | .enter => "Enter"
    | .exit => "Exit"
  find_name a := by cases a <;> decide

/-- The media of backgrounds.  Playback shows sprites only. -/
inductive AssetKind where
  | sprite
  | video
  deriving DecidableEq, Repr

instance : Named AssetKind where
  all := [.sprite, .video]
  name
    | .sprite => "Sprite"
    | .video => "Video"
  find_name a := by cases a <;> decide

/-- What a checkpoint stands for.  Playback passes through both. -/
inductive CheckpointAction where
  | save
  | restore
  deriving DecidableEq, Repr

instance : Named CheckpointAction where
  all := [.save, .restore]
  name
    | .save => "Save"
    | .restore => "Restore"
  find_name a := by cases a <;> decide

/-- The fade of a background or a scene, if no other is given: one second. -/
def longFade : Binary64 := .ofNat 1

/-- The fade of a character, if no other is given: a quarter of a second. -/
def shortFade : Binary64 := .ofFraction false 1 4

/-- A background to show after a fade. -/
structure Background where
  assetKind : AssetKind := .sprite
  /-- The key in the background table of the scene. -/
  key : String
  /-- The seconds to wait before it is shown. -/
  fade : Binary64 := longFade
  looped : Bool := false
  switch : Switch := .enter
  deriving DecidableEq

/-- A character that comes on or goes off. -/
structure Appearance where
  character : String
  /-- The key in the sprite table of the character. -/
  sprite : String
  /-- The horizontal position in percent. -/
  position : UInt8 := 50
  fade : Binary64 := shortFade
  switch : Switch := .enter
  deriving DecidableEq

/-- A character that comes on; positions past the right edge are at it. -/
def Appearance.enter (character sprite : String) (position : UInt8) : Appearance :=
  { character, sprite, position := min position 100 }

/-- A character that goes off. -/
def Appearance.exit (character : String) : Appearance :=
  { character, sprite := "", switch := .exit }

/-- A line of a dialogue. -/
structure Line where
  text : String
  /-- The sprite of the speaker while the line is on screen. -/
  sprite : String := ""
  /-- The voice cue of the line. -/
  audio : String := ""
  deriving DecidableEq, Repr

/-- Lines spoken by a character or by the player. -/
structure Dialogue where
  character : String
  playerLine : Bool := false
  lines : List Line := []
  deriving DecidableEq, Repr

namespace Dialogue

/-- Who speaks the lines of the player. -/
def playerSpeaker : String := "Player"

/-- Marks the lines as those of the player, who then is their speaker, or as not. -/
def setPlayerLine (d : Dialogue) (playerLine : Bool) : Dialogue :=
  { d with playerLine, character := if playerLine then playerSpeaker else d.character }

/-- Lines of the player. -/
def player (lines : List Line) : Dialogue :=
  ({ character := "", lines } : Dialogue).setPlayerLine true

end Dialogue

/-- A choice that the player has. -/
structure Choice where
  text : String
  next : Option NodeId := none
  /-- The position of the output through which the choice leaves. -/
  output : Nat := 0
  deriving DecidableEq, Repr

/-- A change to another scene. -/
structure SceneSwitch where
  scene : String
  fade : Binary64 := longFade
  deriving DecidableEq

structure Checkpoint where
  action : CheckpointAction
  id : Int32
  target : Int32 := 0
  deriving DecidableEq

/-- What a node holds. -/
inductive Content where
  | state (switch : Switch)
  | background (b : Background)
  | character (a : Appearance)
  | dialogue (d : Dialogue)
  | choice (choices : List Choice)
  | event (c : Change)
  | condition (c : Check)
  | scene (s : SceneSwitch)
  | checkpoint (c : Checkpoint)
  | combiner
  deriving DecidableEq

/-- The numbers of inputs and outputs of a gate. -/
def Switch.layout : Switch → Nat × Nat
  | enter => (0, 1)
  | exit => (1, 0)

namespace Content

/-- The name of the kind of a content. -/
def kindName : Content → String
  | state _ => "State"
  | background _ => "Background"
  | character _ => "Character"
  | dialogue _ => "Dialogue"
  | choice _ => "Choice"
  | event _ => "Event"
  | condition _ => "Condition"
  | scene _ => "Scene"
  | checkpoint _ => "Checkpoint"
  | combiner => "Combiner"

/-- The numbers of inputs and outputs that a new node has. -/
def layout : Content → Nat × Nat
  | state switch => switch.layout
  | choice choices => (1, choices.length)
  | condition _ => (1, 2)
  | scene _ => (1, 0)
  | _ => (1, 1)

/-- The tooltip of a new node. -/
def tooltip : Content → String
  | state _ => "Scene state point: where the scene is entered or exited."
  | background _ => "Scene background with fade time and enter/exit state."
  | character _ => "On-screen character sprite, position and fade time."
  | dialogue _ => "Lines spoken by a character or by the player."
  | choice _ => "Player choices, one output per choice."
  | event _ => "Blackboard mutation triggered by the story."
  | condition _ => "Branch on a blackboard comparison."
  | scene _ => "Switch to another scene."
  | checkpoint _ => "Save progress or return to a previous checkpoint."
  | combiner => "Merge several paths into one."

/-- The content with its choices leaving through the outputs in order. -/
def numbered : Content → Content
  | choice choices => choice (choices.mapIdx fun i c => { c with output := i })
  | content => content

/-- The number of words that the player reads. -/
def wordCount : Content → Nat
  | dialogue d => (d.lines.map fun l => Text.wordCount l.text).foldr (· + ·) 0
  | choice choices => (choices.map fun c => Text.wordCount c.text).foldr (· + ·) 0
  | _ => 0

end Content

/-- A node of a scene. -/
structure Node where
  id : NodeId
  tooltip : String := ""
  previous : Option NodeId := none
  next : Option NodeId := none
  inputs : List Connector := []
  outputs : List Connector := []
  content : Content
  deriving DecidableEq

namespace Node

/-- A new node with the connectors of its content, inputs first. -/
def make (content : Content) (id : NodeId) (connector : Nat → ConnectorId) : Node where
  id
  tooltip := content.tooltip
  inputs := Connector.row .input content.layout.1 connector
  outputs := Connector.row .output content.layout.2 fun i => connector (content.layout.1 + i)
  content := content.numbered

/-- A new combiner with a number of inputs, but at least one. -/
def combiner (inputs : Nat) (id : NodeId) (connector : Nat → ConnectorId) : Node :=
  let node := make .combiner id connector
  { node with
    inputs := node.inputs ++ Connector.row .input (inputs - 1) fun i => connector (2 + i) }

/-- Whether the node is the way into its scene. -/
def isEntry (n : Node) : Bool := decide (n.content = .state .enter)

/-- The connectors, inputs first. -/
def connectors (n : Node) : List Connector := n.inputs ++ n.outputs

/-- The input at a position. -/
def input? (n : Node) (i : Nat) : Option ConnectorId := n.inputs[i]?.map Connector.id

/-- The output at a position. -/
def output? (n : Node) (i : Nat) : Option ConnectorId := n.outputs[i]?.map Connector.id

/-- The connector of an identity. -/
def connector? (n : Node) (c : ConnectorId) : Option Connector :=
  n.connectors.find? fun x => decide (x.id = c)

/-- Whether a connector is one of the node. -/
def owns (n : Node) (c : ConnectorId) : Bool := n.connectors.any fun x => decide (x.id = c)

end Node

end VisualNovel
