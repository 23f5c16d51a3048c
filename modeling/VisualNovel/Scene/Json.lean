/-
  Scenes as documents.  A node is an object that holds the members of its content
  beside its own, and says under `type` what the content is.

  * `Scene.decoder` and `Scene.toJson` read and write a scene, `Scene.read` and
    `Scene.text` its text.
-/
import VisualNovel.Board.Json
import VisualNovel.Json.Printer
import VisualNovel.Scene.Error
import VisualNovel.Scene.Basic

namespace VisualNovel

open Decoder

def NodeId.decoder : Decoder NodeId := filterMap (fun s => (Uuid.read? s).map NodeId.mk) string

def ConnectorId.decoder : Decoder ConnectorId :=
  filterMap (fun s => (Uuid.read? s).map ConnectorId.mk) string

def NodeId.toJson (n : NodeId) : Json := .string n.text

def ConnectorId.toJson (c : ConnectorId) : Json := .string c.text

/-- The reference to a node, or `null`. -/
def Json.ofNode? : Option NodeId → Json
  | some n => n.toJson
  | none => .null

namespace Connector

def decoder : Decoder Connector :=
  (Form.of Connector.mk).required "id" ConnectorId.decoder
    |>.optional "title" string ""
    |>.required "flow" named
    |>.optional "connected" boolean false
    |>.decoder

def toJson (c : Connector) : Json := .record [
  ("id", c.id.toJson), ("title", .string c.title), ("flow", .string (Named.name c.flow)),
  ("connected", .boolean c.connected)]

end Connector

namespace Connection

def decoder : Decoder Connection :=
  (Form.of Connection.mk).required "source" ConnectorId.decoder
    |>.required "target" ConnectorId.decoder
    |>.decoder

def toJson (c : Connection) : Json :=
  .record [("source", c.source.toJson), ("target", c.target.toJson)]

end Connection

namespace Line

def decoder : Decoder Line :=
  (Form.of Line.mk).required "text" string
    |>.optional "sprite" string ""
    |>.optional "audio" string ""
    |>.decoder

def toJson (l : Line) : Json :=
  .record [("text", .string l.text), ("sprite", .string l.sprite), ("audio", .string l.audio)]

end Line

namespace Choice

def decoder : Decoder Choice :=
  (Form.of Choice.mk).required "text" string
    |>.optional "next" (option NodeId.decoder) none
    |>.required "output" natural
    |>.decoder

def toJson (c : Choice) : Json := .record [
  ("text", .string c.text), ("next", .ofNode? c.next), ("output", .ofInt c.output)]

end Choice

namespace Content

/-! ## Contents -/

def backgroundForm : Form Background :=
  (Form.of Background.mk).optional "asset_kind" named .sprite
    |>.required "background" string
    |>.optional "fade_time" (binary .double) longFade
    |>.optional "looped" boolean false
    |>.optional "switch" named .enter

def appearanceForm : Form Appearance :=
  (Form.of Appearance.mk).required "character" string
    |>.required "sprite" string
    |>.optional "position" byte 50
    |>.optional "fade_time" (binary .double) shortFade
    |>.optional "switch" named .enter

def dialogueForm : Form Dialogue :=
  (Form.of Dialogue.mk).required "character" string
    |>.optional "player_line" boolean false
    |>.optional "lines" (list Line.decoder) []

def changeForm : Form Change :=
  (Form.of Change.mk).required "target" Target.decoder
    |>.optional "operator" named .set
    |>.required "value" string

def checkForm : Form Check :=
  (Form.of Check.mk).required "target" Target.decoder
    |>.optional "operator" named .equalTo
    |>.required "value" string

def sceneSwitchForm : Form SceneSwitch :=
  (Form.of SceneSwitch.mk).required "scene" string
    |>.optional "fade_time" (binary .double) longFade

def checkpointForm : Form Checkpoint :=
  (Form.of Checkpoint.mk).required "action" named
    |>.required "checkpoint_id" int32
    |>.optional "target_checkpoint_id" int32 0

/-- Reads a combiner, which has no fields: an object may say anything, and a list
    has to be empty. -/
def combinerDecoder : Decoder Content
  | source, .array (_ :: _) _ => .error (tooMany source)
  | _, _ => .ok .combiner

/-- The kinds of contents, with what they read from the members of a node. -/
def cases : List (String × Decoder Content) := [
  ("State", map .state ((Form.of id).required "switch" named).decoder),
  ("Background", map .background backgroundForm.decoder),
  ("Character", map .character appearanceForm.decoder),
  ("Dialogue", map .dialogue dialogueForm.decoder),
  ("Choice", map .choice ((Form.of id).optional "choices" (list Choice.decoder) []).decoder),
  ("Event", map .event changeForm.decoder),
  ("Condition", map .condition checkForm.decoder),
  ("Scene", map .scene sceneSwitchForm.decoder),
  ("Checkpoint", map .checkpoint checkpointForm.decoder),
  ("Combiner", combinerDecoder)]

/-- The kind of a name. -/
def named? : Json → Option (Decoder Content)
  | .string s => cases.lookup s
  | _ => none

/-- The kind of a name or of a number; the kinds are numbered in order. -/
def case? : Json → Option (Decoder Content)
  | .number (.natural n) => cases[n]?.map Prod.snd
  | j => named? j

/-- The member that says what the content is. -/
def tag : String := "type"

/-- Reads a content of a kind from what else was said of it. -/
def ofKind (kind : Option (Decoder Content)) (j : Json) : Except Json.Fault Content :=
  match kind with
  | some d => d .buffered j
  | none => .error .unfit

/-- Reads a content from the members of an object, which were read before. -/
def ofMembers (kind? : Json → Option (Decoder Content)) (members : List (Json.Name × Json)) :
    Except Json.Fault Content :=
  match members.filter fun m => decide (m.1 = .text tag) with
  | [(_, j)] => ofKind (kind? j) (.object members none)
  | _ => .error .unfit

/-- Reads a content by itself: an object, or a list of the kind and the fields. -/
def decoder : Decoder Content
  | _, .object members flaw =>
    (ensure (Json.reading? (.object members flaw))).bind fun _ => ofMembers named? members
  | _, .array (kind :: fields) flaw =>
    (ensure (Json.reading? (.array (kind :: fields) flaw))).bind fun _ =>
      ofKind (named? kind) (.array fields none)
  | _, .array [] flaw => (ensure flaw).bind fun _ => .error .unfit
  | _, j => .error j.mismatch

/-- The members of a content, without the one that says what it is. -/
def members : Content → List (String × Json)
  | state switch => [("switch", .string (Named.name switch))]
  | background b => [
    ("asset_kind", .string (Named.name b.assetKind)), ("background", .string b.key),
    ("fade_time", .ofDouble b.fade), ("looped", .boolean b.looped),
    ("switch", .string (Named.name b.switch))]
  | character a => [
    ("character", .string a.character), ("sprite", .string a.sprite),
    ("position", .ofInt a.position.toNat), ("fade_time", .ofDouble a.fade),
    ("switch", .string (Named.name a.switch))]
  | dialogue d => [
    ("character", .string d.character), ("player_line", .boolean d.playerLine),
    ("lines", .list (d.lines.map Line.toJson))]
  | choice choices => [("choices", .list (choices.map Choice.toJson))]
  | event c => [
    ("target", c.target.toJson), ("operator", .string (Named.name c.operation)),
    ("value", .string c.literal)]
  | condition c => [
    ("target", c.target.toJson), ("operator", .string (Named.name c.comparison)),
    ("value", .string c.literal)]
  | scene s => [("scene", .string s.scene), ("fade_time", .ofDouble s.fade)]
  | checkpoint c => [
    ("action", .string (Named.name c.action)), ("checkpoint_id", .ofInt32 c.id),
    ("target_checkpoint_id", .ofInt32 c.target)]
  | combiner => []

end Content

namespace Node

/-! ## Nodes and scenes -/

/-- The members of a node that do not belong to its content. -/
def form : Form (Content → Node) :=
  (Form.of Node.mk).required "id" NodeId.decoder
    |>.optional "tooltip" string ""
    |>.optional "previous" (option NodeId.decoder) none
    |>.optional "next" (option NodeId.decoder) none
    |>.optional "inputs" (list Connector.decoder) []
    |>.optional "outputs" (list Connector.decoder) []

/-- The members that are left to the content. -/
def contentMembers (members : List (Json.Name × Json)) : List (Json.Name × Json) :=
  members.filter fun m =>
    match m.1 with
    | .text s => !form.names.contains s
    | _ => true

/-- Reads a node from an object.  What is left to the content has to be read whole,
    before anything is known about it. -/
def decoder : Decoder Node
  | source, .object members flaw =>
    (form.objectDecoder Json.reading? source (.object members flaw)).bind fun node =>
      (Content.ofMembers Content.case? (contentMembers members)).map node
  | _, j => .error j.mismatch

def toJson (n : Node) : Json := .record <| [
  ("id", n.id.toJson), ("tooltip", .string n.tooltip), ("previous", .ofNode? n.previous),
  ("next", .ofNode? n.next), ("inputs", .list (n.inputs.map Connector.toJson)),
  ("outputs", .list (n.outputs.map Connector.toJson)),
  (Content.tag, .string n.content.kindName)] ++ n.content.members

end Node

namespace Table

def decoder : Decoder Table := map ofList (Decoder.table string)

def toJson (t : Table) : Json := .record (t.entries.map fun e => (e.1, .string e.2))

end Table

namespace Scene

def decoder : Decoder Scene :=
  (Form.of Scene.mk).required "name" string
    |>.optional "id" int32 0
    |>.optional "nodes" (list Node.decoder) []
    |>.optional "connections" (list Connection.decoder) []
    |>.optional "backgrounds" Table.decoder .empty
    |>.decoder

def toJson (s : Scene) : Json := .record [
  ("name", .string s.name), ("id", .ofInt32 s.id), ("nodes", .list (s.nodes.map Node.toJson)),
  ("connections", .list (s.connections.map Connection.toJson)),
  ("backgrounds", s.backgrounds.toJson)]

/-- The text of a scene. -/
def text (s : Scene) : String := s.toJson.text

/-- The scene that a text denotes. -/
def read (text : String) : Except SceneError Scene :=
  (decode decoder text).mapError .unreadable

end Scene

end VisualNovel
