/-
  Intents as documents: an object with the kind of the intent under `type` and what
  belongs to it under `payload`, in either order, or a list of the two.

  * `Intent.decoder` reads an intent, `Intent.toJson` writes one.
-/
import VisualNovel.Intent.Basic
import VisualNovel.Scene.Json

namespace VisualNovel

open Decoder
open Json (Fault)

namespace ChainEnd

def decoder : Decoder ChainEnd := oneOf [
  ("NoEntry", .plain .noEntry),
  ("DeadEnd", .holding ((Form.of deadEnd).required "node" NodeId.decoder).decoder),
  ("Revisited", .holding ((Form.of revisited).required "node" NodeId.decoder).decoder),
  ("MissingScene", .holding ((Form.of missingScene).required "scene" string).decoder)]

def toJson : ChainEnd → Json
  | noEntry => .string "NoEntry"
  | deadEnd n => .record [("DeadEnd", .record [("node", n.toJson)])]
  | revisited n => .record [("Revisited", .record [("node", n.toJson)])]
  | missingScene scene => .record [("MissingScene", .record [("scene", .string scene)])]

end ChainEnd

namespace Intent

/-! ## Writing -/

/-- What belongs to an intent. -/
def payload : Intent → Json
  | showBackground path fade =>
    .record [("path", .string path), ("fade_seconds", .ofDouble fade)]
  | showCharacter character sprite position offset fade => .record [
    ("character", .string character), ("sprite", .string sprite),
    ("x_percent", .ofInt position.toNat), ("offset_x", .ofDouble (offset.convert .double)),
    ("fade_seconds", .ofDouble fade)]
  | hideCharacter character => .record [("character", .string character)]
  | revealText speaker text | showLine speaker text =>
    .record [("speaker", .string speaker), ("text", .string text)]
  | changeSprite character sprite =>
    .record [("character", .string character), ("sprite", .string sprite)]
  | playVoice character audio =>
    .record [("character", .string character), ("audio", .string audio)]
  | showChoices choices => .record [("choices", .list (choices.map .string))]
  | switchScene scene fade =>
    .record [("scene", .string scene), ("fade_seconds", .ofDouble fade)]
  | sessionStopped => .null
  | chainEnded reason => .record [("reason", reason.toJson)]
  | fault message => .record [("message", .string message)]

/-- An intent as it is forwarded at some time. -/
def toJson (timestamp : String) (i : Intent) : Json := .record [
  ("payload", i.payload), ("timestamp", .string timestamp), ("type", .string i.kindName)]

/-! ## Reading -/

/-- How the rest of an intent is read when its kind is known. -/
structure Kind where
  read : Decoder Intent
  /-- The intent, if nothing belongs to it. -/
  bare : Option Intent := none

/-- A kind whose payload is an object. -/
def Kind.ofForm (form : Form Intent) : Kind := ⟨form.objectDecoder Json.passing?, none⟩

/-- A kind without a payload. -/
def Kind.plain (i : Intent) : Kind where
  read
    | _, .null => .ok i
    | _, j => .error j.mismatch
  bare := some i

/-- The kinds of intents. -/
def kinds : List (String × Kind) := [
  ("ShowBackground", .ofForm <| (Form.of showBackground).required "path" string
    |>.required "fade_seconds" (binary .double)),
  ("ShowCharacter", .ofForm <| (Form.of showCharacter).required "character" string
    |>.required "sprite" string
    |>.required "x_percent" byte
    |>.required "offset_x" (binary .single)
    |>.required "fade_seconds" (binary .double)),
  ("HideCharacter", .ofForm <| (Form.of hideCharacter).required "character" string),
  ("RevealText", .ofForm <| (Form.of revealText).required "speaker" string
    |>.required "text" string),
  ("ShowLine", .ofForm <| (Form.of showLine).required "speaker" string
    |>.required "text" string),
  ("ChangeSprite", .ofForm <| (Form.of changeSprite).required "character" string
    |>.required "sprite" string),
  ("PlayVoice", .ofForm <| (Form.of playVoice).required "character" string
    |>.required "audio" string),
  ("ShowChoices", .ofForm <| (Form.of showChoices).required "choices" (list string)),
  ("SwitchScene", .ofForm <| (Form.of switchScene).required "scene" string
    |>.required "fade_seconds" (binary .double)),
  ("SessionStopped", .plain .sessionStopped),
  ("ChainEnded", .ofForm <| (Form.of chainEnded).required "reason" ChainEnd.decoder),
  ("Fault", .ofForm <| (Form.of fault).required "message" string)]

/-- Reads the kind of an intent. -/
def kindDecoder : Decoder Kind := oneOf (kinds.map fun k => (k.1, .plain k.2))

/-- Reads the kind of an intent where nothing but its name may stand. -/
def kindNameDecoder : Decoder Kind := filterMap (fun s => kinds.lookup s) string

/-- What is known of an intent on the way through its members. -/
inductive Draft where
  | blank
  | ofKind (k : Kind)
  /-- A payload that was read before its kind. -/
  | held (j : Json)
  | whole (i : Intent)

namespace Draft

/-- Takes the kind in. -/
def putKind (source : Source) (j : Json) : Draft → Except Fault Draft
  | blank => (kindDecoder source j).map ofKind
  | held p => (kindDecoder source j).bind fun k => (k.read .buffered p).map whole
  | _ => .error .unfit

/-- Takes the payload in. -/
def putPayload (source : Source) (j : Json) : Draft → Except Fault Draft
  | blank => (ensure (Json.reading? j)).map fun _ => held j
  | ofKind k => (k.read source j).map whole
  | _ => .error .unfit

/-- Goes through the members of an object. -/
def fill (source : Source) : List (Json.Name × Json) → Draft → Except Fault Draft
  | [], d => .ok d
  | (.text name, j) :: ms, d =>
    (if name = "type" then putKind source j d
      else if name = "payload" then putPayload source j d
      else (ensure (Json.passing? j)).map fun _ => d).bind (fill source ms)
  | (.unreadable, _) :: _, _ => .error .malformed
  | (.absent read _, _) :: _, _ => .error read

/-- The intent, if it is known. -/
def finish : Draft → Except Fault Intent
  | whole i => .ok i
  | ofKind ⟨_, some i⟩ => .ok i
  | _ => .error .unfit

end Draft

def decoder : Decoder Intent
  | source, .object members flaw =>
    (Draft.blank.fill source members).bind fun d => (ensure flaw).bind fun _ => d.finish
  | source, .array (kind :: items) flaw =>
    (kindNameDecoder source kind).bind fun k =>
      match items with
      | [] => (ensure flaw).bind fun _ => .error .unfit
      | [p] => (k.read source p).bind fun i => (ensure flaw).map fun _ => i
      | p :: _ => (k.read source p).bind fun _ => .error (tooMany source)
  | _, .array [] flaw => (ensure flaw).bind fun _ => .error .unfit
  | _, j => .error j.mismatch

end Intent

end VisualNovel
