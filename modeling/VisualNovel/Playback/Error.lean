/-
  Why playback cannot go on.
-/
import VisualNovel.Uuid

namespace VisualNovel

/-- What makes it impossible to go on. -/
inductive PlaybackError where
  | sceneNotFound (scene : String)
  | choiceOutputMismatch (node : NodeId) (choices outputs : Nat)
  | choiceOutputMissing (node : NodeId) (choice output : Nat)
  | conditionOutputs (node : NodeId) (outputs : Nat)
  /-- The scene would be played in the same way for ever. -/
  | noProgress (scene : String)
  | driver (message : String)
  deriving DecidableEq, Repr

namespace PlaybackError

/-- What is said about an error. -/
def message : PlaybackError → String
  | sceneNotFound scene => "scene `" ++ scene ++ "` not found in project"
  | choiceOutputMismatch n choices outputs =>
    s!"choice node {n.text} has {choices} choices but {outputs} outputs"
  | choiceOutputMissing n choice output =>
    s!"choice {choice} of node {n.text} leaves through missing output {output}"
  | conditionOutputs n outputs => s!"condition node {n.text} has {outputs} outputs, expected 2"
  | noProgress scene =>
    "scene `" ++ scene ++ "` was re-entered with unchanged blackboards and no wait in between"
  | driver message => s!"playback driver failed: {message}"

/-- The code that tools know an error by. -/
def code : PlaybackError → String
  | sceneNotFound _ => "storyweave::playback::scene_not_found"
  | choiceOutputMismatch .. => "storyweave::playback::choice_output_mismatch"
  | choiceOutputMissing .. => "storyweave::playback::choice_output_missing"
  | conditionOutputs .. => "storyweave::playback::condition_outputs"
  | noProgress _ => "storyweave::playback::no_progress"
  | driver _ => "storyweave::playback::driver"

/-- The advice that goes with an error. -/
def help? : PlaybackError → Option String
  | sceneNotFound _ =>
    some "Check the scene name passed to the player against Project::scenes."
  | choiceOutputMismatch .. =>
    some ("Edit choices with Scene::add_choice and Scene::remove_choice to keep outputs " ++
      "in step.")
  | conditionOutputs .. => some "Output 0 is the true branch and output 1 the false branch."
  | noProgress _ =>
    some ("An Enter node wired straight to Exit, or scene switches in a cycle, replay " ++
      "identically forever.")
  | _ => none

end PlaybackError

end VisualNovel
