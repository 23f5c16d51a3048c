import VisualNovel.Board.Basic
import VisualNovel.Board.Comparison
import VisualNovel.Board.Json
import VisualNovel.Board.Rule
import VisualNovel.Board.Value
import VisualNovel.Bus
import VisualNovel.Intent.Basic
import VisualNovel.Intent.Json
import VisualNovel.Json.Basic
import VisualNovel.Json.Decoder
import VisualNovel.Json.Form
import VisualNovel.Json.Number
import VisualNovel.Json.Printer
import VisualNovel.Json.Reader
import VisualNovel.Json.Token
import VisualNovel.Named
import VisualNovel.Number.Arithmetic
import VisualNovel.Number.Decimal
import VisualNovel.Number.Duration
import VisualNovel.Number.Format
import VisualNovel.Number.Literal
import VisualNovel.Number.Rounding
import VisualNovel.Playback.Config
import VisualNovel.Playback.Engine
import VisualNovel.Playback.Error
import VisualNovel.Playback.Player
import VisualNovel.Playback.Session
import VisualNovel.Playback.State
import VisualNovel.Project.Assets
import VisualNovel.Project.Basic
import VisualNovel.Project.Json
import VisualNovel.Proofs.Scene.Editing
import VisualNovel.Proofs.Scene.Shape
import VisualNovel.Proofs.Scene.Wiring
import VisualNovel.Scene.Basic
import VisualNovel.Scene.Blueprint
import VisualNovel.Scene.Connector
import VisualNovel.Scene.Edit
import VisualNovel.Scene.Error
import VisualNovel.Scene.Index
import VisualNovel.Scene.Json
import VisualNovel.Scene.Node
import VisualNovel.Table
import VisualNovel.Text.Blank
import VisualNovel.Text.Hex
import VisualNovel.Text.Replace
import VisualNovel.Uuid
import VisualNovel.Proofs.Scene.Integrity
import VisualNovel.Proofs.Board.Agreement
import VisualNovel.Proofs.Board.Range
import VisualNovel.Proofs.Playback.Act
import VisualNovel.Proofs.Playback.Call
import VisualNovel.Proofs.Playback.Confine
import VisualNovel.Proofs.Playback.Step
import VisualNovel.Proofs.Playback.Termination
import VisualNovel.Proofs.Playback.Cycle
import VisualNovel.Proofs.Playback.History
import VisualNovel.Proofs.Playback.Wait
import VisualNovel.Proofs.Playback.Journal
import VisualNovel.Proofs.Playback.Screen
import VisualNovel.Proofs.Playback.Visit
import VisualNovel.Proofs.Scene.Way
import VisualNovel.Proofs.Playback.Dwell
import VisualNovel.Proofs.Playback.Walk
import VisualNovel.Proofs.Playback.Speech
import VisualNovel.Proofs.Scene.Layout
import VisualNovel.Proofs.Playback.Layout
import VisualNovel.Proofs.Playback.Renaming
import VisualNovel.Proofs.Playback.Effect
import VisualNovel.Proofs.Playback.Replay
import VisualNovel.Proofs.Board.Level
import VisualNovel.Proofs.Playback.Unchecked
import VisualNovel.Proofs.Playback.Level
import VisualNovel.Proofs.Playback.Endless
import VisualNovel.Proofs.Player.Ending
import VisualNovel.Proofs.Player.Timer
import VisualNovel.Proofs.Playback.Restart
import VisualNovel.Proofs.Bus.Delivery
import VisualNovel.Proofs.Board.Stored
import VisualNovel.Proofs.Json.Yield
import VisualNovel.Proofs.Project.Stored
import VisualNovel.Proofs.Scene.Refusal
import VisualNovel.Proofs.Scene.Successor
import VisualNovel.Proofs.Scene.Removal
import VisualNovel.Proofs.Board.Register
import VisualNovel.Proofs.Scene.Scan
import VisualNovel.Proofs.Scene.Erasure
import VisualNovel.Proofs.Scene.Building
import VisualNovel.Proofs.Board.Keyed
import VisualNovel.Proofs.Playback.Move
import VisualNovel.Proofs.Player.Tally
import VisualNovel.Proofs.Bus.Subscription
import VisualNovel.Proofs.Number.Magnitude
import VisualNovel.Proofs.Number.Nearest
import VisualNovel.Proofs.Number.Duration
import VisualNovel.Proofs.Playback.Fade
import VisualNovel.Proofs.Project.Directory
import VisualNovel.Proofs.Intent.Stored
