/-
  Buses: intents on their way from a playback to sinks and subscribers.

  What is emitted waits in a queue until the listener of the bus takes it.  The
  listener hands each intent to all sinks and then publishes it.  Subscribers read
  what was published after they came; only the last intents are kept, and a reader
  who is further behind is told how many it missed.

  * `Bus.emit`, `Bus.listen`, `Bus.drain` and `Bus.stopListener` move intents to the
    sinks;
  * `Bus.poll` reads the next intent of a subscriber.
-/
import VisualNovel.Intent.Basic
import VisualNovel.Playback.Config

namespace VisualNovel

/-- Why an intent could not be emitted. -/
inductive EmitError where
  | closed
  | other (reason : String)
  deriving DecidableEq, Repr

namespace EmitError

def message : EmitError → String
  | closed => "intent channel closed"
  | other reason => s!"intent emission failed: {reason}"

def code : EmitError → String
  | closed => "storyweave::presentation::closed"
  | other _ => "storyweave::presentation::other"

def help? : EmitError → Option String
  | closed => some "The host dropped its receiver; intents are discarded."
  | other _ => none

end EmitError

/-- A place that intents are handed to. -/
inductive Sink where
  /-- It writes a log. -/
  | log (written : String)
  /-- It keeps all intents. -/
  | memory (kept : List Intent)
  /-- It passes them on to a consumer, if there still is one. -/
  | channel (pending : List Intent) (consumed : Bool)
  deriving DecidableEq

namespace Sink

/-- The sink of a kind, before anything was handed to it. -/
def ofKind : SinkKind → Sink
  | .stdOut => log ""
  | .memory => memory []

/-- Hands an intent to a sink. -/
def handle (i : Intent) : Sink → Sink
  | log written => log (written ++ i.line false)
  | memory kept => memory (kept ++ [i])
  | channel pending true => channel (pending ++ [i]) true
  | channel pending false => channel pending false

/-- The intents that a sink holds. -/
def intents : Sink → List Intent
  | log _ => []
  | memory kept => kept
  | channel pending _ => pending

/-- The sink after what it holds was taken away. -/
def cleared : Sink → Sink
  | log written => log written
  | memory _ => memory []
  | channel _ consumed => channel [] consumed

end Sink

/-- A bus of intents. -/
structure Bus where
  sinks : List Sink := []
  /-- The intents that were emitted and not yet taken. -/
  queue : List Intent := []
  listening : Bool := false
  /-- The number of published intents that are kept. -/
  kept : Nat
  /-- All intents that were published. -/
  published : List Intent := []
  /-- For each subscriber, the number of published intents that it is past. -/
  readers : List Nat := []
  /-- The number of intents that subscribers were told they missed. -/
  dropped : Nat := 0
  /-- Whether the bus is still there. -/
  alive : Bool := true

namespace Bus

-- A power is that of the numbers, also where monoids are in scope.
attribute [local instance (high)] instPowNat

/-- The least power of two that is not below a number. -/
def powerOfTwo (n : Nat) : Nat := if n ≤ 1 then 1 else 2 ^ ((n - 1).log2 + 1)

/-- A bus with given sinks. -/
def ofSinks (capacity : Nat) (sinks : List Sink) : Bus :=
  { sinks, kept := powerOfTwo capacity }

/-- A bus with the sinks of its settings. -/
def ofConfig (c : BusConfig) : Bus := ofSinks c.capacity (c.sinks.map Sink.ofKind)

/-- Adds a sink; it gets what is handed out from now on. -/
def addSink (b : Bus) (s : Sink) : Bus := { b with sinks := b.sinks ++ [s] }

/-- Changes the sink at a position. -/
def modifySink (b : Bus) (i : Nat) (f : Sink → Sink) : Bus := { b with sinks := b.sinks.modify i f }

/-- Emits an intent. -/
def emit (b : Bus) (i : Intent) : Except EmitError Bus :=
  if b.alive then .ok { b with queue := b.queue ++ [i] } else .error .closed

/-- Starts the listener, if it is not running. -/
def listen (b : Bus) : Bus := { b with listening := true }

/-- Hands an intent to all sinks and publishes it.  A sink that fails stays as it is, and
    those after it are handed the intent all the same. -/
def handOut (fails : Nat → Bool) (b : Bus) (i : Intent) : Bus :=
  { b with
    sinks := b.sinks.mapIdx fun j s => if fails j then s else s.handle i
    published := b.published ++ [i] }

/-- Hands an intent to all sinks, none of which fails, and publishes it. -/
def dispatch (b : Bus) (i : Intent) : Bus := b.handOut (fun _ => false) i

/-- What the listener does when its turn comes: it hands out all that was emitted. -/
def drain (b : Bus) : Bus :=
  if b.listening then b.queue.foldl dispatch { b with queue := [] } else b

/-- Stops the listener after it handed out what was emitted. -/
def stopListener (b : Bus) : Bus := { b.drain with listening := false }

/-- Ends the bus.  What was not handed out is lost. -/
def close (b : Bus) : Bus := { b with alive := false, listening := false, queue := [] }

/-- Adds a subscriber, who reads what is published from now on. -/
def subscribe (b : Bus) : Bus := { b with readers := b.readers ++ [b.published.length] }

/-- What a subscriber finds. -/
inductive Delivery where
  | intent (i : Intent)
  /-- Some intents were missed. -/
  | lagged (missed : Nat)
  | nothing
  /-- There is nothing, and nothing will come. -/
  | closed
  deriving DecidableEq

/-- The number of published intents that are no longer kept. -/
def forgotten (b : Bus) : Nat := b.published.length - b.kept

/-- Reads the next intent of a subscriber. -/
def poll (b : Bus) (reader : Nat) : Bus × Delivery :=
  match b.readers[reader]? with
  | none => (b, .closed)
  | some position =>
    if position < b.forgotten then
      ({ b with
          readers := b.readers.set reader b.forgotten
          dropped := b.dropped + (b.forgotten - position) },
        .lagged (b.forgotten - position))
    else match b.published[position]? with
      | some i => ({ b with readers := b.readers.set reader (position + 1) }, .intent i)
      | none => (b, if b.alive then .nothing else .closed)

/-- Reads the next intent of a subscriber; if there is none the listener gets its
    turn first. -/
def receive (b : Bus) (reader : Nat) : Bus × Delivery :=
  match b.poll reader with
  | (b, .nothing) => b.drain.poll reader
  | r => r

/-- Reads the next intent of a subscriber with a way of reading, and goes on after
    gaps.  After a gap no other one comes at once. -/
def next (read : Bus → Nat → Bus × Delivery) (b : Bus) (reader : Nat) : Bus × Delivery :=
  match read b reader with
  | (b, .lagged _) => read b reader
  | r => r

/-- Reads intents of a subscriber until none comes, at most `n`. -/
def collect (b : Bus) (reader : Nat) : (n : Nat) → Bus × List Intent × Delivery
  | 0 => (b, [], .nothing)
  | n + 1 =>
    match b.next receive reader with
    | (b, .intent i) =>
      let (b, is, last) := b.collect reader n
      (b, i :: is, last)
    | (b, last) => (b, [], last)

end Bus

end VisualNovel
