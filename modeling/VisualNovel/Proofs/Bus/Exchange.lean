/-
  A bus at work: emitters, hosts and the listeners of the bus take turns, in any order.

  A host that stops the listener waits until it has ended.  Meanwhile others go on, and they
  may even start another listener.  So there can be several listeners at a time, of which
  one at most is the one that a host would find.

  * `Exchange` is a bus with the listeners that were started, `Exchange.Step` lists what may
    happen to it, and `Event` what can be seen of that;
  * `Exchange.Run` are all runs of a bus, with the log of their events;
  * `Exchange.Run.drain` and `Exchange.Run.stopListener`: what `Bus.drain` and
    `Bus.stopListener` do in one go is one of these runs.
-/
import VisualNovel.Bus

namespace VisualNovel

/-- Where no sink fails, each is handed the intent. -/
theorem Bus.sinks_dispatch (b : Bus) (i : Intent) :
    (b.dispatch i).sinks = b.sinks.map (Sink.handle i) :=
  List.ext_getElem (by simp [dispatch, handOut]) (by simp [dispatch, handOut])

/-- What several intents do that are handed out one after the other. -/
theorem Bus.foldl_dispatch (is : List Intent) (b : Bus) :
    is.foldl dispatch b =
      { b with
        sinks := b.sinks.map fun s => is.foldl (fun s i => s.handle i) s
        published := b.published ++ is } := by
  induction is generalizing b with
  | nil => simp
  | cons i is ih =>
    rw [List.foldl_cons, ih, sinks_dispatch, List.map_map]
    simp [dispatch, handOut]

/-- A listener that has had its turn leaves nothing behind. -/
theorem Bus.queue_drain {b : Bus} (h : b.listening = true) : b.drain.queue = [] := by
  rw [drain, if_pos h, foldl_dispatch]

theorem Bus.emit_eq_ok {b b' : Bus} {i : Intent} (h : b.emit i = .ok b') :
    b' = { b with queue := b.queue ++ [i] } := by
  unfold Bus.emit at h
  split at h
  · cases h
    rfl
  · cases h

/-- What stands in a log with a last step was logged before, or it is of that step. -/
theorem split_append {α : Type} {log es pre post : List α} {e : α}
    (h : log ++ es = pre ++ e :: post) :
    (∃ post', log = pre ++ e :: post' ∧ post = post' ++ es) ∨
      ∃ pre', pre = log ++ pre' ∧ es = pre' ++ e :: post := by
  rcases List.append_eq_append_iff.1 h with ⟨pre', hpre, hes⟩ | ⟨rest, hlog, hrest⟩
  · exact .inr ⟨pre', hpre, hes⟩
  · cases rest with
    | nil => exact .inr ⟨[], by simpa using hlog.symm, hrest.symm⟩
    | cons e' post' =>
      cases hrest
      exact .inl ⟨post', hlog, rfl⟩

/-- How far a listener has got. -/
inductive Listener where
  | serving
  /-- It is told to stop, which it need not heed at once. -/
  | told
  /-- It hands out what is left. -/
  | flushing
  | ended
  /-- It has ended, and the call that it was stopped by has returned. -/
  | left
  deriving DecidableEq

/-- Whether a listener still takes intents. -/
def Listener.isAwake : Listener → Bool
  | serving | told | flushing => true
  | ended | left => false

/-- What can be seen of a bus at work. -/
inductive Event where
  | emitted (i : Intent)
  | added (s : Sink)
  /-- A listener takes an intent from the queue. -/
  | taken (i : Intent)
  /-- The sink at a position is handed an intent, and fails or not. -/
  | handed (sink : Nat) (i : Intent) (failed : Bool)
  /-- A call that stops the listener finds one. -/
  | called (listener : Nat)
  /-- The call that stopped a listener returns. -/
  | returned (listener : Nat)

/-- The events of taking an intent and handing it to sinks. -/
def Event.fanOut (sinks : Nat) (fails : Nat → Bool) (i : Intent) : List Event :=
  .taken i :: (List.range sinks).map fun j => .handed j i (fails j)

/-- A bus with the listeners that were started, the first one first.  While the bus is
    listening the last one is the one that a host would find. -/
structure Exchange where
  bus : Bus
  listeners : List Listener := []

namespace Exchange

/-- What may happen, and what is seen of it. -/
inductive Step : Exchange → List Event → Exchange → Prop where
  /-- One of the emitters emits an intent. -/
  | emits {x : Exchange} {b : Bus} {i : Intent} (sent : x.bus.emit i = .ok b) :
    Step x [.emitted i] { x with bus := b }
  | adds (x : Exchange) (s : Sink) : Step x [.added s] { x with bus := x.bus.addSink s }
  | listens {x : Exchange} (off : x.bus.listening = false) :
    Step x [] ⟨x.bus.listen, x.listeners ++ [.serving]⟩
  /-- A host starts the listener, which is running. -/
  | listensOn {x : Exchange} (on : x.bus.listening = true) : Step x [] x
  /-- A host stops the listener, and waits for it. -/
  | calls {b : Bus} {ls : List Listener} {l : Listener} (on : b.listening = true) :
    Step ⟨b, ls ++ [l]⟩ [.called ls.length] ⟨{ b with listening := false }, ls ++ [.told]⟩
  /-- A host stops the listener and finds none. -/
  | callsOff {x : Exchange} (off : x.bus.listening = false) : Step x [] x
  /-- A listener takes an intent and hands it out. -/
  | takes {x : Exchange} {k : Nat} {l : Listener} {i : Intent} {rest : List Intent}
    (fails : Nat → Bool) (stands : x.listeners[k]? = some l) (awake : l.isAwake = true)
    (next : x.bus.queue = i :: rest) :
    Step x (Event.fanOut x.bus.sinks.length fails i)
      { x with bus := { x.bus with queue := rest }.handOut fails i }
  | heeds {x : Exchange} {k : Nat} (stands : x.listeners[k]? = some .told) :
    Step x [] { x with listeners := x.listeners.set k .flushing }
  /-- A listener that hands out what is left finds nothing. -/
  | ends {x : Exchange} {k : Nat} (stands : x.listeners[k]? = some .flushing)
    (empty : x.bus.queue = []) : Step x [] { x with listeners := x.listeners.set k .ended }
  /-- The call that stopped a listener returns, as the listener has ended. -/
  | returns {x : Exchange} {k : Nat} (stands : x.listeners[k]? = some .ended) :
    Step x [.returned k] { x with listeners := x.listeners.set k .left }

/-- The runs of a bus, each with all that was seen of it. -/
inductive Run (b : Bus) : List Event → Exchange → Prop where
  | start : Run b [] ⟨b, []⟩
  | next {log es : List Event} {x y : Exchange} (run : Run b log x) (step : x.Step es y) :
    Run b (log ++ es) y

namespace Run
variable {b : Bus} {log : List Event} {x : Exchange}

/-- A bus that is listening has a listener, which was not told to stop. -/
theorem serving (h : Run b log x) (hb : b.listening = false) (hx : x.bus.listening = true) :
    ∃ ls, x.listeners = ls ++ [.serving] := by
  induction h with
  | start =>
    rw [hb] at hx
    cases hx
  | next _ step ih =>
    cases step with
    | emits sent =>
      cases Bus.emit_eq_ok sent
      exact ih hx
    | adds | listensOn | callsOff | takes => exact ih hx
    | listens => exact ⟨_, rfl⟩
    | calls => cases hx
    | heeds stands | ends stands | returns stands =>
      obtain ⟨ls, hls⟩ := ih hx
      rw [hls] at stands ⊢
      rcases Nat.lt_or_ge _ ls.length with hlt | hge
      · exact ⟨_, List.set_append_left _ _ hlt⟩
      · rw [List.getElem?_append_right hge, List.getElem?_singleton] at stands
        split at stands
        · cases stands
        · cases stands

/-- A listener that goes on hands out the whole queue. -/
theorem handsOut (h : Run b log x) {k : Nat} {l : Listener} (hk : x.listeners[k]? = some l)
    (hl : l.isAwake = true) :
    ∃ es, Run b (log ++ es)
      { x with bus := x.bus.queue.foldl Bus.dispatch { x.bus with queue := [] } } := by
  obtain ⟨bus, listeners⟩ := x
  generalize hq : bus.queue = q
  induction q generalizing log bus with
  | nil =>
    refine ⟨[], ?_⟩
    rw [List.append_nil, List.foldl_nil, ← hq]
    exact h
  | cons i rest ih =>
    have hnext := h.next (.takes (fun _ => false) hk hl hq)
    obtain ⟨es, hrest⟩ := ih _ hnext hk rfl
    rw [List.append_assoc] at hrest
    exact ⟨_, hrest⟩

variable {capacity : Nat} {sinks : List Sink}

/-- The turn of the listener, in which it hands out all that was emitted. -/
theorem drain (h : Run (.ofSinks capacity sinks) log x) :
    (∃ es, Run (.ofSinks capacity sinks) (log ++ es) { x with bus := x.bus.drain }) ∧
      (x.bus.listening = true → x.bus.drain.queue = []) := by
  refine ⟨?_, Bus.queue_drain⟩
  unfold Bus.drain
  split
  · rename_i hx
    obtain ⟨ls, hls⟩ := h.serving rfl hx
    exact h.handsOut (k := ls.length) (by rw [hls, List.getElem?_concat_length]) rfl
  · exact ⟨[], by rwa [List.append_nil]⟩

/-- Stopping the listener, while nothing else happens: it is told to, hands out what is left
    and ends. -/
theorem stopListener (h : Run (.ofSinks capacity sinks) log x) :
    (∃ es ls, Run (.ofSinks capacity sinks) (log ++ es) ⟨x.bus.stopListener, ls⟩) ∧
      (x.bus.listening = true → x.bus.stopListener.queue = []) := by
  refine ⟨?_, Bus.queue_drain⟩
  obtain ⟨bus, listeners⟩ := x
  cases hx : bus.listening with
  | false =>
    have hstop : bus.stopListener = bus := by
      rw [Bus.stopListener, Bus.drain, if_neg (by rw [hx]; nofun), ← hx]
    exact ⟨[], listeners, by rwa [List.append_nil, hstop]⟩
  | true =>
    obtain ⟨ls, rfl⟩ := h.serving rfl hx
    have hlast (l : Listener) : (ls ++ [l])[ls.length]? = some l := List.getElem?_concat_length
    have hset (l l' : Listener) : (ls ++ [l]).set ls.length l' = ls ++ [l'] := by simp
    have hheeds := (h.next (.calls hx)).next (.heeds (hlast .told))
    obtain ⟨es, hflushed⟩ := hheeds.handsOut (by rw [hset]; exact hlast .flushing) rfl
    have hends := hflushed.next (.ends (by rw [hset]; exact hlast .flushing)
      (by rw [Bus.foldl_dispatch]))
    have hreturns := hends.next (.returns (by rw [hset, hset]; exact hlast .ended))
    rw [Bus.stopListener, Bus.drain, if_pos hx]
    rw [Bus.foldl_dispatch] at hreturns ⊢
    simp only [List.append_assoc] at hreturns
    exact ⟨_, _, hreturns⟩

end Run

end Exchange

end VisualNovel
