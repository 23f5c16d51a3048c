/-
  What sinks are handed by a bus at work.

  * `Event.emissions`, `Event.intake` and `Event.handings` are the intents that a log says to
    be emitted, taken from the queue, and handed to a sink;
  * `Exchange.Step.queue` and `Exchange.Served.step`: a step neither loses nor repeats an
    intent, and all sinks are handed what is taken;
  * `Exchange.Run.delivers`: sinks are handed what was emitted, in order and without gaps,
    and all that was emitted before a call to stop the listener when that call returns.
-/
import VisualNovel.Proofs.Bus.Exchange

namespace VisualNovel

namespace Event

/-! ## Logs -/

/-- The intents that were emitted. -/
def emissions (es : List Event) : List Intent :=
  es.filterMap fun
    | emitted i => some i
    | _ => none

/-- The intents that were taken from the queue. -/
def intake (es : List Event) : List Intent :=
  es.filterMap fun
    | taken i => some i
    | _ => none

/-- The sinks that were added. -/
def additions (es : List Event) : List Sink :=
  es.filterMap fun
    | added s => some s
    | _ => none

/-- The intents that a sink was handed. -/
def handings (sink : Nat) (es : List Event) : List Intent :=
  es.filterMap fun
    | handed j i _ => if j = sink then some i else none
    | _ => none

/-- The intents that a sink was handed without failing. -/
def acceptances (sink : Nat) (es : List Event) : List Intent :=
  es.filterMap fun
    | handed j i failed => if j = sink ∧ failed = false then some i else none
    | _ => none

variable (as bs : List Event) (j n : Nat) (fails : Nat → Bool) (i : Intent)

@[simp] theorem emissions_append : emissions (as ++ bs) = emissions as ++ emissions bs :=
  List.filterMap_append

@[simp] theorem intake_append : intake (as ++ bs) = intake as ++ intake bs :=
  List.filterMap_append

@[simp] theorem additions_append : additions (as ++ bs) = additions as ++ additions bs :=
  List.filterMap_append

@[simp] theorem handings_append : handings j (as ++ bs) = handings j as ++ handings j bs :=
  List.filterMap_append

@[simp] theorem acceptances_append :
    acceptances j (as ++ bs) = acceptances j as ++ acceptances j bs :=
  List.filterMap_append

@[simp] theorem emissions_fanOut : emissions (fanOut n fails i) = [] := by
  simp [emissions, fanOut]

@[simp] theorem intake_fanOut : intake (fanOut n fails i) = [i] := by
  simp [intake, fanOut]

@[simp] theorem additions_fanOut : additions (fanOut n fails i) = [] := by
  simp [additions, fanOut]

theorem fanOut_succ : fanOut (n + 1) fails i = fanOut n fails i ++ [handed n i (fails n)] := by
  simp [fanOut, List.range_succ]

/-- Each of the sinks is handed the intent once. -/
@[simp] theorem handings_fanOut :
    handings j (fanOut n fails i) = if j < n then [i] else [] := by
  induction n with
  | zero => simp [handings, fanOut]
  | succ n ih =>
    rw [fanOut_succ, handings_append, ih]
    rcases Nat.lt_trichotomy j n with hlt | rfl | hgt
    · simp [handings, hlt, Nat.lt_succ_of_lt hlt, Nat.ne_of_gt hlt]
    · simp [handings]
    · simp [handings, Nat.not_lt.2 (Nat.le_of_lt hgt), Nat.not_lt.2 hgt, Nat.ne_of_lt hgt]

@[simp] theorem acceptances_fanOut :
    acceptances j (fanOut n fails i) = if j < n ∧ fails j = false then [i] else [] := by
  induction n with
  | zero => simp [acceptances, fanOut]
  | succ n ih =>
    rw [fanOut_succ, acceptances_append, ih]
    rcases Nat.lt_trichotomy j n with hlt | rfl | hgt
    · simp [acceptances, hlt, Nat.lt_succ_of_lt hlt, Nat.ne_of_gt hlt]
    · cases fails j <;> simp [acceptances, *]
    · simp [acceptances, Nat.not_lt.2 (Nat.le_of_lt hgt), Nat.not_lt.2 hgt, Nat.ne_of_lt hgt]

end Event

namespace Exchange

open Event

variable {x y : Exchange} {es log since : List Event} {j k : Nat} {s : Sink}

/-! ## Steps -/

/-- What is emitted goes to the end of the queue, and what is taken comes from its
    beginning. -/
theorem Step.queue (h : x.Step es y) :
    x.bus.queue ++ emissions es = intake es ++ y.bus.queue := by
  cases h with
  | emits sent =>
    cases Bus.emit_eq_ok sent
    rfl
  | takes fails stands awake next =>
    rw [next, emissions_fanOut, intake_fanOut]
    exact List.append_nil _
  | adds | listens | listensOn | calls | callsOff | heeds | ends | returns =>
    exact List.append_nil _

theorem Step.length_sinks (h : x.Step es y) :
    y.bus.sinks.length = x.bus.sinks.length + (additions es).length := by
  cases h with
  | emits sent =>
    cases Bus.emit_eq_ok sent
    rfl
  | adds => exact List.length_append
  | takes => simp [Bus.handOut]
  | listens | listensOn | calls | callsOff | heeds | ends | returns => rfl

/-- What becomes of a sink that is handed intents. -/
def afterAll (s : Sink) (is : List Intent) : Sink := is.foldl (fun s i => s.handle i) s

/-- Every sink that is there is handed what is taken, and takes it unless it fails. -/
theorem Step.serves (h : x.Step es y) (hj : x.bus.sinks[j]? = some s) :
    handings j es = intake es ∧ y.bus.sinks[j]? = some (afterAll s (acceptances j es)) := by
  cases h with
  | emits sent =>
    cases Bus.emit_eq_ok sent
    exact ⟨rfl, hj⟩
  | adds =>
    have hlt := (List.getElem?_eq_some_iff.1 hj).1
    exact ⟨rfl, by rwa [Bus.addSink, List.getElem?_append_left hlt]⟩
  | takes fails =>
    have hlt := (List.getElem?_eq_some_iff.1 hj).1
    refine ⟨by rw [handings_fanOut, intake_fanOut, if_pos hlt], ?_⟩
    simp only [Bus.handOut, List.getElem?_mapIdx, hj, Option.map_some, acceptances_fanOut, hlt]
    cases fails j <;> rfl
  | listens | listensOn | calls | callsOff | heeds | ends | returns => exact ⟨rfl, hj⟩

/-- No other sink is handed anything. -/
theorem Step.absent (h : x.Step es y) (hj : x.bus.sinks.length ≤ j) :
    handings j es = [] ∧ acceptances j es = [] := by
  cases h with
  | takes => simp [Nat.not_lt.2 hj]
  | emits | adds | listens | listensOn | calls | callsOff | heeds | ends | returns =>
    exact ⟨rfl, rfl⟩

theorem getElem?_concat_eq_some {α : Type} {as : List α} {a b : α}
    (h : (as ++ [a])[k]? = some b) : as[k]? = some b ∨ k = as.length ∧ b = a := by
  rw [List.getElem?_append] at h
  split at h
  · exact .inl h
  · rename_i hk
    obtain ⟨hk', hb⟩ := List.getElem?_eq_some_iff.1 h
    simp only [List.length_singleton] at hk'
    exact .inr ⟨by omega, by simpa using hb.symm⟩

/-- A listener ends when nothing is left. -/
theorem Step.ended (h : x.Step es y) (hk : y.listeners[k]? = some .ended) :
    x.listeners[k]? = some .ended ∧ (∀ l, .called l ∈ es → l ≠ k) ∨
      es = [] ∧ y.bus.queue = [] := by
  cases h with
  | emits | adds => exact .inl ⟨hk, by simp⟩
  | listensOn | callsOff => exact .inl ⟨hk, nofun⟩
  | takes => exact .inl ⟨hk, by simp [fanOut]⟩
  | listens =>
    rcases getElem?_concat_eq_some hk with hk | ⟨-, ⟨⟩⟩
    exact .inl ⟨hk, nofun⟩
  | calls =>
    rcases getElem?_concat_eq_some hk with hk | ⟨-, ⟨⟩⟩
    have hlt := (List.getElem?_eq_some_iff.1 hk).1
    refine .inl ⟨by rwa [List.getElem?_append_left hlt], fun l hl => ?_⟩
    cases List.mem_singleton.1 hl
    exact Nat.ne_of_gt hlt
  | heeds | returns =>
    rw [List.getElem?_set] at hk
    split at hk
    · split at hk
      · cases hk
      · cases hk
    · exact .inl ⟨hk, by simp⟩
  | ends stands empty => exact .inr ⟨rfl, empty⟩

/-- A listener is told to stop by a call only. -/
theorem Step.called (h : x.Step es y) {l : Listener} (hk : y.listeners[k]? = some l)
    (hl : l ≠ .serving) :
    .called k ∈ es ∨ ∃ l', x.listeners[k]? = some l' ∧ l' ≠ .serving := by
  cases h with
  | emits | adds | listensOn | callsOff | takes => exact .inr ⟨l, hk, hl⟩
  | listens =>
    rcases getElem?_concat_eq_some hk with hk | ⟨-, rfl⟩
    · exact .inr ⟨l, hk, hl⟩
    · exact absurd rfl hl
  | calls =>
    rcases getElem?_concat_eq_some hk with hk | ⟨rfl, -⟩
    · exact .inr ⟨l, by rwa [List.getElem?_append_left (List.getElem?_eq_some_iff.1 hk).1], hl⟩
    · exact .inl (List.mem_singleton_self _)
  | heeds stands | returns stands | ends stands =>
    rw [List.getElem?_set] at hk
    split at hk
    · rename_i h
      subst h
      exact .inr ⟨_, stands, nofun⟩
    · exact .inr ⟨l, hk, hl⟩

/-- Sinks are added one at a time. -/
theorem Step.added {pre post : List Event} (h : x.Step es y) (hes : es = pre ++ .added s :: post) :
    pre = [] ∧ post = [] ∧ y.bus = x.bus.addSink s := by
  have hmem : Event.added s ∈ es := by simp [hes]
  cases h with
  | adds s' =>
    cases pre with
    | nil =>
      cases hes
      exact ⟨rfl, rfl, rfl⟩
    | cons => simp at hes
  | takes => simp [fanOut] at hmem
  | emits | calls | returns => simp at hmem
  | listens | listensOn | callsOff | heeds | ends => cases hmem

/-! ## Runs -/

/-- What a sink that came at some time, in some state, has got since then. -/
def Served (x : Exchange) (log since : List Event) (j : Nat) (s : Sink) : Prop :=
  handings j log = intake since ∧ x.bus.sinks[j]? = some (afterAll s (acceptances j log))

theorem Served.step (h : x.Served log since j s) (hstep : x.Step es y) :
    y.Served (log ++ es) (since ++ es) j s := by
  obtain ⟨hhanded, hsink⟩ := hstep.serves h.2
  refine ⟨?_, ?_⟩
  · rw [handings_append, intake_append, h.1, hhanded]
  · rw [hsink, acceptances_append, afterAll, afterAll, afterAll, List.foldl_append]

namespace Run
variable {b : Bus}

theorem emissions_eq (h : Run b log x) (hb : b.queue = []) :
    emissions log = intake log ++ x.bus.queue := by
  induction h with
  | start => exact hb.symm
  | next _ step ih =>
    rw [emissions_append, ih, List.append_assoc, step.queue, intake_append, List.append_assoc]

theorem length_sinks (h : Run b log x) :
    x.bus.sinks.length = b.sinks.length + (additions log).length := by
  induction h with
  | start => rfl
  | next _ step ih => rw [step.length_sinks, ih, additions_append, List.length_append]; omega

/-- A sink that is not there yet has not been handed anything. -/
theorem absent (h : Run b log x) (hj : x.bus.sinks.length ≤ j) :
    handings j log = [] ∧ acceptances j log = [] := by
  induction h with
  | start => exact ⟨rfl, rfl⟩
  | next _ step ih =>
    rw [step.length_sinks] at hj
    have hx := Nat.le_of_add_right_le hj
    simp [ih hx, step.absent hx]

theorem served (h : Run b log x) (hj : b.sinks[j]? = some s) : x.Served log log j s := by
  induction h with
  | start => exact ⟨rfl, hj⟩
  | next _ step ih => exact ih.step step

/-- A sink that was added has got all that was taken since then. -/
theorem served_added (h : Run b log x) {pre post : List Event}
    (hlog : log = pre ++ .added s :: post) :
    x.Served log post (b.sinks.length + (additions pre).length) s := by
  induction h generalizing post with
  | start => simp at hlog
  | @next log es x y run step ih =>
    rcases split_append hlog with ⟨post', hold, rfl⟩ | ⟨pre', rfl, hnew⟩
    · exact (ih hold).step step
    · obtain ⟨rfl, rfl, hy⟩ := step.added hnew
      cases hnew
      have hlen := run.length_sinks
      obtain ⟨hhanded, haccepted⟩ := run.absent (Nat.le_of_eq hlen)
      rw [List.append_nil, Served, handings_append, acceptances_append, hhanded, haccepted, hy,
        ← hlen]
      exact ⟨rfl, List.getElem?_concat_length⟩

/-- What was emitted before a listener was told to stop has been taken when it ended. -/
theorem flushed (h : Run b log x) (hb : b.queue = []) (hk : x.listeners[k]? = some .ended)
    {pre post : List Event} (hlog : log = pre ++ .called k :: post) :
    emissions pre <+: intake log := by
  induction h generalizing post with
  | start => cases hk
  | @next log es x y run step ih =>
    rcases step.ended hk with ⟨hx, hes⟩ | ⟨rfl, hempty⟩
    · rcases split_append hlog with ⟨post', hold, rfl⟩ | ⟨pre', rfl, hnew⟩
      · rw [intake_append]
        exact (ih hx hold).trans (List.prefix_append ..)
      · exact absurd rfl (hes k (by simp [hnew]))
    · have hall := (run.next step).emissions_eq hb
      simp only [List.append_nil, hempty] at hall hlog ⊢
      rw [← hall, hlog, emissions_append]
      exact List.prefix_append ..

/-- A listener that was told to stop was found by a call. -/
theorem called (h : Run b log x) {l : Listener} (hk : x.listeners[k]? = some l)
    (hl : l ≠ .serving) : .called k ∈ log := by
  induction h generalizing l with
  | start => cases hk
  | next _ step ih =>
    rcases step.called hk hl with hes | ⟨l', hx, hl'⟩
    · exact List.mem_append_right _ hes
    · exact List.mem_append_left _ (ih hx hl')

end Run

/-- A sink that was in some state when it came, at which time some intents had been handed
    out already, was handed those that were emitted after these, each once, up to those that
    still wait; and it took all of them but those on which it failed. -/
structure Gets (x : Exchange) (log : List Event) (j : Nat) (s : Sink) (earlier : List Intent) :
    Prop where
  handed : emissions log = earlier ++ handings j log ++ x.bus.queue
  state : x.bus.sinks[j]? = some (afterAll s (acceptances j log))

/-- At all times each sink was handed what was emitted, in that order and without gaps, from
    the first intent on that was handed out after it came.  And when a call that stopped a
    listener returns, all that was emitted before the call has been handed to all sinks, to
    each from that intent on. -/
theorem Run.delivers {capacity : Nat} {sinks : List Sink}
    (h : Run (.ofSinks capacity sinks) log x) :
    x.bus.sinks.length = sinks.length + (additions log).length ∧
    (∀ j s, sinks[j]? = some s → x.Gets log j s []) ∧
    (∀ pre s post, log = pre ++ .added s :: post →
      x.Gets log (sinks.length + (additions pre).length) s (intake pre)) ∧
    ∀ k y, x.Step [.returned k] y →
      .called k ∈ log ∧ ∀ before after, log = before ++ .called k :: after →
        (∀ j < sinks.length, emissions before <+: handings j log) ∧
        ∀ pre s post, log = pre ++ .added s :: post →
          emissions before <+:
            intake pre ++ handings (sinks.length + (additions pre).length) log := by
  have hall := h.emissions_eq rfl
  have hfirst {j s} (hj : sinks[j]? = some s) : handings j log = intake log :=
    (h.served hj).1
  have hlater {pre s post} (hlog : log = pre ++ .added s :: post) :
      intake pre ++ handings (sinks.length + (additions pre).length) log = intake log := by
    have hsince : handings (sinks.length + (additions pre).length) log = intake post :=
      (h.served_added hlog).1
    rw [hsince, hlog, intake_append]
    rfl
  refine ⟨h.length_sinks, fun j s hj => ⟨?_, (h.served hj).2⟩, fun pre s post hlog =>
    ⟨?_, (h.served_added hlog).2⟩, fun k y hstep => ?_⟩
  · rw [hfirst hj, List.nil_append, hall]
  · rw [hlater hlog, hall]
  · have hk : x.listeners[k]? = some .ended := by
      cases hstep with
      | returns stands => exact stands
    refine ⟨h.called hk nofun, fun before after hcall => ?_⟩
    have hflushed := h.flushed rfl hk hcall
    refine ⟨fun j hj => ?_, fun pre s post hlog => ?_⟩
    · rwa [hfirst (List.getElem?_eq_getElem hj)]
    · rwa [hlater hlog]

/-- The log of a listener that hands out an intent and is stopped while another one waits and
    a third one is emitted.  Meanwhile a sink is added, which fails. -/
def stoppedLog : List Event := [
  .emitted .sessionStopped, .taken .sessionStopped, .handed 0 .sessionStopped false,
  .added (.channel [] false), .emitted (.hideCharacter "A"), .called 0,
  .emitted (.hideCharacter "B"),
  .taken (.hideCharacter "A"), .handed 0 (.hideCharacter "A") false,
  .handed 1 (.hideCharacter "A") true,
  .taken (.hideCharacter "B"), .handed 0 (.hideCharacter "B") false,
  .handed 1 (.hideCharacter "B") true]

/-- The bus after that. -/
def stopped : Exchange where
  bus :=
    { sinks := [.memory [.sessionStopped, .hideCharacter "A", .hideCharacter "B"],
        .channel [] false]
      kept := 1
      published := [.sessionStopped, .hideCharacter "A", .hideCharacter "B"] }
  listeners := [.ended]

theorem run_stopped : Run (.ofSinks 1 [.memory []]) stoppedLog stopped := by
  have hstart : Run (.ofSinks 1 [.memory []]) [] ⟨(Bus.ofSinks 1 [.memory []]).listen, _⟩ :=
    Run.start.next (.listens rfl)
  have hfirst := (hstart.next (.emits (i := .sessionStopped) rfl)).next
    (.takes (k := 0) (fun _ => false) rfl rfl rfl)
  have hcalled := ((hfirst.next (.adds _ (.channel [] false))).next
    (.emits (i := .hideCharacter "A") rfl)).next (@Step.calls _ [] _ rfl)
  have hsecond := (hcalled.next (.emits (i := .hideCharacter "B") rfl)).next
    (.takes (k := 0) (fun j => j == 1) rfl rfl rfl)
  exact ((hsecond.next (.heeds (k := 0) rfl)).next
    (.takes (k := 0) (fun j => j == 1) rfl rfl rfl)).next (.ends (k := 0) rfl rfl)

/-- When the call returns, what was emitted before it was handed to the sink that was there
    from the beginning, and the sink that was added was handed all but the first intent. -/
theorem Run.delivers_stopped :
    Run (.ofSinks 1 [.memory []]) stoppedLog stopped ∧
    (∃ y, stopped.Step [.returned 0] y) ∧
    emissions (stoppedLog.take 5) <+: handings 0 stoppedLog ∧
    emissions (stoppedLog.take 5) = [.sessionStopped, .hideCharacter "A"] ∧
    stopped.Gets stoppedLog 1 (.channel [] false) [.sessionStopped] := by
  obtain ⟨-, -, hadded, hreturns⟩ := run_stopped.delivers
  have hstep : stopped.Step [.returned 0] ⟨stopped.bus, [.left]⟩ := .returns rfl
  obtain ⟨-, hflushed⟩ := hreturns 0 _ hstep
  obtain ⟨hfirst, -⟩ := hflushed (stoppedLog.take 5) (stoppedLog.drop 6) rfl
  exact ⟨run_stopped, ⟨_, hstep⟩, hfirst 0 Nat.zero_lt_one, rfl,
    hadded (stoppedLog.take 3) _ (stoppedLog.drop 4) rfl⟩

end Exchange

end VisualNovel
