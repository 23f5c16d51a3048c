/-
  The subscribers of a bus at work: intents are dispatched, subscribers come, and their calls
  read, in any order.

  A subscriber that fell behind is told how many intents it missed, and counts these as
  dropped.  Two of the ways of reading then give that to their caller, the other two go on.

  * `Way` are the ways of reading, and `Stage` is how far the call of a subscriber has got;
  * `Bus.Pulls` is what a subscriber may find, whatever is kept and for how long
    (`Bus.poll_found`: what a bus itself keeps is one case);
  * `Audience.Hears` lists what one subscriber may do, `Audience.Step` what may happen to a bus
    with its subscribers, and `Notice` what can be seen of that;
  * `Audience.Run` are all runs, with the log of what was seen;
  * `Audience.reads_poll`, `reads_receive`, `reads_next` and `Audience.Run.collect`: what
    `Bus.poll`, `Bus.receive`, `Bus.next` and `Bus.collect` read in one go is found in such
    runs.
-/
import Mathlib.Algebra.BigOperators.Intervals
import VisualNovel.Proofs.Bus.Exchange

namespace VisualNovel

/-! ## Calls -/

namespace Bus.Delivery

/-- The intent that was found. -/
def intent? : Delivery → Option Intent
  | intent i => some i
  | _ => none

/-- The number of intents that were missed. -/
def missed : Delivery → Nat
  | lagged missed => missed
  | _ => 0

end Bus.Delivery

/-- The ways of reading. -/
inductive Way where
  | recv
  | tryRecv
  /-- It waits for some time only. -/
  | nextTimeout
  /-- The next item of a stream. -/
  | stream
  deriving DecidableEq

/-- How far the call of a subscriber has got. -/
inductive Stage where
  | resting
  | asking (way : Way)
  /-- It was told of a gap that it has not counted yet. -/
  | told (way : Way) (missed : Nat)

/-- The gap that a call was told of and has not counted yet. -/
def Stage.untold : Stage → List Bus.Delivery
  | told _ missed => [.lagged missed]
  | resting | asking _ => []

/-- What can be seen of a bus and its subscribers. -/
inductive Notice where
  | published (i : Intent)
  /-- A subscriber comes, which is the next one. -/
  | subscribed
  | called (subscriber : Nat) (way : Way)
  /-- A gap is reported to a subscriber, which counts it. -/
  | reported (subscriber missed : Nat)
  | returned (subscriber : Nat) (answer : Bus.Delivery)

namespace Way

/-- What a call answers if it finds something.  It has no answer if it waits or goes on. -/
def answer? : Way → Bus.Delivery → Option Bus.Delivery
  | _, .intent i => some (.intent i)
  | recv, .lagged missed | tryRecv, .lagged missed => some (.lagged missed)
  | nextTimeout, .lagged _ | stream, .lagged _ => none
  | tryRecv, .nothing => some .nothing
  | recv, .nothing | nextTimeout, .nothing | stream, .nothing => none
  -- it does not tell whether time is over or the bus is gone
  | nextTimeout, .closed => some .nothing
  | recv, .closed | tryRecv, .closed | stream, .closed => some .closed

variable (w : Way) (k : Nat) (d : Bus.Delivery)

/-- How far a call has got that took in what it found. -/
def after : Stage := if (w.answer? d).isSome then .resting else .asking w

/-- What is seen then. -/
def returns : List Notice := (w.answer? d).toList.map (.returned k)

end Way

namespace Notice

/-- The intents that were published. -/
def publications (log : List Notice) : List Intent :=
  log.filterMap fun
    | published i => some i
    | _ => none

/-- The number of subscribers that came. -/
def subscriptions (log : List Notice) : Nat :=
  log.countP fun
    | subscribed => true
    | _ => false

/-- What a subscriber heard: the intents that its calls returned, and the gaps that were
    reported to it. -/
def heard (subscriber : Nat) (log : List Notice) : List Bus.Delivery :=
  log.filterMap fun
    | reported k missed => if k = subscriber then some (.lagged missed) else none
    | returned k (.intent i) => if k = subscriber then some (.intent i) else none
    | _ => none

/-- The intents that the calls of a subscriber returned. -/
def received (subscriber : Nat) (log : List Notice) : List Intent :=
  (heard subscriber log).filterMap Bus.Delivery.intent?

/-- The number of intents that were reported to a subscriber as missed. -/
def skips (subscriber : Nat) (log : List Notice) : Nat :=
  ((heard subscriber log).map Bus.Delivery.missed).sum

variable (as bs : List Notice) (j k : Nat) (w : Way) (d : Bus.Delivery)

@[simp] theorem publications_append :
    publications (as ++ bs) = publications as ++ publications bs :=
  List.filterMap_append

@[simp] theorem subscriptions_append :
    subscriptions (as ++ bs) = subscriptions as + subscriptions bs :=
  List.countP_append

@[simp] theorem heard_append : heard k (as ++ bs) = heard k as ++ heard k bs :=
  List.filterMap_append

@[simp] theorem received_append : received k (as ++ bs) = received k as ++ received k bs := by
  simp [received]

@[simp] theorem skips_append : skips k (as ++ bs) = skips k as + skips k bs := by
  simp [skips]

@[simp] theorem publications_returns : publications (w.returns k d) = [] := by
  simp [publications, Way.returns]

@[simp] theorem subscriptions_returns : subscriptions (w.returns k d) = 0 := by
  simp [subscriptions, Way.returns]

/-- A call gives its caller the intent that it found. -/
@[simp] theorem heard_returns : heard k (w.returns k d) = (d.intent?.map .intent).toList := by
  cases w <;> cases d <;> simp [heard, Way.returns, Way.answer?, Bus.Delivery.intent?]

theorem heard_returns_of_ne {j k : Nat} (h : k ≠ j) : heard j (w.returns k d) = [] := by
  cases w <;> cases d <;> simp [heard, Way.returns, Way.answer?, h]

end Notice

/-! ## What subscribers find -/

namespace Bus

/-- Moves a subscriber to a position. -/
def moveTo (b : Bus) (k position : Nat) : Bus := { b with readers := b.readers.set k position }

/-- Counts intents that a subscriber missed. -/
def noteLag (b : Bus) (missed : Nat) : Bus := { b with dropped := b.dropped + missed }

/-- What a subscriber may find, and the bus then.  It gets what was published in order; it may
    be overrun at any time and by any number of intents, and is told of just these, once. -/
inductive Pulls (b : Bus) (k : Nat) : Delivery → Bus → Prop where
  | hands {position : Nat} {i : Intent} (stands : b.readers[k]? = some position)
    (next : b.published[position]? = some i) : Pulls b k (.intent i) (b.moveTo k (position + 1))
  | overruns {position missed : Nat} (stands : b.readers[k]? = some position)
    (some : 0 < missed) (among : position + missed ≤ b.published.length) :
    Pulls b k (.lagged missed) (b.moveTo k (position + missed))
  | waits (stands : b.readers[k]? = some b.published.length) : Pulls b k .nothing b
  | closes (stands : b.readers[k]? = some b.published.length) (gone : b.alive = false) :
    Pulls b k .closed b

variable {b b' : Bus} {k position : Nat} {d : Delivery}

/-- What is found moves the subscriber that finds it, and changes nothing else. -/
theorem Pulls.moves (h : b.Pulls k d b') :
    ∃ position', b'.readers = b.readers.set k position' ∧ position' ≤ b.published.length ∧
      b'.published = b.published ∧ b'.dropped = b.dropped := by
  cases h with
  | hands stands next =>
    exact ⟨_, rfl, (List.getElem?_eq_some_iff.1 next).1, rfl, rfl⟩
  | overruns stands some among => exact ⟨_, rfl, among, rfl, rfl⟩
  | waits stands | closes stands =>
    obtain ⟨hk, hposition⟩ := List.getElem?_eq_some_iff.1 stands
    exact ⟨_, by rw [← hposition, List.set_getElem_self], Nat.le_refl _, rfl, rfl⟩

/-- What was read, with the bus then, was found by a subscriber, and what it missed was counted. -/
def Found (b : Bus) (k : Nat) (r : Bus × Delivery) : Prop :=
  ∃ b', b.Pulls k r.2 b' ∧ r.1 = b'.noteLag r.2.missed

/-- Polling a bus finds what it keeps. -/
theorem poll_found (stands : b.readers[k]? = some position) (h : position ≤ b.published.length) :
    b.Found k (b.poll k) := by
  simp only [Found, poll, stands]
  split
  · rename_i hbehind
    have hmoved : position + (b.forgotten - position) = b.forgotten :=
      Nat.add_sub_cancel' (Nat.le_of_lt hbehind)
    have hamong : position + (b.forgotten - position) ≤ b.published.length := by
      rw [hmoved]
      exact Nat.sub_le _ _
    have hpulls := Pulls.overruns stands (Nat.sub_pos_of_lt hbehind) hamong
    rw [hmoved] at hpulls
    exact ⟨_, hpulls, rfl⟩
  · split
    · rename_i i hi
      exact ⟨_, .hands stands hi, rfl⟩
    · rename_i hnone
      have hend : position = b.published.length :=
        Nat.le_antisymm h (List.getElem?_eq_none_iff.1 hnone)
      subst hend
      cases halive : b.alive with
      | true => exact ⟨b, .waits stands, rfl⟩
      | false => exact ⟨b, .closes stands halive, rfl⟩

end Bus

/-! ## Steps -/

/-- A bus with the calls of its subscribers. -/
structure Audience where
  bus : Bus
  stages : List Stage := []

namespace Audience

open Notice

/-- What a subscriber may do: with the bus and the stage of its call before, what is seen, and
    the bus and the stage after it. -/
inductive Hears (k : Nat) (b : Bus) : Stage → List Notice → Bus → Stage → Prop where
  | calls (w : Way) : Hears k b .resting [.called k w] b (.asking w)
  | finds {b' : Bus} {w : Way} {d : Bus.Delivery} (pulls : b.Pulls k d b')
    (whole : d.missed = 0) : Hears k b (.asking w) (w.returns k d) b' (w.after d)
  | lags {b' : Bus} {w : Way} {missed : Nat} (pulls : b.Pulls k (.lagged missed) b') :
    Hears k b (.asking w) [] b' (.told w missed)
  /-- The gap is counted.  Then it is the answer of the call, or the call goes on. -/
  | reports (w : Way) (missed : Nat) :
    Hears k b (.told w missed) ([.reported k missed] ++ w.returns k (.lagged missed))
      (b.noteLag missed) (w.after (.lagged missed))
  /-- The time of the call is over. -/
  | expires : Hears k b (.asking .nextTimeout) [.returned k .nothing] b .resting
  /-- The call is given up where it waits. -/
  | drops (w : Way) : Hears k b (.asking w) [] b .resting

/-- What may happen, and what is seen of it. -/
inductive Step : Audience → List Notice → Audience → Prop where
  /-- An intent is dispatched. -/
  | publishes (x : Audience) (fails : Nat → Bool) (i : Intent) :
    Step x [.published i] { x with bus := x.bus.handOut fails i }
  /-- Something else is done with the bus, which is of no matter to its subscribers. -/
  | works {x : Audience} {b : Bus} (published : b.published = x.bus.published)
    (readers : b.readers = x.bus.readers) (dropped : b.dropped = x.bus.dropped) :
    Step x [] { x with bus := b }
  | subscribes (x : Audience) : Step x [.subscribed] ⟨x.bus.subscribe, x.stages ++ [.resting]⟩
  | hears {x : Audience} {k : Nat} {s s' : Stage} {b : Bus} {es : List Notice}
    (stands : x.stages[k]? = some s) (hears : Hears k x.bus s es b s') :
    Step x es ⟨b, x.stages.set k s'⟩

/-- The runs of a bus, each with all that was seen of it. -/
inductive Run (b : Bus) : List Notice → Audience → Prop where
  | start : Run b [] ⟨b, []⟩
  | next {log es : List Notice} {x y : Audience} (run : Run b log x) (step : x.Step es y) :
    Run b (log ++ es) y

variable {capacity j k : Nat} {sinks : List Sink} {log es : List Notice} {x y : Audience}
  {b b' : Bus} {s s' : Stage} {w : Way}

/-! ## Standing -/

/-- What a subscriber does moves no other, and none beyond what was published. -/
theorem Hears.moves (h : Hears k b s es b' s') :
    b'.readers = b.readers ∨
      ∃ position ≤ b.published.length, b'.readers = b.readers.set k position := by
  cases h with
  | calls | reports | expires | drops => exact .inl rfl
  | finds pulls | lags pulls =>
    obtain ⟨position, hreaders, hle, -⟩ := pulls.moves
    exact .inr ⟨position, hle, hreaders⟩

theorem Hears.readers_of_ne (h : Hears k b s es b' s') (hj : k ≠ j) :
    b'.readers[j]? = b.readers[j]? := by
  rcases h.moves with hsame | ⟨_, -, hset⟩
  · rw [hsame]
  · rw [hset, List.getElem?_set_ne hj]

/-- Others hear nothing of it. -/
theorem Hears.heard_of_ne (h : Hears k b s es b' s') (hj : k ≠ j) : heard j es = [] := by
  cases h with
  | calls | expires | drops => simp [heard]
  | finds => exact heard_returns_of_ne _ _ hj
  | lags => rfl
  | reports =>
    rw [heard_append, heard_returns_of_ne _ _ hj]
    simp [heard, hj]

/-- What a subscriber does publishes nothing and brings no other, and it counts what is reported
    to it. -/
theorem Hears.counts (h : Hears k b s es b' s') :
    b'.published = b.published ∧ publications es = [] ∧ subscriptions es = 0 ∧
      b'.dropped = b.dropped + skips k es := by
  cases h with
  | calls | drops => exact ⟨rfl, rfl, rfl, rfl⟩
  | expires => exact ⟨rfl, rfl, rfl, rfl⟩
  | @finds _ w d pulls whole =>
    obtain ⟨_, -, -, hpublished, hdropped⟩ := pulls.moves
    refine ⟨hpublished, publications_returns .., subscriptions_returns .., ?_⟩
    rw [hdropped, skips, heard_returns]
    cases d <;> rfl
  | lags pulls =>
    obtain ⟨_, -, -, hpublished, hdropped⟩ := pulls.moves
    exact ⟨hpublished, rfl, rfl, hdropped⟩
  | reports w missed =>
    refine ⟨rfl, ?_, ?_, ?_⟩
    · rw [publications_append, publications_returns]
      rfl
    · rw [subscriptions_append, subscriptions_returns]
      rfl
    · rw [skips_append, skips, skips, heard_returns]
      simp [heard, Bus.noteLag, Bus.Delivery.missed, Bus.Delivery.intent?]

/-- Each subscriber has a place among what was published. -/
structure Stands (x : Audience) (subscribers : Nat) : Prop where
  stages : x.stages.length = subscribers
  readers : x.bus.readers.length = subscribers
  le : ∀ position ∈ x.bus.readers, position ≤ x.bus.published.length

theorem Step.stands {n : Nat} (h : x.Step es y) (hx : x.Stands n) :
    y.Stands (n + subscriptions es) := by
  cases h with
  | publishes =>
    refine ⟨hx.stages, hx.readers, fun position hposition => ?_⟩
    exact Nat.le_trans (hx.le position hposition) (by simp [Bus.handOut])
  | works published readers =>
    refine ⟨hx.stages, ?_, ?_⟩
    · rw [readers]
      exact hx.readers
    · rw [readers, published]
      exact hx.le
  | subscribes =>
    refine ⟨by simp [hx.stages, subscriptions], by simp [Bus.subscribe, hx.readers, subscriptions],
      fun position hposition => ?_⟩
    rcases List.mem_append.1 hposition with hold | hnew
    · exact hx.le position hold
    · exact Nat.le_of_eq (List.mem_singleton.1 hnew)
  | hears stands hears =>
    obtain ⟨hpublished, -, hsubscribed, -⟩ := hears.counts
    rw [hsubscribed]
    rcases hears.moves with hsame | ⟨position, hle, hset⟩
    · refine ⟨by simpa using hx.stages, ?_, ?_⟩
      · rw [hsame]
        exact hx.readers
      · rw [hsame, hpublished]
        exact hx.le
    · refine ⟨by simpa using hx.stages, ?_, fun p hp => ?_⟩
      · rw [hset, List.length_set]
        exact hx.readers
      · rw [hset] at hp
        rw [hpublished]
        rcases List.mem_or_eq_of_mem_set hp with hold | rfl
        · exact hx.le p hold
        · exact hle

/-- In a run there are as many subscribers as came, and each has its place. -/
theorem Run.stands (h : Run (.ofSinks capacity sinks) log x) : x.Stands (subscriptions log) := by
  induction h with
  | start => exact ⟨rfl, rfl, nofun⟩
  | next _ step ih =>
    rw [subscriptions_append]
    exact step.stands ih

theorem Run.place (h : Run (.ofSinks capacity sinks) log x) (stands : x.stages[k]? = some s) :
    ∃ position, x.bus.readers[k]? = some position ∧ position ≤ x.bus.published.length := by
  obtain ⟨hstages, hreaders, hle⟩ := h.stands
  have hk : k < x.bus.readers.length := by
    rw [hreaders, ← hstages]
    exact (List.getElem?_eq_some_iff.1 stands).1
  exact ⟨_, List.getElem?_eq_getElem hk, hle _ (List.getElem_mem hk)⟩

/-! ## Reading in one go -/

/-- In any run, what a function reads for a call that asks can be found at some time from now on,
    before which the call receives nothing. -/
def Reads (w : Way) (read : Bus → Nat → Bus × Bus.Delivery) : Prop :=
  ∀ ⦃capacity : Nat⦄ ⦃sinks : List Sink⦄ ⦃log : List Notice⦄ ⦃x : Audience⦄ ⦃k : Nat⦄,
    Run (.ofSinks capacity sinks) log x → x.stages[k]? = some (.asking w) →
      ∃ es b, Run (.ofSinks capacity sinks) (log ++ es) ⟨b, x.stages⟩ ∧ received k es = [] ∧
        b.Found k (read x.bus k)

theorem reads_poll (w : Way) : Reads w Bus.poll := by
  intro capacity sinks log x k run stands
  obtain ⟨position, hposition, hle⟩ := run.place stands
  exact ⟨[], x.bus, by rwa [List.append_nil], rfl, Bus.poll_found hposition hle⟩

/-- A call that asks takes in what it finds. -/
theorem Run.finds {r : Bus × Bus.Delivery} (run : Run (.ofSinks capacity sinks) log x)
    (stands : x.stages[k]? = some (.asking w)) (found : x.bus.Found k r) :
    ∃ es, Run (.ofSinks capacity sinks) (log ++ es) ⟨r.1, x.stages.set k (w.after r.2)⟩ ∧
      received k es = r.2.intent?.toList := by
  obtain ⟨bus, d⟩ := r
  obtain ⟨b, hpulls, rfl⟩ : ∃ b', x.bus.Pulls k d b' ∧ bus = b'.noteLag d.missed := found
  by_cases hwhole : d.missed = 0
  · have hnext := run.next (.hears stands (.finds hpulls hwhole))
    refine ⟨w.returns k d, ?_, ?_⟩
    · rw [hwhole]
      exact hnext
    · rw [received, heard_returns]
      cases d <;> rfl
  · cases d with
    | intent | nothing | closed => exact absurd rfl hwhole
    | lagged missed =>
      have hk := (List.getElem?_eq_some_iff.1 stands).1
      have hlags := run.next (.hears stands (.lags hpulls))
      have hreports := hlags.next (.hears (List.getElem?_set_self hk) (.reports w missed))
      rw [List.append_nil, List.set_set] at hreports
      refine ⟨_, hreports, ?_⟩
      rw [received_append, received, received, heard_returns]
      simp [heard, Bus.Delivery.intent?]

/-- A call that goes on after what it found asks as before. -/
theorem Run.goes_on {r : Bus × Bus.Delivery} (run : Run (.ofSinks capacity sinks) log x)
    (stands : x.stages[k]? = some (.asking w)) (found : x.bus.Found k r)
    (hw : w.after r.2 = .asking w) (hnone : r.2.intent? = none) :
    ∃ es, Run (.ofSinks capacity sinks) (log ++ es) ⟨r.1, x.stages⟩ ∧ received k es = [] := by
  obtain ⟨es, hrun, hes⟩ := run.finds stands found
  obtain ⟨hk, hasking⟩ := List.getElem?_eq_some_iff.1 stands
  rw [hw, ← hasking, List.set_getElem_self] at hrun
  rw [hnone] at hes
  exact ⟨es, hrun, hes⟩

/-- What is dispatched one after the other. -/
theorem Run.dispatches (h : Run b log x) (is : List Intent) :
    ∃ es, Run b (log ++ es) { x with bus := is.foldl Bus.dispatch x.bus } ∧
      ∀ k, heard k es = [] := by
  induction is generalizing log x with
  | nil => exact ⟨[], by rwa [List.append_nil], fun _ => rfl⟩
  | cons i is ih =>
    have hnext := h.next (.publishes x (fun _ => false) i)
    obtain ⟨es, hrest, hes⟩ := ih hnext
    rw [List.append_assoc] at hrest
    exact ⟨_, hrest, fun k => by rw [heard_append, hes]; rfl⟩

/-- The turn of the listener of the bus. -/
theorem Run.drain (h : Run b log x) :
    ∃ es, Run b (log ++ es) { x with bus := x.bus.drain } ∧ ∀ k, heard k es = [] := by
  unfold Bus.drain
  split
  · have hnext := h.next (.works (b := { x.bus with queue := [] }) rfl rfl rfl)
    rw [List.append_nil] at hnext
    exact hnext.dispatches _
  · exact ⟨[], by rwa [List.append_nil], fun _ => rfl⟩

/-- A call that waits if it finds nothing reads again after the turn of the listener. -/
theorem reads_receive (hw : w.after .nothing = .asking w) : Reads w Bus.receive := by
  intro capacity sinks log x k run stands
  have hfirst := reads_poll w run stands
  obtain ⟨position, hposition, hle⟩ := run.place stands
  have hfound := Bus.poll_found hposition hle
  unfold Bus.receive
  generalize x.bus.poll k = r at hfirst hfound ⊢
  obtain ⟨b, d⟩ := r
  cases d with
  | intent | lagged | closed => exact hfirst
  | nothing =>
    obtain ⟨es, hwaits, hes⟩ := run.goes_on stands hfound hw rfl
    obtain ⟨es', hdrained, hes'⟩ := hwaits.drain
    obtain ⟨es'', c, hsecond, hes'', hfound'⟩ := reads_poll w hdrained stands
    rw [List.append_assoc, List.append_assoc] at hsecond
    refine ⟨_, c, hsecond, ?_, hfound'⟩
    rw [received_append, received_append, hes, hes'', received, hes']
    rfl

/-- A call that goes on after a gap reads again. -/
theorem reads_next {read : Bus → Nat → Bus × Bus.Delivery}
    (hw : ∀ missed, w.after (.lagged missed) = .asking w) (h : Reads w read) :
    Reads w (Bus.next read) := by
  intro capacity sinks log x k run stands
  obtain ⟨es, b, hrun, hes, hfound⟩ := h run stands
  unfold Bus.next
  generalize read x.bus k = r at hfound ⊢
  obtain ⟨b', d⟩ := r
  cases d with
  | intent | nothing | closed => exact ⟨es, b, hrun, hes, hfound⟩
  | lagged missed =>
    obtain ⟨es', hlagged, hes'⟩ := hrun.goes_on stands hfound (hw missed) rfl
    obtain ⟨es'', c, hsecond, hes'', hfound'⟩ := h hlagged stands
    rw [List.append_assoc, List.append_assoc] at hsecond
    refine ⟨_, c, hsecond, ?_, hfound'⟩
    rw [received_append, received_append, hes, hes', hes'']
    rfl

/-- What is collected are the items of a stream, up to as many as were asked for, or up to
    what was found that is none. -/
theorem Run.collect (h : Run (.ofSinks capacity sinks) log x)
    (stands : x.stages[k]? = some .resting) (n : Nat) :
    ∃ es b s, Run (.ofSinks capacity sinks) (log ++ es) ⟨b, x.stages.set k s⟩ ∧
      received k es = (x.bus.collect k n).2.1 ∧
      ((x.bus.collect k n).2.1.length = n ∧ b = (x.bus.collect k n).1 ∨
        s = .asking .stream ∧
          b.Found k ((x.bus.collect k n).1, (x.bus.collect k n).2.2)) := by
  obtain ⟨bus, stages⟩ := x
  obtain ⟨hk, hresting⟩ : ∃ hk : k < stages.length, stages[k] = .resting :=
    List.getElem?_eq_some_iff.1 stands
  have hself : stages.set k .resting = stages := by rw [← hresting, List.set_getElem_self]
  rw [← hself] at h
  clear stands hresting hself
  induction n generalizing log bus with
  | zero => exact ⟨[], bus, .resting, by rwa [List.append_nil], rfl, .inl ⟨rfl, rfl⟩⟩
  | succ n ih =>
    have hcalls := h.next (.hears (List.getElem?_set_self hk) (.calls .stream))
    rw [List.set_set] at hcalls
    have hasks : (stages.set k (.asking .stream))[k]? = some (.asking .stream) :=
      List.getElem?_set_self hk
    have hreads : Reads .stream (Bus.next Bus.receive) :=
      reads_next (fun _ => rfl) (reads_receive rfl)
    obtain ⟨es, b, hrun, hes, hfound⟩ := hreads hcalls hasks
    rw [List.append_assoc] at hrun
    unfold Bus.collect
    dsimp only at hfound ⊢
    generalize bus.next Bus.receive k = r at hfound ⊢
    obtain ⟨b', d⟩ := r
    cases d with
    | intent i =>
      obtain ⟨es', hreceived, hes'⟩ := hrun.finds hasks hfound
      rw [List.set_set] at hreceived
      obtain ⟨es'', c, s, hrest, hes'', hlast⟩ := ih _ hreceived
      rw [List.append_assoc, List.append_assoc] at hrest
      refine ⟨_, c, s, hrest, ?_, hlast.imp_left fun ⟨hlength, hc⟩ => ⟨?_, hc⟩⟩
      · rw [received_append, received_append, received_append, hes, hes', hes'']
        rfl
      · exact congrArg (· + 1) hlength
    | lagged | nothing | closed =>
      refine ⟨_, b, _, hrun, ?_, .inr ⟨rfl, hfound⟩⟩
      rw [received_append, hes]
      rfl

end Audience

end VisualNovel
