/-
  What the subscribers of a bus at work receive, and what they are told they missed.

  * `Covers`: what was heard accounts for some intents, one after the other, each as received
    or in a gap;
  * `Audience.Follows` is a subscriber that has heard of all intents up to its place:
    `Follows.hears` and `Abreast.step` are its steps, `Run.abreast` its run;
  * `Audience.Step.dropped` and `Audience.Run.dropped`: the bus counts what is reported;
  * `Audience.Run.tells_losses`: each subscriber receives some of what was published since it
    came, in order, it is told how many others there were, and the bus counts all these.
-/
import Mathlib.Algebra.BigOperators.Intervals
import VisualNovel.Proofs.Bus.Audience

namespace VisualNovel

open Notice

/-! ## Accounts of intents -/

/-- What was heard accounts for intents: each is one that was received, or it is in a gap. -/
inductive Covers : List Bus.Delivery → List Intent → Prop where
  | nil : Covers [] []
  | intent {ds : List Bus.Delivery} {is : List Intent} (i : Intent) (rest : Covers ds is) :
    Covers (.intent i :: ds) (i :: is)
  | lagged {ds : List Bus.Delivery} {is : List Intent} (skipped : List Intent)
    (rest : Covers ds is) : Covers (.lagged skipped.length :: ds) (skipped ++ is)

namespace Covers
variable {ds es : List Bus.Delivery} {is js : List Intent}

theorem append (h : Covers ds is) (h' : Covers es js) : Covers (ds ++ es) (is ++ js) := by
  induction h with
  | nil => exact h'
  | intent i _ ih => exact .intent i ih
  | lagged skipped _ ih =>
    rw [List.append_assoc]
    exact .lagged skipped ih

theorem received (h : Covers ds is) : (ds.filterMap Bus.Delivery.intent?).Sublist is := by
  induction h with
  | nil => exact .slnil
  | intent i _ ih => exact ih.cons_cons i
  | lagged skipped _ ih => exact ih.trans (List.sublist_append_right ..)

theorem length (h : Covers ds is) :
    (ds.filterMap Bus.Delivery.intent?).length + (ds.map Bus.Delivery.missed).sum = is.length := by
  induction h with
  | nil => rfl
  | intent i _ ih =>
    simp only [List.filterMap_cons, List.map_cons, List.sum_cons, Bus.Delivery.intent?,
      Bus.Delivery.missed, List.length_cons]
    omega
  | lagged skipped _ ih =>
    simp only [List.filterMap_cons, List.map_cons, List.sum_cons, Bus.Delivery.intent?,
      Bus.Delivery.missed, List.length_append]
    omega

end Covers

/-! ## Places -/

@[simp] theorem Way.untold_after (w : Way) (d : Bus.Delivery) : (w.after d).untold = [] := by
  unfold after
  split <;> rfl

namespace Audience

/-- A subscriber that came after the earlier intents has heard of those that it passed, but for
    a gap that its call has not counted yet, and it has the rest before it. -/
structure Follows (b : Bus) (k : Nat) (s : Stage) (ds : List Bus.Delivery)
    (earlier passed rest : List Intent) : Prop where
  published : b.published = earlier ++ (passed ++ rest)
  stands : b.readers[k]? = some (earlier.length + passed.length)
  covers : Covers (ds ++ s.untold) passed

namespace Follows
variable {b b' : Bus} {k : Nat} {s s' : Stage} {ds : List Bus.Delivery} {es : List Notice}
  {earlier passed rest : List Intent}

/-- What it finds next. -/
theorem next {i : Intent} (h : Follows b k s ds earlier passed rest)
    (hi : b.published[earlier.length + passed.length]? = some i) :
    ∃ rest', rest = i :: rest' := by
  rw [h.published, List.getElem?_append_right (Nat.le_add_right ..), Nat.add_sub_cancel_left,
    List.getElem?_append_right (Nat.le_refl _), Nat.sub_self] at hi
  exact List.head?_eq_some_iff.1 (List.head?_eq_getElem? ▸ hi)

/-- It goes past what it finds, or what it is told of, and then reports that. -/
theorem hears (h : Follows b k s ds earlier passed rest) (hears : Hears k b s es b' s') :
    ∃ passed' rest', passed' ++ rest' = passed ++ rest ∧
      Follows b' k s' (ds ++ heard k es) earlier passed' rest' := by
  have ⟨hpublished, hstands, hcovers⟩ := h
  have hk := (List.getElem?_eq_some_iff.1 hstands).1
  cases hears with
  | calls | expires | drops =>
    refine ⟨passed, rest, rfl, hpublished, hstands, ?_⟩
    simpa [heard, Stage.untold] using hcovers
  | @finds _ w d pulls whole =>
    rw [Stage.untold, List.append_nil] at hcovers
    cases pulls with
    | @hands position i stands next =>
      cases hstands.symm.trans stands
      obtain ⟨rest', rfl⟩ := h.next next
      refine ⟨passed ++ [i], rest', by simp, by simp [Bus.moveTo, hpublished], ?_, ?_⟩
      · simp [Bus.moveTo, hk, Nat.add_assoc]
      · rw [heard_returns, Way.untold_after, List.append_nil]
        exact hcovers.append (.intent i .nil)
    | overruns _ some => exact absurd whole (Nat.ne_of_gt some)
    | waits | closes =>
      refine ⟨passed, rest, rfl, hpublished, hstands, ?_⟩
      rw [heard_returns, Way.untold_after, List.append_nil]
      simpa [Bus.Delivery.intent?] using hcovers
  | @lags _ w missed pulls =>
    rw [Stage.untold, List.append_nil] at hcovers
    cases pulls with
    | @overruns position _ stands some among =>
      cases hstands.symm.trans stands
      rw [hpublished, List.length_append, List.length_append] at among
      have hskipped : (rest.take missed).length = missed := List.length_take_of_le (by omega)
      refine ⟨passed ++ rest.take missed, rest.drop missed, by simp,
        by simp [Bus.moveTo, hpublished], ?_, ?_⟩
      · simp [Bus.moveTo, hk, Nat.add_assoc, hskipped]
      -- what is missed is passed, though the call has yet to count it
      · have hgap : Covers [.lagged missed] (rest.take missed) := by
          simpa [hskipped] using Covers.lagged (rest.take missed) .nil
        simpa [heard, Stage.untold] using hcovers.append hgap
  | reports w missed =>
    refine ⟨passed, rest, rfl, hpublished, hstands, ?_⟩
    rw [heard_append, heard_returns, Way.untold_after, List.append_nil]
    simpa [heard, Bus.Delivery.intent?, Stage.untold] using hcovers

end Follows

variable {capacity j k : Nat} {sinks : List Sink} {log es pre post : List Notice}
  {ds : List Bus.Delivery} {since : List Intent} {x y : Audience}

/-- What was published since a subscriber came it has passed, with what it heard, or has before
    it. -/
def Abreast (x : Audience) (k : Nat) (ds : List Bus.Delivery) (since : List Intent) : Prop :=
  ∃ s earlier passed rest, x.stages[k]? = some s ∧ since = passed ++ rest ∧
    Follows x.bus k s ds earlier passed rest

theorem Abreast.step (h : x.Abreast k ds since) (step : x.Step es y) :
    y.Abreast k (ds ++ heard k es) (since ++ publications es) := by
  obtain ⟨s, earlier, passed, rest, hs, rfl, hfollows⟩ := h
  have hstages := (List.getElem?_eq_some_iff.1 hs).1
  have hreaders := (List.getElem?_eq_some_iff.1 hfollows.stands).1
  cases step with
  | publishes _ i =>
    refine ⟨s, earlier, passed, rest ++ [i], hs, by simp [publications], ?_, hfollows.stands, ?_⟩
    · simp [Bus.handOut, hfollows.published]
    · simpa [heard] using hfollows.covers
  | works published readers =>
    refine ⟨s, earlier, passed, rest, hs, by simp [publications],
      published.trans hfollows.published, ?_, ?_⟩
    · rw [readers]
      exact hfollows.stands
    · simpa [heard] using hfollows.covers
  | subscribes =>
    refine ⟨s, earlier, passed, rest, ?_, by simp [publications], hfollows.published, ?_, ?_⟩
    · rwa [List.getElem?_append_left hstages]
    · rw [Bus.subscribe, List.getElem?_append_left hreaders]
      exact hfollows.stands
    · simpa [heard] using hfollows.covers
  | @hears j _ s' _ _ stands hears =>
    obtain ⟨hpublished, hnone, -⟩ := hears.counts
    rw [hnone, List.append_nil]
    by_cases hjk : j = k
    · subst hjk
      cases hs.symm.trans stands
      obtain ⟨passed', rest', hsame, hfollows'⟩ := hfollows.hears hears
      exact ⟨s', earlier, passed', rest', List.getElem?_set_self hstages, hsame.symm, hfollows'⟩
    · rw [hears.heard_of_ne hjk, List.append_nil]
      refine ⟨s, earlier, passed, rest, ?_, rfl, hpublished.trans hfollows.published, ?_,
        hfollows.covers⟩
      · rwa [List.getElem?_set_ne hjk]
      · rw [hears.readers_of_ne hjk]
        exact hfollows.stands

/-- Nobody hears anything who has not come. -/
theorem Step.silent (h : x.Step es y) (hj : x.stages.length ≤ j) : heard j es = [] := by
  cases h with
  | publishes | works | subscribes => simp [heard]
  | hears stands hears =>
    have hk := (List.getElem?_eq_some_iff.1 stands).1
    exact hears.heard_of_ne (Nat.ne_of_lt (Nat.lt_of_lt_of_le hk hj))

theorem Run.silent (h : Run (.ofSinks capacity sinks) log x) (hj : subscriptions log ≤ j) :
    heard j log = [] := by
  induction h with
  | start => rfl
  | next run step ih =>
    rw [subscriptions_append] at hj
    have hx := Nat.le_of_add_right_le hj
    rw [heard_append, ih hx, step.silent (run.stands.stages ▸ hx)]
    rfl

/-- Subscribers come one at a time, and have all that is published then behind them. -/
theorem Step.subscribed (h : x.Step es y) (hes : es = pre ++ .subscribed :: post) :
    pre = [] ∧ post = [] ∧ y = ⟨x.bus.subscribe, x.stages ++ [.resting]⟩ := by
  have hcame : subscriptions es ≠ 0 := by simp [hes, subscriptions]
  cases h with
  | publishes | works => exact absurd rfl hcame
  | hears _ hears =>
    obtain ⟨-, -, hnone, -⟩ := hears.counts
    exact absurd hnone hcame
  | subscribes =>
    cases pre with
    | nil =>
      cases hes
      exact ⟨rfl, rfl, rfl⟩
    | cons => simp at hes

/-- A subscriber that came has heard of what was published since. -/
theorem Run.abreast (h : Run (.ofSinks capacity sinks) log x)
    (hlog : log = pre ++ .subscribed :: post) :
    x.Abreast (subscriptions pre) (heard (subscriptions pre) log) (publications post) := by
  induction h generalizing post with
  | start => simp at hlog
  | @next log es x y run step ih =>
    rw [heard_append]
    rcases split_append hlog with ⟨post', hold, rfl⟩ | ⟨pre', rfl, hnew⟩
    · rw [publications_append]
      exact (ih hold).step step
    · obtain ⟨rfl, rfl, rfl⟩ := step.subscribed hnew
      obtain ⟨hstages, hreaders, -⟩ := run.stands
      rw [List.append_nil, run.silent (Nat.le_refl _), hnew]
      refine ⟨.resting, x.bus.published, [], [], ?_, rfl, by simp [Bus.subscribe], ?_, .nil⟩
      · rw [← hstages, List.getElem?_concat_length]
      · rw [← hreaders, Bus.subscribe, List.getElem?_concat_length]
        rfl

/-- A step counts what it reports. -/
theorem Step.dropped (h : x.Step es y) :
    y.bus.dropped = x.bus.dropped + ∑ k ∈ Finset.range x.stages.length, skips k es := by
  cases h with
  | publishes | subscribes => simp [skips, heard, Bus.handOut, Bus.subscribe]
  | works _ _ dropped => simp [skips, heard, dropped]
  | @hears k _ _ _ _ stands hears =>
    have hk := (List.getElem?_eq_some_iff.1 stands).1
    obtain ⟨-, -, -, hdropped⟩ := hears.counts
    rw [hdropped, Finset.sum_eq_single_of_mem k (Finset.mem_range.2 hk)]
    intro j _ hj
    rw [skips, hears.heard_of_ne hj.symm]
    rfl

theorem Run.dropped (h : Run (.ofSinks capacity sinks) log x) :
    x.bus.dropped = ∑ k ∈ Finset.range (subscriptions log), skips k log := by
  induction h with
  | start => rfl
  | @next log es x y run step ih =>
    have hlog : ∀ k ≥ subscriptions log, skips k log = 0 := fun k hk => by
      rw [skips, run.silent hk]
      rfl
    have hes : ∀ k ≥ subscriptions log, skips k es = 0 := fun k hk => by
      rw [skips, step.silent (run.stands.stages ▸ hk)]
      rfl
    have hle := Nat.le_add_right (subscriptions log) (subscriptions es)
    simp only [skips_append, subscriptions_append, Finset.sum_add_distrib]
    rw [Finset.eventually_constant_sum hlog hle, Finset.eventually_constant_sum hes hle, ← ih,
      step.dropped, run.stands.stages]

/-- What was published is in the log. -/
theorem Run.published (h : Run (.ofSinks capacity sinks) log x) :
    x.bus.published = publications log := by
  induction h with
  | start => rfl
  | next _ step ih =>
    rw [publications_append, ← ih]
    cases step with
    | publishes => rfl
    | works published => exact published.trans (List.append_nil _).symm
    | subscribes => exact (List.append_nil _).symm
    | hears _ hears =>
      obtain ⟨hpublished, hnone, -⟩ := hears.counts
      rw [hnone, List.append_nil]
      exact hpublished

/-- The number of intents that a subscriber has not heard of yet: those that it has before it,
    and those in a gap that its call has not counted. -/
def unheard (x : Audience) (k : Nat) : Nat :=
  x.bus.published.length - x.bus.readers[k]?.getD 0 +
    ((x.stages[k]?.elim [] Stage.untold).map Bus.Delivery.missed).sum

/-- What a subscriber made of the intents that were published since it came. -/
structure Accounts (x : Audience) (log : List Notice) (k : Nat) (since : List Intent) : Prop where
  /-- It received some of them, each at most once, in order. -/
  received : (received k log).Sublist since
  /-- The others were reported to it as missed, or it has not heard of them yet. -/
  adds : (Notice.received k log).length + skips k log + x.unheard k = since.length
  /-- When a call of it finds nothing, there is nothing that it has not heard of. -/
  caughtUp : ∀ w d b, x.stages[k]? = some (.asking w) → x.bus.Pulls k d b →
    d = .nothing ∨ d = .closed → (Notice.received k log).length + skips k log = since.length

theorem Abreast.accounts (h : x.Abreast k (heard k log) since) : x.Accounts log k since := by
  obtain ⟨s, earlier, passed, rest, hs, rfl, hfollows⟩ := h
  have ⟨hpublished, hstands, hcovers⟩ := hfollows
  have huntold : s.untold.filterMap Bus.Delivery.intent? = [] := by cases s <;> rfl
  have hreceived := hcovers.received
  have hlength := hcovers.length
  rw [List.filterMap_append, huntold, List.append_nil] at hreceived hlength
  rw [List.map_append, List.sum_append] at hlength
  have hadds : (received k log).length + skips k log + x.unheard k = (passed ++ rest).length := by
    rw [unheard, hstands, hs, hpublished]
    simp only [List.length_append, Option.getD_some, Option.elim_some, received, skips]
    omega
  refine ⟨hreceived.trans (List.sublist_append_left ..), hadds, fun w d b hasks hpulls hd => ?_⟩
  have hend : x.bus.readers[k]? = some x.bus.published.length := by
    cases hpulls with
    | hands | overruns => rcases hd with hd | hd <;> cases hd
    | waits stands | closes stands => exact stands
  have hnone : x.unheard k = 0 := by
    rw [unheard, hend, hasks]
    simp [Stage.untold]
  rw [← hadds, hnone]
  rfl

/-- Whatever is dispatched, whoever subscribes and however subscribers read: each receives some
    of the intents that were published since it came, each at most once and in order; those
    that it received and those that were reported to it add up to all of them when it has
    caught up; and the bus counts as dropped what was reported, to all of them together. -/
theorem Run.tells_losses (h : Run (.ofSinks capacity sinks) log x) :
    x.bus.published = publications log ∧ x.bus.readers.length = subscriptions log ∧
    (∀ pre post, log = pre ++ .subscribed :: post →
      x.Accounts log (subscriptions pre) (publications post)) ∧
    x.bus.dropped = ∑ k ∈ Finset.range (subscriptions log), skips k log :=
  ⟨h.published, h.stands.readers, fun _ _ hlog => (h.abreast hlog).accounts, h.dropped⟩

/-! ## An overrun -/

/-- The log of a subscriber that was overrun by the second of two intents: a call that waits for
    some time counts the first one and goes on. -/
def overrunLog : List Notice := [
  .subscribed, .published (.hideCharacter "A"), .published (.hideCharacter "B"),
  .called 0 .nextTimeout, .reported 0 1, .returned 0 (.intent (.hideCharacter "B")),
  .called 0 .tryRecv]

/-- The bus after that, with another call. -/
def overrun : Audience where
  bus :=
    { kept := 1
      published := [.hideCharacter "A", .hideCharacter "B"]
      readers := [2]
      dropped := 1 }
  stages := [.asking .tryRecv]

theorem run_overrun : Run (.ofSinks 1 []) overrunLog overrun := by
  have hcame : Run (.ofSinks 1 []) [.subscribed] ⟨(Bus.ofSinks 1 []).subscribe, _⟩ :=
    Run.start.next (.subscribes _)
  have hpublished := (hcame.next (.publishes _ (fun _ => false) (.hideCharacter "A"))).next
    (.publishes _ (fun _ => false) (.hideCharacter "B"))
  have hcalls := hpublished.next (.hears (k := 0) rfl (.calls .nextTimeout))
  have hlags := hcalls.next (.hears (k := 0) rfl
    (.lags (.overruns rfl Nat.zero_lt_one (by decide))))
  have hreports := hlags.next (.hears (k := 0) rfl (.reports .nextTimeout 1))
  have hfinds := hreports.next (.hears (k := 0) rfl (.finds (.hands rfl rfl) rfl))
  exact hfinds.next (.hears (k := 0) rfl (.calls .tryRecv))

/-- The subscriber received one of the two intents, which finds nothing more; so the one that
    it missed was reported, and counted. -/
theorem Run.tells_losses_overrun :
    Run (.ofSinks 1 []) overrunLog overrun ∧
    received 0 overrunLog = [.hideCharacter "B"] ∧ overrun.bus.dropped = 1 ∧
    1 + skips 0 overrunLog = 2 := by
  obtain ⟨-, -, hsubscribers, -⟩ := run_overrun.tells_losses
  have haccounts := hsubscribers [] (overrunLog.tail) rfl
  exact ⟨run_overrun, rfl, rfl,
    haccounts.caughtUp .tryRecv .nothing overrun.bus rfl (.waits rfl) (.inl rfl)⟩

end Audience

end VisualNovel
