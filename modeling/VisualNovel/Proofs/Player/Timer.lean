/-
  When the timers of a player fire.

  * `Takes.Asked`: which take of a player made its latest call, and so asked for the timer
    that is running;
  * `Player.Run.deadline_eq`: the timer is due when it was asked for to be, however many
    signals did not fit since then;
  * `Player.Run.take_due`: so it is whenever something is taken up, and a timer is not early;
  * `Player.Run.timers`: both for all runs, and that a timer does not fire after another call
    was made.
-/
import VisualNovel.Proofs.Playback.Speech
import VisualNovel.Proofs.Player.Ending

namespace VisualNovel

/-! ## Who asked for a timer -/

/-- A take made the latest of some calls; the takes after it made none. -/
structure Takes.Asked (ts : Takes) (c : Take) (idle before : Takes) : Prop where
  split : ts = idle ++ c :: before
  call : c.call? ≠ none
  idle : ∀ t ∈ idle, t.call? = none

namespace Takes.Asked
variable {ts idle idle' before before' : Takes} {c c' : Take}

theorem append (h : ts.Asked c idle before) (hi : ∀ t ∈ idle', t.call? = none) :
    Takes.Asked (idle' ++ ts) c (idle' ++ idle) before :=
  ⟨by rw [h.split, List.append_assoc], h.call, List.forall_mem_append.2 ⟨hi, h.idle⟩⟩

/-- What comes before a take that made a call was not asked for later. -/
theorem suffix (h : ts.Asked c idle before) {mid pre : Takes} {a : Take}
    (ht : ts = mid ++ a :: pre) (ha : a.call? ≠ none) : a :: pre <:+ c :: before := by
  obtain ⟨rfl, -, hidle⟩ := h
  rcases List.append_eq_append_iff.1 ht with ⟨as, rfl, hafter⟩ | ⟨as, rfl, hafter⟩
  · exact ⟨as, hafter.symm⟩
  · cases as with
    | nil => exact ⟨[], hafter⟩
    | cons b as =>
      obtain ⟨rfl, -⟩ := List.cons.inj hafter
      exact absurd (hidle a (by simp)) ha

/-- The latest call was made by one take only. -/
theorem unique (h : ts.Asked c idle before) (h' : ts.Asked c' idle' before') :
    c = c' ∧ before = before' := by
  have hle := h.suffix h'.split h'.call
  have hge := h'.suffix h.split h.call
  exact List.cons.inj (hge.eq_of_length (Nat.le_antisymm hge.length_le hle.length_le))

/-- Only what asked made a call since. -/
theorem calls_eq (h : ts.Asked c idle before) (fuel : Nat) :
    ts.calls fuel = Takes.calls fuel (c :: before) := by
  have hnone : Takes.calls fuel idle = [] := by
    refine List.filterMap_eq_nil_iff.2 fun t ht => ?_
    rw [h.idle t ht]
    rfl
  rw [h.split, Takes.calls, List.filterMap_append]
  exact congrArg (· ++ _) hnone

end Takes.Asked

/-! ## Deadlines -/

namespace Player
variable {st : Staging} {fuel : Nat} {sent : List Signal} {ts : Takes} {p : Player}

/-- When a timer is due that was asked for at some time with some wait. -/
def due (suspension : Suspension) (moment : Nat) : Option Nat :=
  suspension.timeout?.map fun d => moment + d.nanos

/-- A player that goes on driving after a call waits from then on. -/
theorem absorb_driving {r : Report} (h : (p.absorb r).phase = .driving) :
    ∃ x, r.outcome = .suspended x ∧ (p.absorb r).playback = r.playback ∧
      (p.absorb r).deadline = due x p.now := by
  have habsorbs := p.absorb_absorbs r
  generalize p.absorb r = q at habsorbs h ⊢
  cases habsorbs with
  | waits came => exact ⟨_, came, rfl, rfl⟩
  | ends | breaks | fails | loses => cases h

/-- The timer of a player that goes on driving after a call was asked for by that call. -/
theorem absorb_deadline {c : Call} (hc : c ≠ .stop)
    (h : (p.absorb (p.playback.call st fuel c)).phase = .driving) :
    (p.absorb (p.playback.call st fuel c)).deadline =
      due (p.absorb (p.playback.call st fuel c)).playback.suspension p.now := by
  obtain ⟨x, ho, hplayback, hdeadline⟩ := absorb_driving h
  rw [hdeadline, hplayback, (Playback.call_suspended hc ho).1]

theorem le_tick (d : Nat) : d ≤ tick d := by
  unfold tick
  omega

/-- A player takes up a timer that is due. -/
theorem timer_next (next : p.next? = some .timer) : ∃ d, p.deadline = some d ∧ d ≤ p.now := by
  unfold next? at next
  split at next
  · cases next
  · cases next
  · split at next
    · cases next
    · split at next
      · rename_i hdue
        unfold isDue at hdue
        split at hdue
        · rename_i d hd
          exact ⟨d, hd, Nat.le_trans (le_tick d) (of_decide_eq_true hdue)⟩
        · cases hdue
      · cases next
  · cases next

end Player

/-- What waits for some time accepts a timer. -/
theorem Suspension.accepts_timer {x : Suspension} {d : Duration} (h : x.timeout? = some d) :
    x.accepts .timer = true := by
  cases x with
  | wait reason timeout =>
    rw [show timeout = some d from h]
    cases reason <;> rfl
  | done | idle => cases h

namespace Player.Run
variable {st : Staging} {fuel : Nat} {sent : List Signal} {ts : Takes} {p : Player}

/-- The timer of a player is due when what made the latest call asked for. -/
theorem deadline_eq (h : Run st fuel sent ts p) (hphase : p.phase = .driving) :
    ∃ c idle before, ts.Asked c idle before ∧
      p.deadline = due p.playback.suspension c.moment := by
  induction h with
  | new => cases hphase
  | @sends _ _ p _ s _ _ ih =>
    have same := p.send_like s
    rw [same.playback, same.deadline]
    exact ih (same.phase ▸ hphase)
  | drops _ ih | passes _ _ ih => exact ih hphase
  | @acts _ ts p _ i run next step ih =>
    cases step_does next step with
    | @calls c q made fits same now =>
      refine ⟨p.take i, [], ts, ⟨rfl, by simp [made], by simp⟩, ?_⟩
      rw [absorb_deadline (Take.call?_ne_stop made) hphase, now]
      rfl
    | ignores made phase same =>
      obtain ⟨c, idle, before, hasked, hdeadline⟩ := ih phase
      refine ⟨c, p.take i :: idle, before, hasked.append (List.forall_mem_singleton.2 made), ?_⟩
      rw [same.playback, same.deadline, hdeadline]
    | halts => cases hphase

/-- While a player is driving, playback waits as the latest call left it. -/
theorem suspension_eq (h : Run st fuel sent ts p) (hphase : p.phase = .driving) {c : Take}
    {idle before : Takes} (hasked : ts.Asked c idle before) :
    p.playback.suspension = ((Takes.calls fuel (c :: before)).playback st).suspension := by
  rw [(h.accounts.follows_of_driving hphase).1.playback, hasked.calls_eq]

/-- What is taken up while a player is driving finds the timer and the wait as the latest call
    left them, and a timer is not early. -/
theorem take_due (h : Run st fuel sent ts p) {post pre : Takes} {t : Take}
    (ht : ts = post ++ t :: pre) (hi : t.intake ≠ .opening) :
    (∃ c idle before, pre.Asked c idle before ∧
      t.suspension = ((Takes.calls fuel (c :: before)).playback st).suspension ∧
      t.deadline = due t.suspension c.moment) ∧
    (t.intake = .timer → t.wake? = some .timer ∧ ∃ d, t.deadline = some d ∧ d ≤ t.moment) := by
  induction h generalizing post with
  | new => cases post <;> cases ht
  | sends _ _ _ _ ih | drops _ ih | passes _ _ ih => exact ih ht
  | @acts _ ts p _ i run next step ih =>
    cases post with
    | cons t' post => exact ih (List.cons.inj ht).2
    | nil =>
      obtain ⟨rfl, rfl⟩ := List.cons.inj ht
      have hphase : p.phase = .driving :=
        ((phase_of_next next).resolve_left fun h => hi h.1).2
      obtain ⟨c, idle, before, hasked, hdeadline⟩ := run.deadline_eq hphase
      constructor
      · exact ⟨c, idle, before, hasked, run.suspension_eq hphase hasked, hdeadline⟩
      · intro htimer
        obtain rfl : i = .timer := htimer
        obtain ⟨d, hd, hle⟩ := timer_next next
        obtain ⟨timeout, htimeout, -⟩ := Option.map_eq_some_iff.1 (hdeadline.symm.trans hd)
        refine ⟨?_, d, hd, hle⟩
        exact Option.filter_eq_some_iff.2 ⟨rfl, Suspension.accepts_timer htimeout⟩

end Player.Run

/-- Timers of a player are neither stale nor put off.  Whatever is taken up while a player
    drives its session finds the wait as the latest call left it, and the timer due as long
    after this call as the wait may last, however much was taken up since without a call.  A
    timer that is taken up is handed to playback, and not before it is due.  As long as a
    player drives its session, the same holds of its wait and its timer; and what is taken up
    without a call does not change when the timer is due.  And once a call was made, only a
    timer fires that was asked for by this call or a later one. -/
theorem Player.Run.timers {st : Staging} {fuel : Nat} {sent : List Signal} {ts : Takes}
    {p : Player} (h : Run st fuel sent ts p) :
    (∀ (post : Takes) t (pre : Takes), ts = post ++ t :: pre → t.intake ≠ .opening →
      (∃ c idle before, pre.Asked c idle before ∧
        t.suspension = ((Takes.calls fuel (c :: before)).playback st).suspension ∧
        t.deadline = t.suspension.timeout?.map fun d => c.moment + d.nanos) ∧
      (t.intake = .timer → t.wake? = some .timer ∧ ∃ d, t.deadline = some d ∧ d ≤ t.moment)) ∧
    (p.phase = .driving →
      (∃ c idle before, ts.Asked c idle before ∧
        p.playback.suspension = ((Takes.calls fuel (c :: before)).playback st).suspension ∧
        p.deadline = p.playback.suspension.timeout?.map fun d => c.moment + d.nanos) ∧
      ∀ sent' idle p', Run st fuel sent' (idle ++ ts) p' → (∀ t ∈ idle, t.call? = none) →
        p'.phase = .driving → p'.deadline = p.deadline) ∧
    ∀ post t mid a pre, ts = post ++ t :: (mid ++ a :: pre) → t.intake = .timer →
      a.call? ≠ none →
      ∃ c idle before, Takes.Asked (mid ++ a :: pre) c idle before ∧
        a :: pre <:+ c :: before := by
  refine ⟨fun post t pre => h.take_due, ?_, ?_⟩
  · intro hphase
    obtain ⟨c, idle, before, hasked, hdeadline⟩ := h.deadline_eq hphase
    have hsuspension := h.suspension_eq hphase hasked
    refine ⟨⟨c, idle, before, hasked, hsuspension, hdeadline⟩, ?_⟩
    intro sent' idle' p' h' hidle hphase'
    obtain ⟨c', more, before', hasked', hdeadline'⟩ := h'.deadline_eq hphase'
    obtain ⟨rfl, rfl⟩ := hasked'.unique (hasked.append hidle)
    rw [hdeadline, hdeadline', hsuspension, h'.suspension_eq hphase' hasked']
  · intro post t mid a pre ht hi ha
    obtain ⟨⟨c, idle, before, hasked, -⟩, -⟩ := h.take_due ht (by simp [hi])
    exact ⟨c, idle, before, hasked, hasked.suffix rfl ha⟩

/-- A player that types the greeting. -/
theorem Player.run_greeting :
    ∃ s, Run .greeting 2 [] [take {} .opening]
      { playback := .typing s .greeting (.ofMillis 0)
        phase := .driving
        deadline := some 0
        shown := .suspended .advance
        beats := [.entered "A" [], .ran ⟨⟨0⟩⟩, .ran ⟨⟨2⟩⟩, .told (.revealText "Ann" "H")] } := by
  obtain ⟨s, t, n, hstart, henter, -, -, -, hspeak⟩ := Playback.greeting_steps
  refine ⟨t, Run.new.acts rfl ?_⟩
  change some (launch .greeting 2 {}) = _
  rw [launch_eq (hstart 2), Playback.run_of_step henter, Playback.run, hspeak]
  rfl

/-- While the greeting is typed, a choice is sent five milliseconds after the tick was due.  It
    does not fit, and the tick comes nevertheless. -/
theorem Player.Run.timers_greeting :
    let opening := take {} .opening
    let choice : Take := ⟨.signal (.choose 0), .wait .advance (some (.ofMillis 0)), some 0, 5000000⟩
    let tick : Take := ⟨.timer, .wait .advance (some (.ofMillis 0)), some 0, 5000000⟩
    ∃ p p', Run .greeting 2 [.choose 0] [choice, opening] p ∧ p.phase = .driving ∧
      p.deadline = some 0 ∧ Run .greeting 2 [.choose 0] [tick, choice, opening] p' ∧
      (tick.wake? = some .timer ∧ ∃ d, tick.deadline = some d ∧ d ≤ tick.moment) ∧
      ∃ c idle before, Takes.Asked [choice, opening] c idle before ∧
        [opening] <:+ c :: before := by
  obtain ⟨s, hrun⟩ := run_greeting
  have hsent := (hrun.passes (Nat.zero_le 5000000)).sends (.choose 0) rfl rfl
  have hchosen := hsent.acts (i := .signal (.choose 0)) rfl rfl
  have hticked := hchosen.acts (i := .timer) rfl rfl
  obtain ⟨hfires, -, hasked⟩ := hticked.timers
  obtain ⟨-, hkeeps⟩ := hsent.timers.2.1 rfl
  exact ⟨_, _, hchosen, rfl, hkeeps _ [_] _ hchosen (List.forall_mem_singleton.2 rfl) rfl,
    hticked, (hfires [] _ _ rfl nofun).2 rfl, hasked [] _ [_] _ [] rfl rfl nofun⟩

end VisualNovel
