/-
  Runs of a player, with what it took up on the way.

  * `Player.next?` is what a player takes up when it acts, and `Player.step_eq` says what it
    makes of it;
  * a `Take` is what was taken up and when, and `Takes.calls` are the calls of playback that
    came of it;
  * `Player.Absorbs` lists what can come of what a call came to;
  * `Player.Does` lists what can come of a take, and `Player.takeUp_does` says that one of
    these does;
  * `Player.Run` are the runs of a player: its user may send signals, all handles may be
    dropped, time may pass, and the player may act, in any order;
  * `Player.Run.signals_eq` and `Player.Run.stop_last`: signals are taken in the order in
    which they were sent, and none after a stop;
  * `Player.Run.settle`, `Player.Run.passUntil`: players that act as long as they can, at one
    time or up to a moment, run in one of these ways.
-/
import VisualNovel.Playback.Player
import VisualNovel.Proofs.Playback.History

namespace VisualNovel

/-! ## Takes -/

/-- What a player takes up when it acts. -/
inductive Intake where
  /-- Playback is to be started. -/
  | opening
  | signal (s : Signal)
  /-- The running timer is due. -/
  | timer
  /-- No more signals can come. -/
  | closing
  deriving DecidableEq, Repr

/-- The wake that a signal stands for; a stop is none. -/
def Signal.wake? : Signal → Option Wake
  | advance => some .advance
  | choose i => some (.choice i)
  | stop => none

/-- The wake that is taken up. -/
def Intake.wake? : Intake → Option Wake
  | signal s => s.wake?
  | timer => some .timer
  | opening | closing => none

/-- The signal that is taken up. -/
def Intake.signal? : Intake → Option Signal
  | signal s => some s
  | _ => none

/-- What a player took up, with what was waited for then, when the timer was due, and the
    time. -/
structure Take where
  intake : Intake
  suspension : Suspension
  deadline : Option Nat
  moment : Nat

namespace Take

/-- The wake that is handed to playback, if one was taken up and is accepted. -/
def wake? (t : Take) : Option Wake := t.intake.wake?.filter t.suspension.accepts

/-- The call that is made of what was taken up. -/
def call? (t : Take) : Option Call :=
  match t.intake with
  | .opening => some .start
  | _ => t.wake?.map .resume

end Take

/-- What a player took up, the latest first. -/
abbrev Takes := List Take

namespace Takes

/-- The calls that were made. -/
def calls (fuel : Nat) (ts : Takes) : Calls := ts.filterMap fun t => t.call?.map (·, fuel)

/-- The accepted signals and the timers that fired, in order. -/
def wakes (ts : Takes) : List Wake := ts.reverse.filterMap Take.wake?

/-- The signals that were taken, in order. -/
def signals (ts : Takes) : List Signal := ts.reverse.filterMap fun t => t.intake.signal?

end Takes

section
variable {t : Take} {ts : Takes} {fuel : Nat}

theorem Take.call?_ne_stop {c : Call} (h : t.call? = some c) : c ≠ .stop := by
  unfold call? at h
  split at h
  · cases h
    simp
  · obtain ⟨w, -, rfl⟩ := Option.map_eq_some_iff.1 h
    simp

theorem Take.wake?_of_start (h : t.call? = some .start) : t.wake? = none := by
  unfold call? at h
  split at h
  · rename_i hi
    rw [wake?, hi]
    rfl
  · obtain ⟨w, -, hw⟩ := Option.map_eq_some_iff.1 h
    cases hw

theorem Take.wake?_of_resume {w : Wake} (h : t.call? = some (.resume w)) : t.wake? = some w := by
  unfold call? at h
  split at h
  · cases h
  · obtain ⟨w', hw', ⟨⟩⟩ := Option.map_eq_some_iff.1 h
    exact hw'

theorem Take.wake?_of_none (h : t.call? = none) : t.wake? = none := by
  unfold call? at h
  split at h
  · cases h
  · exact Option.map_eq_none_iff.1 h

theorem Takes.calls_of_some {c : Call} (h : t.call? = some c) :
    Takes.calls fuel (t :: ts) = (c, fuel) :: ts.calls fuel := by
  rw [Takes.calls, List.filterMap_cons, h]
  rfl

theorem Takes.calls_of_none (h : t.call? = none) :
    Takes.calls fuel (t :: ts) = ts.calls fuel := by
  rw [Takes.calls, List.filterMap_cons, h]
  rfl

end

namespace Player

/-- What a player takes up next, if anything: it starts; then signals come first, then the
    end of signals, and then the timer. -/
def next? (p : Player) : Option Intake :=
  match p.phase, p.signals with
  | .new, _ => some .opening
  | .driving, s :: _ => some (.signal s)
  | .driving, [] => if p.closed then some .closing else if p.isDue then some .timer else none
  | _, _ => none

/-- The record of what is taken up now. -/
def take (p : Player) (i : Intake) : Take := ⟨i, p.playback.suspension, p.deadline, p.now⟩

variable (st : Staging) (fuel : Nat)

/-- What a player makes of what it takes up. -/
def takeUp (p : Player) : Intake → Player
  | .opening => p.launch st fuel
  | .signal s =>
    let p := { p with signals := p.signals.tail }
    match s.wake? with
    | some w => p.wake st fuel w
    | none => p.halt
  | .timer => p.wake st fuel .timer
  | .closing => p.halt

theorem step_eq (p : Player) : p.step st fuel = p.next?.map (p.takeUp st fuel) := by
  obtain ⟨playback, phase, signals, closed⟩ := p
  cases phase with
  | driving =>
    cases signals with
    | nil =>
      simp only [step, next?]
      split
      · rfl
      · split <;> rfl
    | cons s signals => cases s <;> rfl
  | new | ended | lost => rfl

/-- What can come of what a call came to. -/
inductive Absorbs (p : Player) (r : Report) : Player → Prop where
  /-- Playback waits, not for longer than the clock can tell. -/
  | waits {x : Suspension} (came : r.outcome = .suspended x) (waits : x ≠ .idle)
    (reached : p.reaches x = true) :
    Absorbs p r { p with
      playback := r.playback, beats := p.beats ++ r.beats, phase := .driving
      shown := r.playback.state, deadline := x.timeout?.map fun d => p.now + d.nanos }
  /-- The session ended. -/
  | ends (came : r.outcome = .suspended .idle) :
    Absorbs p r (finish { p with
      playback := r.playback, beats := p.beats ++ r.beats, deadline := none })
  /-- Playback waits for longer than the clock can tell. -/
  | breaks {x : Suspension} (came : r.outcome = .suspended x) (beyond : p.reaches x = false) :
    Absorbs p r (breakOff { p with playback := r.playback, beats := p.beats ++ r.beats })
  | fails {e : PlaybackError} (came : r.outcome = .failed e) :
    Absorbs p r (fail { p with playback := r.playback, beats := p.beats ++ r.beats } e)
  | loses (came : r.outcome = .unfinished) :
    Absorbs p r { p with
      playback := r.playback, beats := p.beats ++ r.beats, phase := .lost }

theorem absorb_absorbs (p : Player) (r : Report) : p.Absorbs r (p.absorb r) := by
  unfold absorb
  dsimp only
  split
  · rename_i came
    split
    · rename_i reached
      split
      · rename_i hidle
        subst hidle
        exact .ends came
      · rename_i waits
        exact .waits came waits reached
    · rename_i hbeyond
      exact .breaks came (Bool.eq_false_iff.2 hbeyond)
  · rename_i came
    exact .fails came
  · rename_i came
    exact .loses came

/-- A player that differs from another in what does not matter to playback. -/
structure Like (q p : Player) : Prop where
  phase : q.phase = p.phase
  playback : q.playback = p.playback
  deadline : q.deadline = p.deadline
  beats : q.beats = p.beats
  horizon : q.horizon = p.horizon
  task : q.task = p.task

/-- What can come of something that is taken up. -/
inductive Does (p : Player) (i : Intake) : Player → Prop where
  /-- A call is made: playback is started, or a wake is handed to it. -/
  | calls {c : Call} {q : Player} (made : (p.take i).call? = some c)
    (fits : c = .start ∧ p.phase = .new ∨ (∃ w, c = .resume w) ∧ p.phase = .driving)
    (same : q.Like p) (now : q.now = p.now) : Does p i (q.absorb (q.playback.call st fuel c))
  /-- A signal does not fit. -/
  | ignores {q : Player} (made : (p.take i).call? = none) (phase : p.phase = .driving)
    (same : q.Like p) : Does p i q
  /-- Playback is stopped. -/
  | halts {q : Player} (made : (p.take i).call? = none) (phase : p.phase = .driving)
    (same : q.Like p) : Does p i q.halt

variable {st fuel} {p p' : Player} {i : Intake}

theorem send_like (p : Player) (s : Signal) : (p.send s).1.Like p := by
  unfold send
  split <;> exact ⟨rfl, rfl, rfl, rfl, rfl, rfl⟩

/-- A player that takes something up starts playback, or it is driving. -/
theorem phase_of_next (next : p.next? = some i) :
    i = .opening ∧ p.phase = .new ∨ i ≠ .opening ∧ p.phase = .driving := by
  unfold next? at next
  split at next
  · rename_i hphase
    cases next
    exact .inl ⟨rfl, hphase⟩
  · rename_i hphase _
    cases next
    exact .inr ⟨nofun, hphase⟩
  · rename_i hphase _
    refine .inr ⟨?_, hphase⟩
    rintro rfl
    split at next
    · cases next
    · split at next <;> cases next
  · cases next

theorem wake_does {q : Player} {w : Wake} (hi : i ≠ .opening) (hw : i.wake? = some w)
    (hphase : p.phase = .driving) (same : q.Like p) (now : q.now = p.now) :
    Does st fuel p i (q.wake st fuel w) := by
  have hcall : (p.take i).call? =
      if q.playback.suspension.accepts w then some (.resume w) else none := by
    rw [same.playback]
    cases i with
    | opening => exact absurd rfl hi
    | signal | timer | closing =>
      simp only [Take.call?, Take.wake?, take, hw, Option.filter_some]
      split <;> rfl
  have hsame {k n : Nat} : Like { q with wakes := k, ignored := n } p :=
    ⟨same.phase, same.playback, same.deadline, same.beats, same.horizon, same.task⟩
  unfold wake
  split
  · rename_i haccepts
    rw [if_pos haccepts] at hcall
    exact .calls hcall (.inr ⟨⟨w, rfl⟩, hphase⟩) hsame now
  · rename_i haccepts
    rw [if_neg haccepts] at hcall
    exact .ignores hcall hphase hsame

theorem launch_eq {r : Report} (h : p.playback.call st fuel .start = r) :
    p.launch st fuel = absorb { p with shown := r.playback.state } r := by
  rw [← h]
  rfl

theorem takeUp_does (next : p.next? = some i) : Does st fuel p i (p.takeUp st fuel i) := by
  rcases phase_of_next next with ⟨rfl, hnew⟩ | ⟨hi, hdriving⟩
  · have hmade : (p.take .opening).call? = some .start := rfl
    let q : Player := { p with shown := (p.playback.start st fuel).playback.state }
    have same : q.Like p := ⟨rfl, rfl, rfl, rfl, rfl, rfl⟩
    exact .calls hmade (.inl ⟨rfl, hnew⟩) same rfl
  · cases i with
    | opening => exact absurd rfl hi
    | timer => exact wake_does hi rfl hdriving ⟨rfl, rfl, rfl, rfl, rfl, rfl⟩ rfl
    | closing => exact .halts rfl hdriving ⟨rfl, rfl, rfl, rfl, rfl, rfl⟩
    | signal s =>
      cases s with
      | stop => exact .halts rfl hdriving ⟨rfl, rfl, rfl, rfl, rfl, rfl⟩
      | advance | choose => exact wake_does hi rfl hdriving ⟨rfl, rfl, rfl, rfl, rfl, rfl⟩ rfl

variable (st fuel)

/-- The runs of a player: what was sent, what was taken up, and where the player stands. -/
inductive Run : List Signal → Takes → Player → Prop where
  | new {horizon task : Nat} : Run [] [] { horizon, task }
  /-- A signal is sent, which the player takes. -/
  | sends {sent : List Signal} {ts : Takes} {p : Player} (run : Run sent ts p) (s : Signal)
    (handle : p.closed = false) (taken : (p.send s).2 = true) :
    Run (sent ++ [s]) ts (p.send s).1
  /-- The last handle is dropped. -/
  | drops {sent : List Signal} {ts : Takes} {p : Player} (run : Run sent ts p) :
    Run sent ts { p with closed := true }
  | passes {sent : List Signal} {ts : Takes} {p : Player} (run : Run sent ts p) {time : Nat}
    (later : p.now ≤ time) : Run sent ts { p with now := time }
  | acts {sent : List Signal} {ts : Takes} {p p' : Player} {i : Intake} (run : Run sent ts p)
    (next : p.next? = some i) (step : p.step st fuel = some p') :
    Run sent (p.take i :: ts) p'

variable {st fuel} {sent : List Signal} {ts : Takes}

theorem eq_takeUp (next : p.next? = some i) (step : p.step st fuel = some p') :
    p' = p.takeUp st fuel i := by
  rw [step_eq, next] at step
  exact (Option.some.inj step).symm

theorem step_does (next : p.next? = some i) (step : p.step st fuel = some p') :
    Does st fuel p i p' := by
  rw [eq_takeUp next step]
  exact takeUp_does next

/-! ## What acting leaves as it is -/

/-- What comes of a call leaves the clock and the signals as they are. -/
theorem absorb_frame (p : Player) (r : Report) :
    (p.absorb r).now = p.now ∧ (p.absorb r).signals = p.signals ∧
      (p.absorb r).horizon = p.horizon ∧ (p.absorb r).task = p.task := by
  have habsorbs := p.absorb_absorbs r
  generalize p.absorb r = q at habsorbs ⊢
  cases habsorbs <;> exact ⟨rfl, rfl, rfl, rfl⟩

theorem wake_frame (p : Player) (w : Wake) :
    (p.wake st fuel w).now = p.now ∧ (p.wake st fuel w).signals = p.signals ∧
      (p.wake st fuel w).horizon = p.horizon ∧ (p.wake st fuel w).task = p.task := by
  unfold wake
  split
  · exact absorb_frame ..
  · exact ⟨rfl, rfl, rfl, rfl⟩

theorem takeUp_frame (p : Player) (i : Intake) :
    (p.takeUp st fuel i).now = p.now ∧
      (p.takeUp st fuel i).signals = (if i.signal?.isSome then p.signals.tail else p.signals) ∧
      (p.takeUp st fuel i).horizon = p.horizon ∧ (p.takeUp st fuel i).task = p.task := by
  cases i with
  | opening => exact absorb_frame ..
  | signal s =>
    cases s with
    | advance | choose => exact wake_frame ..
    | stop => exact ⟨rfl, rfl, rfl, rfl⟩
  | timer => exact wake_frame ..
  | closing => exact ⟨rfl, rfl, rfl, rfl⟩

theorem signal_next (next : p.next? = some i) :
    i.signal?.toList ++ (if i.signal?.isSome then p.signals.tail else p.signals) = p.signals := by
  unfold next? at next
  split at next
  · cases next
    rfl
  · rename_i s signals _ hsignals
    cases next
    simp [Intake.signal?, hsignals]
  · split at next
    · cases next
      rfl
    · split at next
      · cases next
        rfl
      · cases next
  · cases next

theorem next?_of_isEnded (h : p.isEnded = true) : p.next? = none := by
  unfold isEnded at h
  split at h
  · rename_i hended
    rw [next?, hended]
  · cases h

theorem absorb_phase (p : Player) (r : Report) : (p.absorb r).phase ≠ .new := by
  have habsorbs := p.absorb_absorbs r
  generalize p.absorb r = q at habsorbs ⊢
  cases habsorbs <;> exact nofun

/-- A player that took something up is not new. -/
theorem Does.phase_ne (h : Does st fuel p i p') : p'.phase ≠ .new := by
  cases h with
  | calls => exact absorb_phase _ _
  | ignores _ phase same =>
    rw [same.phase, phase]
    exact nofun
  | halts => exact nofun

end Player

/-- A start, and then wakes that are handed to playback. -/
def Calls.driven (fuel : Nat) (ws : List Wake) : Calls :=
  (ws.map fun w => (.resume w, fuel)).reverse ++ [(.start, fuel)]

namespace Player.Run
variable {st : Staging} {fuel : Nat} {sent : List Signal} {ts : Takes} {p : Player}

/-! ## Calls -/

/-- A player is new as long as it took up nothing. -/
theorem new_iff (h : Run st fuel sent ts p) : p.phase = .new ↔ ts = [] := by
  induction h with
  | new => exact ⟨fun _ => rfl, fun _ => rfl⟩
  | @sends _ _ p _ s _ _ ih => rwa [(p.send_like s).phase]
  | drops _ ih | passes _ _ ih => exact ih
  | acts _ next step => exact ⟨fun h => absurd h (step_does next step).phase_ne, nofun⟩

theorem ne_nil (h : Run st fuel sent ts p) (hp : p.phase = .driving) : ts ≠ [] := by
  intro hnone
  cases (h.new_iff.2 hnone).symm.trans hp

/-- The calls that a player makes are a start and then what it hands to playback. -/
theorem calls_eq (h : Run st fuel sent ts p) (ht : ts ≠ []) :
    ts.calls fuel = .driven fuel ts.wakes := by
  induction h with
  | new => exact absurd rfl ht
  | sends _ _ _ _ ih | drops _ ih | passes _ _ ih => exact ih ht
  | @acts _ ts p _ i run next step ih =>
    cases step_does next step with
    | calls made fits =>
      rcases fits with ⟨rfl, hnew⟩ | ⟨⟨w, rfl⟩, hdriving⟩
      · have hnone : (p.take i).wake? = none := Take.wake?_of_start made
        rw [run.new_iff.1 hnew]
        simp [Takes.calls, Takes.wakes, Calls.driven, made, hnone]
      · have hwake := Take.wake?_of_resume made
        rw [Takes.calls_of_some made, ih (run.ne_nil hdriving)]
        simp [Calls.driven, Takes.wakes, hwake]
    | ignores made phase | halts made phase =>
      rw [Takes.calls_of_none made, ih (run.ne_nil phase)]
      simp [Calls.driven, Takes.wakes, Take.wake?_of_none made]

/-! ## Signals -/

/-- Signals are taken in the order in which they were sent. -/
theorem signals_eq (h : Run st fuel sent ts p) : ts.signals ++ p.signals = sent := by
  induction h with
  | new => rfl
  | sends run s handle taken ih =>
    unfold send at taken ⊢
    split
    · rename_i hended
      rw [if_pos hended] at taken
      cases taken
    · rw [← ih, List.append_assoc]
  | drops _ ih | passes _ _ ih => exact ih
  | @acts _ ts p _ i run next step ih =>
    have hsignals : Takes.signals (p.take i :: ts) = ts.signals ++ i.signal?.toList := by
      cases hs : i.signal? <;> simp [Takes.signals, take, hs]
    rw [eq_takeUp next step, (takeUp_frame p i).2.1, hsignals, List.append_assoc,
      signal_next next, ih]

/-- Nothing is taken up after a stop. -/
theorem stop_last (h : Run st fuel sent ts p) {post pre : Takes} {t : Take}
    (ht : ts = post ++ t :: pre) (hs : t.intake = .signal .stop) :
    post = [] ∧ p.isEnded = true := by
  induction h generalizing post with
  | new => cases post <;> cases ht
  | sends run s handle taken ih =>
    refine ⟨(ih ht).1, ?_⟩
    have hended := (ih ht).2
    rw [send, if_pos hended] at taken
    cases taken
  | drops _ ih | passes _ _ ih => exact ih ht
  | @acts _ _ p _ i run next step ih =>
    cases post with
    | nil =>
      obtain ⟨rfl, -⟩ := List.cons.inj ht
      have hstop : i = .signal .stop := hs
      rw [eq_takeUp next step, hstop]
      exact ⟨rfl, rfl⟩
    | cons t' post =>
      have hended := (ih (List.cons.inj ht).2).2
      rw [next?_of_isEnded hended] at next
      cases next

/-! ## Players that act as long as they can -/

/-- A player that acts as long as it can does so at one time. -/
theorem settle (h : Run st fuel sent ts p) (n : Nat) :
    ∃ ts', Run st fuel sent (ts' ++ ts) (p.settle st fuel n) ∧
      (p.settle st fuel n).now = p.now := by
  induction n generalizing ts p with
  | zero => exact ⟨[], h, rfl⟩
  | succ n ih =>
    rw [Player.settle]
    cases hstep : p.step st fuel with
    | none => exact ⟨[], h, rfl⟩
    | some p' =>
      obtain ⟨i, hnext, -⟩ := Option.map_eq_some_iff.1 ((step_eq st fuel p).symm.trans hstep)
      obtain ⟨ts', hrun, hnow⟩ := ih (h.acts hnext hstep)
      refine ⟨ts' ++ [p.take i], by simpa using hrun, hnow.trans ?_⟩
      rw [eq_takeUp hnext hstep]
      exact (takeUp_frame p i).1

/-- A player lets time pass up to a moment that has not passed yet. -/
theorem passUntil (h : Run st fuel sent ts p) {moment : Nat} (hm : p.now ≤ moment) (n : Nat) :
    ∃ ts', Run st fuel sent (ts' ++ ts) (p.passUntil st fuel moment n) := by
  induction n generalizing ts p with
  | zero => exact ⟨[], h⟩
  | succ n ih =>
    rw [Player.passUntil]
    obtain ⟨ts', hrun, hnow⟩ := h.settle (n + 1)
    generalize p.settle st fuel (n + 1) = p' at hrun hnow ⊢
    split
    · rename_i d _
      split
      · rename_i hdue
        obtain ⟨ts'', hrun'⟩ := ih (hrun.passes (Nat.le_max_left ..))
          (Nat.max_le.2 ⟨hnow ▸ hm, hdue⟩)
        exact ⟨ts'' ++ ts', by simpa using hrun'⟩
      · exact ⟨ts', hrun.passes (hnow ▸ hm)⟩
    · exact ⟨ts', hrun.passes (hnow ▸ hm)⟩

theorem sleep (h : Run st fuel sent ts p) (n : Nat) (time : Duration) :
    ∃ ts', Run st fuel sent (ts' ++ ts) (p.sleep st fuel n time) :=
  h.passUntil (Nat.le_add_right ..) n

theorem join (h : Run st fuel sent ts p) (n : Nat) :
    ∃ ts', Run st fuel sent (ts' ++ ts) (p.join st fuel n) := by
  obtain ⟨ts', hrun, -⟩ := h.drops.settle n
  exact ⟨ts', hrun⟩

end Player.Run

end VisualNovel
