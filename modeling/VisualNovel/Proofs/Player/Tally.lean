/-
  What the summary of a session counts.

  * `Takes.moved`, `Takes.idled` and `Takes.missed` judge what a player took up by the playback
    of that time: whether it was moved, whether a signal did not move it, and whether a choice
    was taken that is not shown;
  * `Calls.accepts_cases`: what playback accepts moves it, or is such a choice;
  * `Player.Run.tallied`: a player counts what is accepted, and so the choices that are not
    shown among its wakes;
  * `Player.Run.tallies`: the summary counts what moved playback, and all other signals but a
    stop, exactly if no such choice was taken.
-/
import VisualNovel.Proofs.Playback.Move
import VisualNovel.Proofs.Player.Timer

namespace VisualNovel

/-! ## What is counted -/

namespace Playback

/-- The number of choices that are shown. -/
def shown (p : Playback) : Nat := (p.session.map fun s => s.choices.length).getD 0

/-- Whether a wake is a choice that is not shown, while choices are. -/
def misses (p : Playback) : Wake → Bool
  | .choice i => p.suspension.accepts (.choice i) && decide (p.shown ≤ i)
  | _ => false

end Playback

namespace Takes
variable (st : Staging) (fuel : Nat)

/-- The number of takes of which something holds, given the takes before. -/
def count (judge : Takes → Take → Bool) : Takes → Nat
  | [] => 0
  | t :: ts => count judge ts + (judge ts t).toNat

/-- Where playback stands after takes. -/
def playback (ts : Takes) : Playback := (ts.calls fuel).playback st

/-- Whether a signal or a timer was taken that moves playback. -/
def moved (ts : Takes) (t : Take) : Bool :=
  t.intake.wake?.any ((ts.playback st fuel).moves st fuel)

/-- Whether a signal, other than a stop, was taken that does not move playback. -/
def idled (ts : Takes) (t : Take) : Bool :=
  (t.intake.signal?.bind Signal.wake?).any fun w => !(ts.playback st fuel).moves st fuel w

/-- Whether a choice was taken that is not shown, while choices are. -/
def missed (ts : Takes) (t : Take) : Bool := t.intake.wake?.any (ts.playback st fuel).misses

end Takes

/-! ## What playback accepts -/

namespace Calls
variable {st : Staging} {cs : Calls} {w : Wake}

theorem ignores_of_misses (h : (cs.playback st).misses w = true) (fuel : Nat) :
    (cs.playback st).Ignores st fuel w := by
  cases w with
  | timer | advance => cases h
  | choice i =>
    obtain ⟨-, hshown⟩ := Bool.and_eq_true_iff.1 h
    refine ignores_missing (fun s hs => ?_) fuel
    rw [decide_eq_true_iff, Playback.shown, hs] at hshown
    exact hshown

variable (hr : cs.Returned st) (hs : cs.Smooth st)
include hr hs

/-- What is accepted moves playback, unless it is a choice that is not shown. -/
theorem moves_of_accepts (ha : (cs.playback st).suspension.accepts w = true)
    (hm : (cs.playback st).misses w = false) (fuel : Nat) :
    (cs.playback st).moves st fuel w = true := by
  obtain ⟨s, cursor, suspension, hp, hawaits⟩ := (Playback.awaits_invariant st).at_rest hr hs
  rw [hp] at ha hm ⊢
  refine hawaits.moves ha (fun i hw u hu => ?_) fuel
  subst hw
  rw [Playback.misses, ha, Playback.shown, hu] at hm
  simpa using hm

/-- A wake is a choice that is not shown, and is accepted and comes to nothing; or playback
    accepts it if it is moved by it. -/
theorem accepts_cases (w : Wake) (fuel : Nat) :
    (cs.playback st).misses w = true ∧ (cs.playback st).suspension.accepts w = true ∧
        (cs.playback st).moves st fuel w = false ∨
      (cs.playback st).misses w = false ∧
        (cs.playback st).suspension.accepts w = (cs.playback st).moves st fuel w := by
  cases hm : (cs.playback st).misses w with
  | true =>
    refine .inl ⟨rfl, ?_, (ignores_of_misses hm fuel).not_moves⟩
    cases w with
    | timer | advance => cases hm
    | choice => exact (Bool.and_eq_true_iff.1 hm).1
  | false =>
    refine .inr ⟨rfl, ?_⟩
    cases ha : (cs.playback st).suspension.accepts w with
    | true => exact (moves_of_accepts hr hs ha hm fuel).symm
    | false => exact (ignores_refused ha fuel).not_moves.symm

/-- What is accepted counts as a wake that moves playback or as a choice that is not shown, and
    such choices and what is not accepted make up what does not move it. -/
theorem accepts_toNat (w : Wake) (fuel : Nat) :
    ((cs.playback st).suspension.accepts w).toNat =
        ((cs.playback st).moves st fuel w).toNat + ((cs.playback st).misses w).toNat ∧
      (!(cs.playback st).suspension.accepts w).toNat + ((cs.playback st).misses w).toNat =
        (!(cs.playback st).moves st fuel w).toNat := by
  rcases accepts_cases hr hs w fuel with ⟨hmisses, ha, hmoves⟩ | ⟨hmisses, ha⟩
  · rw [hmisses, ha, hmoves]
    exact ⟨rfl, rfl⟩
  · rw [hmisses, ha]
    exact ⟨rfl, rfl⟩

/-- What does not move playback comes to nothing at all. -/
theorem ignores_of_not_moves {fuel : Nat} (h : (cs.playback st).moves st fuel w = false) :
    (cs.playback st).Ignores st fuel w := by
  cases ha : (cs.playback st).suspension.accepts w with
  | false => exact ignores_refused ha fuel
  | true =>
    refine ignores_of_misses (eq_true_of_ne_false fun hm => ?_) fuel
    cases h.symm.trans (moves_of_accepts hr hs ha hm fuel)

end Calls

/-! ## What players count -/

namespace Player
variable {st : Staging} {fuel : Nat} {sent : List Signal} {ts : Takes} {p : Player}

/-- If a player ended well, its summary has what it counted. -/
def Sums (p : Player) : Prop :=
  ∀ summary, p.phase = .ended (.ok summary) →
    summary.wakes = p.wakes ∧ summary.ignored = p.ignored

theorem sums_of_driving (h : p.phase = .driving) : p.Sums := by
  intro summary hended
  cases h.symm.trans hended

theorem absorb_sums (p : Player) (r : Report) :
    (p.absorb r).wakes = p.wakes ∧ (p.absorb r).ignored = p.ignored ∧ (p.absorb r).Sums := by
  have habsorbs := p.absorb_absorbs r
  generalize p.absorb r = q at habsorbs ⊢
  cases habsorbs with
  | waits => exact ⟨rfl, rfl, sums_of_driving rfl⟩
  | ends =>
    refine ⟨rfl, rfl, ?_⟩
    rintro summary ⟨⟩
    exact ⟨rfl, rfl⟩
  | breaks | fails | loses => exact ⟨rfl, rfl, nofun⟩

theorem halt_sums (p : Player) :
    p.halt.wakes = p.wakes ∧ p.halt.ignored = p.ignored ∧ p.halt.Sums := by
  refine ⟨rfl, rfl, ?_⟩
  rintro summary ⟨⟩
  exact ⟨rfl, rfl⟩

/-- A player counts a wake by whether playback accepts it. -/
theorem wake_sums (hp : p.phase = .driving) (w : Wake) :
    (p.wake st fuel w).wakes = p.wakes + (p.playback.suspension.accepts w).toNat ∧
      (p.wake st fuel w).ignored = p.ignored + (!p.playback.suspension.accepts w).toNat ∧
      (p.wake st fuel w).Sums := by
  unfold wake
  split
  · rename_i haccepts
    rw [haccepts]
    exact absorb_sums ..
  · rename_i haccepts
    rw [Bool.eq_false_iff.2 haccepts]
    exact ⟨rfl, rfl, sums_of_driving hp⟩

/-- A player counted as wakes what moved playback and the choices that are not shown, and as
    ignored the other signals that did not move playback. -/
structure Tallied (st : Staging) (fuel : Nat) (ts : Takes) (p : Player) : Prop where
  wakes : p.wakes = ts.count (Takes.moved st fuel) + ts.count (Takes.missed st fuel)
  ignored : p.ignored + ts.count (Takes.missed st fuel) = ts.count (Takes.idled st fuel)
  sums : p.Sums

/-- What a player takes up without a wake is not counted. -/
theorem Tallied.of_none {p' : Player} {i : Intake} (h : p.Tallied st fuel ts)
    (hi : i.wake? = none) (hsums : p'.wakes = p.wakes ∧ p'.ignored = p.ignored ∧ p'.Sums) :
    p'.Tallied st fuel (p.take i :: ts) := by
  have hmoved : Takes.moved st fuel ts (p.take i) = false := by
    rw [Takes.moved, take, hi]
    rfl
  have hmissed : Takes.missed st fuel ts (p.take i) = false := by
    rw [Takes.missed, take, hi]
    rfl
  have hidled : Takes.idled st fuel ts (p.take i) = false := by
    have hnone : i.signal?.bind Signal.wake? = none := by
      cases i with
      | signal s => exact hi
      | opening | timer | closing => rfl
    rw [Takes.idled, take, hnone]
    rfl
  obtain ⟨hwakes, hignored, hsums⟩ := hsums
  refine ⟨?_, ?_, hsums⟩
  · rw [hwakes, h.wakes]
    simp only [Takes.count, hmoved, hmissed, Bool.toNat_false, Nat.add_zero]
  · rw [hignored]
    simp only [Takes.count, hidled, hmissed, Bool.toNat_false, Nat.add_zero]
    exact h.ignored

/-- A wake that a player takes up is counted once, by whether playback accepts it. -/
theorem Tallied.of_wake {q : Player} {i : Intake} {w : Wake} (h : p.Tallied st fuel ts)
    (hp : p.Follows st (ts.calls fuel)) (hi : i.wake? = some w)
    (hidled : (!p.playback.suspension.accepts w).toNat + (p.playback.misses w).toNat =
      (Takes.idled st fuel ts (p.take i)).toNat)
    (hq : q.phase = .driving) (same : q.playback = p.playback) (wakes : q.wakes = p.wakes)
    (ignored : q.ignored = p.ignored) :
    (q.wake st fuel w).Tallied st fuel (p.take i :: ts) := by
  obtain ⟨hwakes, hignored, hsums⟩ : _ ∧ _ ∧ (q.wake st fuel w).Sums := wake_sums hq w
  have hmoved : Takes.moved st fuel ts (p.take i) = p.playback.moves st fuel w := by
    rw [Takes.moved, take, hi, hp.playback]
    rfl
  have hmissed : Takes.missed st fuel ts (p.take i) = p.playback.misses w := by
    rw [Takes.missed, take, hi, hp.playback]
    rfl
  obtain ⟨haccepts, -⟩ := Calls.accepts_toNat hp.returned hp.smooth w fuel
  rw [← hp.playback] at haccepts
  have hwakes' := h.wakes
  have hignored' := h.ignored
  refine ⟨?_, ?_, hsums⟩
  · rw [hwakes, same, wakes]
    simp only [Takes.count, hmoved, hmissed]
    omega
  · rw [hignored, same, ignored]
    simp only [Takes.count, hmissed]
    omega

/-- A signal that does not move playback is one that is not accepted, or a choice that is not
    shown. -/
theorem Follows.idled_signal (hp : p.Follows st (ts.calls fuel)) {s : Signal} {w : Wake}
    (hw : s.wake? = some w) :
    (!p.playback.suspension.accepts w).toNat + (p.playback.misses w).toNat =
      (Takes.idled st fuel ts (p.take (.signal s))).toNat := by
  have hidled : Takes.idled st fuel ts (p.take (.signal s)) = !p.playback.moves st fuel w := by
    rw [Takes.idled, take, Intake.signal?, Option.bind_some, hw, hp.playback]
    rfl
  rw [hidled, hp.playback]
  exact (Calls.accepts_toNat hp.returned hp.smooth w fuel).2

/-- A player counts whatever it takes up. -/
theorem Run.tallied (h : Run st fuel sent ts p) : p.Tallied st fuel ts := by
  induction h with
  | new => exact ⟨rfl, rfl, nofun⟩
  | @sends _ _ p _ s _ _ ih =>
    unfold send
    split
    · exact ih
    · exact ⟨ih.wakes, ih.ignored, ih.sums⟩
  | drops _ ih | passes _ _ ih => exact ⟨ih.wakes, ih.ignored, ih.sums⟩
  | @acts sent ts p p' i run next step ih =>
    have hacted := run.acts next step
    rw [eq_takeUp next step] at hacted ⊢
    rcases phase_of_next next with ⟨rfl, -⟩ | ⟨hi, hdriving⟩
    · exact ih.of_none rfl (absorb_sums ..)
    have hp := run.follows next
    cases i with
    | opening => exact absurd rfl hi
    | closing => exact ih.of_none rfl (halt_sums p)
    | signal s =>
      cases s with
      | stop => exact ih.of_none rfl (halt_sums _)
      | advance | choose => exact ih.of_wake hp rfl (hp.idled_signal rfl) hdriving rfl rfl rfl
    | timer =>
      -- a timer that is due is accepted, and so it is not to be found among the ignored
      have hfires : (p.take .timer).wake? = some .timer :=
        ((hacted.take_due (List.nil_append _).symm nofun).2 rfl).1
      have haccepts : p.playback.suspension.accepts .timer = true :=
        (Option.filter_eq_some_iff.1 hfires).2
      refine ih.of_wake hp rfl ?_ hdriving rfl rfl rfl
      rw [haccepts]
      rfl

/-- What a player takes up finds playback as calls left it that did not fail. -/
theorem Run.take_follows (h : Run st fuel sent ts p) {post pre : Takes} {t : Take}
    (ht : ts = post ++ t :: pre) :
    (pre.calls fuel).Returned st ∧ (pre.calls fuel).Smooth st := by
  induction h generalizing post with
  | new => cases post <;> cases ht
  | sends _ _ _ _ ih | drops _ ih | passes _ _ ih => exact ih ht
  | acts run next step ih =>
    cases post with
    | cons t' post => exact ih (List.cons.inj ht).2
    | nil =>
      obtain ⟨rfl, rfl⟩ := List.cons.inj ht
      exact ⟨(run.follows next).returned, (run.follows next).smooth⟩

end Player

/-- The summary of a session that ends well counts as wakes all signals and timers that moved
    playback, and besides these the choices that were taken though they are not shown; and it
    counts as ignored all other signals but a stop that did not move playback.  So it tells
    which signals moved playback and which did not exactly if no choice was taken that is not
    shown.  What did not move playback came to nothing at all. -/
theorem Player.Run.tallies {st : Staging} {fuel : Nat} {sent : List Signal} {ts : Takes}
    {p : Player} (h : Run st fuel sent ts p) {summary : Summary}
    (hended : p.phase = .ended (.ok summary)) :
    summary.wakes = ts.count (Takes.moved st fuel) + ts.count (Takes.missed st fuel) ∧
    summary.ignored + ts.count (Takes.missed st fuel) = ts.count (Takes.idled st fuel) ∧
    (summary.wakes = ts.count (Takes.moved st fuel) ∧
        summary.ignored = ts.count (Takes.idled st fuel) ↔
      ts.count (Takes.missed st fuel) = 0) ∧
    ∀ (post : Takes) t pre, ts = post ++ t :: pre → ∀ w, t.intake.wake? = some w →
      Takes.moved st fuel pre t = false → (Takes.playback st fuel pre).Ignores st fuel w := by
  obtain ⟨hwakes, hignored, hsums⟩ := h.tallied
  obtain ⟨hw, hi⟩ := hsums summary hended
  rw [← hw] at hwakes
  rw [← hi] at hignored
  refine ⟨hwakes, hignored, ?_, fun post t pre ht w hw hstill => ?_⟩
  · constructor
    · rintro ⟨hmoved, -⟩
      omega
    · intro hnone
      omega
  · obtain ⟨hr, hs⟩ := h.take_follows ht
    rw [Takes.moved, hw] at hstill
    exact Calls.ignores_of_not_moves hr hs hstill

/-! ## A choice that is not shown -/

/-- While the prompt is shown, which has one choice, the player is sent a second choice, and a
    stop.  The choice is no choice that is shown. -/
theorem Player.run_missed :
    ∃ ts p, Run .prompt 2 [.choose 1, .stop] ts p ∧ p.phase = .ended (.ok ⟨.idle, 1, 0⟩) ∧
      ts.count (Takes.moved .prompt 2) = 0 ∧ ts.count (Takes.idled .prompt 2) = 1 := by
  obtain ⟨s, hrun⟩ := run_prompt
  have hsent := (hrun.sends (.choose 1) rfl rfl).sends .stop rfl rfl
  have hended := (hsent.acts (i := .signal (.choose 1)) rfl rfl).acts (i := .signal .stop) rfl rfl
  have hstill : (Calls.playback .prompt [(.start, 2)]).moves .prompt 2 (.choice 1) = false := by
    obtain ⟨t, ht, hp, -⟩ := Calls.reached_prompt
    refine (Calls.ignores_missing (fun u hu => ?_) 2).not_moves
    rw [hp] at hu
    cases hu
    exact Nat.le_of_eq (congrArg List.length ht)
  refine ⟨_, _, hended, rfl, ?_, ?_⟩
  · change 0 + Bool.toNat false +
      ((Calls.playback .prompt [(.start, 2)]).moves .prompt 2 (.choice 1)).toNat +
      Bool.toNat false = 0
    rw [hstill]
    rfl
  · change 0 + Bool.toNat false +
      (!(Calls.playback .prompt [(.start, 2)]).moves .prompt 2 (.choice 1)).toNat +
      Bool.toNat false = 1
    rw [hstill]
    rfl

/-- The summary counts it as a wake all the same, and as one such choice. -/
theorem Player.Run.tallies_missed :
    ∃ ts p summary, Run .prompt 2 [.choose 1, .stop] ts p ∧
      p.phase = .ended (.ok summary) ∧ summary = ⟨.idle, 1, 0⟩ ∧
      ts.count (Takes.moved .prompt 2) = 0 ∧
      summary.wakes = ts.count (Takes.moved .prompt 2) + ts.count (Takes.missed .prompt 2) ∧
      ts.count (Takes.missed .prompt 2) = 1 := by
  obtain ⟨ts, p, hrun, hended, hmoved, -⟩ := run_missed
  obtain ⟨hwakes, -⟩ := hrun.tallies hended
  refine ⟨ts, p, _, hrun, hended, rfl, hmoved, hwakes, ?_⟩
  rw [hmoved, Nat.zero_add] at hwakes
  exact hwakes.symm

/-- So the summary does not count what moved playback, and it leaves out a signal that did
    not. -/
theorem Player.Run.miscounts_missed :
    ∃ ts p summary, Run .prompt 2 [.choose 1, .stop] ts p ∧
      p.phase = .ended (.ok summary) ∧ summary.wakes ≠ ts.count (Takes.moved .prompt 2) ∧
      summary.ignored ≠ ts.count (Takes.idled .prompt 2) := by
  obtain ⟨ts, p, hrun, hended, hmoved, hidled⟩ := run_missed
  refine ⟨ts, p, _, hrun, hended, ?_, ?_⟩
  · rw [hmoved]
    decide
  · rw [hidled]
    decide

end VisualNovel
