/-
  How a driven session ends.

  * `Playback.call_suspended`, `Playback.call_failed` and `Playback.call_blames`: what a call
    leaves behind that comes to rest or fails, and for what reasons it fails;
  * `Player.Accounts`: what a player did is what the calls did that it made, in each of its
    phases;
  * `Takes.Overruns`: a player was to wait for longer than its clock can tell, and
    `Player.Run.overruns_iff`: exactly then it breaks off;
  * `Player.Run.ends`: so the calls account for all that was told when a player ends, but if it
    breaks off, the session is not stopped.
-/
import VisualNovel.Proofs.Playback.Fade
import VisualNovel.Proofs.Player.Run

namespace VisualNovel

/-! ## What calls leave behind -/

/-- A turn that leaves no session comes after the host was told that it stopped; and a turn that
    fails does so for a reason that lies in the story. -/
structure Turn.Parts (bs : List Beat) (t : Turn) : Prop where
  closes : t.isOpen = false → bs.getLast? = some (.told .sessionStopped)
  blames : ∀ s e, t = .fail s e → ∀ m, e ≠ .driver m

section
variable {st : Staging} {bs : List Beat}

theorem Turn.Parts.of_open {t : Turn} (h : t.isOpen = true)
    (blames : ∀ s e, t = .fail s e → ∀ m, e ≠ .driver m) : t.Parts bs :=
  ⟨fun hclosed => absurd (hclosed.symm.trans h) Bool.false_ne_true, blames⟩

theorem Turn.Parts.after {t : Turn} (h : t.Parts bs) (pre : List Beat) : t.Parts (pre ++ bs) := by
  refine ⟨fun hclosed => ?_, h.blames⟩
  rw [List.getLast?_append, h.closes hclosed]
  rfl

theorem Turn.Plain.parts {lines : LineCursor → Prop} {t : Turn} (h : t.Plain st lines) :
    t.Parts bs := by
  cases h with
  | refuses =>
    refine .of_open rfl ?_
    rintro _ _ ⟨⟩ m
    simp
  | runs | ends | shows | types =>
    refine .of_open rfl ?_
    rintro _ _ ⟨⟩

theorem Engine.step_parts (st : Staging) (s : Session) (id : NodeId) :
    (step st s id).turn.Parts (step st s id).beats := by
  obtain ⟨piece, hacts, hstep⟩ := step_acts st s id
  rw [hstep, Piece.turn_after]
  have goes {t : Turn} {bs : List Beat} (plain : t.Plain st LineCursor.Typed) : t.Parts bs :=
    plain.parts
  cases hacts with
  | leaves => exact goes (leave_plain ..)
  | speaks => exact goes (beginLine_plain (fun _ typed => typed) ..)
  | restarts | switches => exact goes (enterScene_plain ..)
  | strays => exact goes (.ends s)
  | fades | offers =>
    refine .of_open rfl ?_
    rintro _ _ ⟨⟩
  | fails names =>
    refine .of_open rfl ?_
    rintro _ _ ⟨⟩ m rfl
    cases names
  | ends =>
    refine ⟨fun _ => rfl, ?_⟩
    rintro _ _ ⟨⟩

end

namespace Playback
variable {st : Staging} {p : Playback} {c : Call} {fuel : Nat}

/-- Playback that goes on with a session comes to a turn that it stands at, after the host
    was told so if it ended the session. -/
theorem follow_parts {lines : LineCursor → Prop} {piece : Piece} (h : piece.turn.Plain st lines)
    (last : Suspension) (fuel : Nat) : ∃ t, (follow st last fuel piece).EndsIn t ∧
      t.Parts (follow st last fuel piece).beats := by
  have hpiece : piece.turn.Parts ([] ++ piece.beats) := h.parts
  exact follow_endsIn (fun bs s id _ => (Engine.step_parts st s id).after bs) last fuel hpiece

/-- A call finds no scene to open; or it is a wake that comes to nothing; or it comes to a
    turn that playback stands at. -/
theorem call_ends (st : Staging) (p : Playback) (fuel : Nat) (hc : c ≠ .stop) :
    (c = .start ∧ st.project.scene? st.opening = none ∧
      p.call st fuel c = ⟨p.stop.1, p.stop.2, .failed (.sceneNotFound st.opening)⟩) ∨
    (∃ w, c = .resume w) ∧ p.call st fuel c = ⟨p, [], .suspended p.suspension⟩ ∨
    (c = .start → (st.project.scene? st.opening).isSome = true) ∧
      ∃ t, (p.call st fuel c).EndsIn t ∧ t.Parts (p.call st fuel c).beats := by
  cases c with
  | stop => exact absurd rfl hc
  | start =>
    rw [call]
    rcases start_cases st p with ⟨hnone, hstart⟩ | ⟨u, hu, hstart⟩
    · rw [hstart]
      exact .inl ⟨rfl, Option.map_eq_none_iff.1 hnone, rfl⟩
    · refine .inr (.inr ⟨fun _ => ?_, ?_⟩)
      · obtain ⟨scene, hscene, -⟩ := Option.map_eq_some_iff.1 hu
        rw [hscene]
        rfl
      · rw [hstart]
        obtain ⟨t, hends, hparts⟩ :=
          follow_parts (Engine.enterScene_plain st LineCursor.Typed u) p.stop.1.suspension fuel
        exact ⟨t, ⟨hends.stands, hends.outcome⟩, hparts.after p.stop.2⟩
  | resume w =>
    rw [call]
    rcases resume_cases st p w with hresume | ⟨u, piece, -, -, hpiece, hresume⟩
    · rw [hresume]
      exact .inr (.inl ⟨⟨w, rfl⟩, rfl⟩)
    · rw [hresume]
      have hplain : piece.turn.Plain st fun _ => True :=
        (wake?_answers hpiece).plain (fun _ _ => trivial) fun _ _ _ => trivial
      exact .inr (.inr ⟨by simp, follow_parts hplain p.suspension fuel⟩)

/-- A call that fails leaves a session open if there is a scene to open one on. -/
theorem call_failed {e : PlaybackError} (hc : c ≠ .stop)
    (hscene : c = .start ∨ (st.project.scene? st.opening).isSome = true)
    (ho : (p.call st fuel c).outcome = .failed e) :
    (p.call st fuel c).playback.session.isSome = (st.project.scene? st.opening).isSome := by
  rcases call_ends st p fuel hc with
    ⟨-, hnone, hcall⟩ | ⟨-, hcall⟩ | ⟨hstart, t, ⟨hstands, houtcome⟩, -⟩
  · rw [hcall, hnone, session_stop]
    rfl
  · rw [hcall] at ho
    cases ho
  · have hopen : (p.call st fuel c).playback.session.isSome = true := by
      rw [houtcome] at ho
      generalize (p.call st fuel c).playback = q at hstands ⊢
      cases hstands with
      | run | rest => cases ho
      | fail => rfl
    rw [hopen, hscene.elim hstart id]

/-- A call fails for a reason that lies in the story. -/
theorem call_blames {e : PlaybackError} (hc : c ≠ .stop)
    (ho : (p.call st fuel c).outcome = .failed e) (m : String) : e ≠ .driver m := by
  rcases call_ends st p fuel hc with ⟨-, -, hcall⟩ | ⟨-, hcall⟩ | ⟨-, t, ⟨-, houtcome⟩, hparts⟩
  · rw [hcall] at ho
    cases ho
    simp
  · rw [hcall] at ho
    cases ho
  · rw [houtcome] at ho
    cases t with
    | run | rest => cases ho
    | fail s e' =>
      cases ho
      exact hparts.blames s e rfl m

/-- A call that comes to rest leaves what it rests with; a start finds a scene then; and if
    the session ends in the call, then the host was told so last. -/
theorem call_suspended {x : Suspension} (hc : c ≠ .stop)
    (ho : (p.call st fuel c).outcome = .suspended x) :
    (p.call st fuel c).playback.suspension = x ∧
      (c = .start → (st.project.scene? st.opening).isSome = true) ∧
      (c = .start ∨ p.suspension ≠ .idle → (p.call st fuel c).playback.session = none →
        x = .idle → (p.call st fuel c).beats.getLast? = some (.told .sessionStopped)) := by
  rcases call_ends st p fuel hc with
    ⟨-, -, hcall⟩ | ⟨⟨w, rfl⟩, hcall⟩ | ⟨hstart, t, ⟨hstands, houtcome⟩, hparts⟩
  · rw [hcall] at ho
    cases ho
  · rw [hcall] at ho ⊢
    obtain rfl := Outcome.suspended.inj ho
    exact ⟨rfl, by simp, fun hwaits _ hidle => absurd hidle (hwaits.resolve_left (by simp))⟩
  · rw [houtcome] at ho
    generalize (p.call st fuel c).playback = q at hstands ⊢
    cases hstands with
    | run | fail => cases ho
    | rest s cursor suspension =>
      obtain rfl := Outcome.suspended.inj ho
      refine ⟨rfl, hstart, fun _ hnone hidle => hparts.closes ?_⟩
      subst hidle
      have hclosed : s = none := hnone
      rw [hclosed]
      rfl

end Playback

namespace Calls
variable {st : Staging} {cs : Calls}

/-- The calls, and a stop if a session is still open after them. -/
def stopped (st : Staging) (cs : Calls) : Calls :=
  if (cs.playback st).session.isSome then (.stop, 0) :: cs else cs

theorem beats_stopped (st : Staging) (cs : Calls) :
    (cs.stopped st).beats st = cs.beats st ++ (cs.playback st).stop.2 := by
  unfold stopped
  split
  · rfl
  · rename_i h
    rw [Playback.stop_of_closed (by simpa using h), List.append_nil]

/-- Calls that did not fail leave playback coherent. -/
theorem coherent_of_returned (hr : cs.Returned st) (hs : cs.Smooth st) :
    (cs.playback st).Coherent := by
  obtain ⟨s, cursor, suspension, hp, hawaits⟩ := (Playback.awaits_invariant st).at_rest hr hs
  rw [hp]
  exact hawaits.settle_coherent

end Calls

/-! ## Players -/

theorem Beat.getLast?_intents {bs : List Beat} {i : Intent}
    (h : bs.getLast? = some (.told i)) : (intents bs).getLast? = some i := by
  obtain ⟨as, rfl⟩ := List.getLast?_eq_some_iff.1 h
  simp

namespace Player
variable {st : Staging} {cs : Calls} {p : Player}

/-- A player that did what some calls did, each of which came to a wait or ended the
    session. -/
structure Follows (st : Staging) (cs : Calls) (p : Player) : Prop where
  playback : p.playback = cs.playback st
  beats : p.beats = cs.beats st
  returned : cs.Returned st
  smooth : cs.Smooth st

/-- What the calls that a player made say of what it did, in each of its phases. -/
inductive Accounts (st : Staging) (cs : Calls) (p : Player) : Prop where
  | new (phase : p.phase = .new) (follows : p.Follows st cs)
  | drives (phase : p.phase = .driving) (follows : p.Follows st cs)
    (waits : p.playback.suspension ≠ .idle)
    (scene : (st.project.scene? st.opening).isSome = true)
  | finishes {summary : Summary} (phase : p.phase = .ended (.ok summary))
    (gone : p.playback.session = none) (idle : summary.finalState = .idle)
    (last : p.beats.getLast? = some (.told .sessionStopped))
    (beats : p.beats = (cs.stopped st).beats st)
  | faults {e : PlaybackError} (phase : p.phase = .ended (.error e)) (blames : ∀ m, e ≠ .driver m)
    (beats : p.beats = cs.beats st ++ .told (.fault e.message) :: (cs.playback st).stop.2)
    (scene : (cs.playback st).session.isSome = (st.project.scene? st.opening).isSome)
  /-- It was to wait for longer than its clock can tell. -/
  | breaks (phase : p.phase = .ended (.error p.overflow)) (beats : p.beats = cs.beats st)
    (session : (cs.playback st).session.isSome = true)
  | lost (phase : p.phase = .lost)

theorem Follows.session_isSome (h : p.Follows st cs) (hw : p.playback.suspension ≠ .idle) :
    p.playback.session.isSome = true := by
  rw [h.playback] at hw ⊢
  refine Option.isSome_iff_ne_none.2 fun hnone => hw ?_
  exact (Calls.coherent_of_returned h.returned h.smooth).session.1 hnone

/-- A player that stops a session accounts for it. -/
theorem Follows.halt (h : p.Follows st cs) (hw : p.playback.suspension ≠ .idle) :
    p.halt.Accounts st cs := by
  have hstop := Playback.stop_of_open (h.session_isSome hw)
  have hhalt : p.halt = finish { p with
      playback := {}, beats := p.beats ++ [.told .sessionStopped] } := by
    rw [Player.halt, hstop]
  rw [hhalt]
  refine .finishes rfl rfl rfl (by simp [finish]) ?_
  rw [Calls.beats_stopped, ← h.playback, ← h.beats, hstop]
  rfl

/-- A clock cannot tell when a wait is over that takes it beyond its last moment. -/
theorem reaches_eq_false_iff {x : Suspension} :
    p.reaches x = false ↔ ∃ d, x.timeout? = some d ∧ p.horizon < p.now + d.nanos := by
  unfold reaches
  cases x.timeout? <;> simp

theorem Follows.of_like {q : Player} (h : p.Follows st cs) (same : q.Like p) :
    q.Follows st cs :=
  ⟨same.playback.trans h.playback, same.beats.trans h.beats, h.returned, h.smooth⟩

theorem Follows.report (h : p.Follows st cs) (c : Call) (fuel : Nat) :
    Calls.report st c fuel cs = p.playback.call st fuel c := by
  rw [Calls.report, h.playback]

/-- Calls still return and do not fail with one more that comes to rest. -/
theorem Follows.rests (h : p.Follows st cs) {c : Call} {fuel : Nat} {x : Suspension}
    (came : (p.playback.call st fuel c).outcome = .suspended x) :
    Calls.Returned st ((c, fuel) :: cs) ∧ Calls.Smooth st ((c, fuel) :: cs) := by
  rw [← h.report c fuel] at came
  refine ⟨⟨?_, h.returned⟩, ?_, fun _ _ => h.smooth⟩
  · rw [came]
    simp
  · intro e
    rw [came]
    simp

/-- A player accounts for what comes of a call that it makes. -/
theorem Follows.absorb (h : p.Follows st cs) {c : Call} {fuel : Nat} (hc : c ≠ .stop)
    (hready : c = .start ∨ p.playback.suspension ≠ .idle ∧
      (st.project.scene? st.opening).isSome = true) :
    (p.absorb (p.playback.call st fuel c)).Accounts st ((c, fuel) :: cs) := by
  have hplayback : Calls.playback st ((c, fuel) :: cs) =
      (p.playback.call st fuel c).playback := by
    rw [Calls.playback, h.playback]
  have hbeats : Calls.beats st ((c, fuel) :: cs) =
      p.beats ++ (p.playback.call st fuel c).beats := by
    rw [Calls.beats, h.report, h.beats]
  have hcoherent {x : Suspension} (came : (p.playback.call st fuel c).outcome = .suspended x) :
      (p.playback.call st fuel c).playback.Coherent := by
    obtain ⟨hreturned, hsmooth⟩ := h.rests came
    rw [← hplayback]
    exact Calls.coherent_of_returned hreturned hsmooth
  have habsorbs := p.absorb_absorbs (p.playback.call st fuel c)
  generalize p.absorb (p.playback.call st fuel c) = q at habsorbs ⊢
  cases habsorbs with
  | waits came waits =>
    obtain ⟨hrests, hscene, -⟩ := Playback.call_suspended hc came
    obtain ⟨hreturned, hsmooth⟩ := h.rests came
    exact .drives rfl ⟨hplayback.symm, hbeats.symm, hreturned, hsmooth⟩
      (fun hidle => waits (hrests.symm.trans hidle)) (hready.elim hscene And.right)
  | ends came =>
    obtain ⟨hrests, -, hlast⟩ := Playback.call_suspended hc came
    have hover := (hcoherent came).session.2 hrests
    refine .finishes rfl hover ?_ ?_ ?_
    · exact (hcoherent came).state.trans (congrArg Suspension.state hrests)
    · change (p.beats ++ _).getLast? = _
      rw [List.getLast?_append, hlast (hready.imp_right And.left) hover rfl]
      rfl
    · rw [Calls.beats_stopped, hplayback, hbeats, Playback.stop_of_closed hover]
      exact (List.append_nil _).symm
  | breaks came beyond =>
    -- what waits for some time has a session
    obtain ⟨hrests, -⟩ := Playback.call_suspended hc came
    obtain ⟨d, hd, -⟩ := reaches_eq_false_iff.1 beyond
    refine .breaks rfl hbeats.symm ?_
    rw [hplayback]
    refine Option.isSome_iff_ne_none.2 fun hnone => ?_
    have hidle := (hcoherent came).session.1 hnone
    rw [hrests] at hidle
    rw [hidle] at hd
    cases hd
  | fails came =>
    refine .faults rfl (Playback.call_blames hc came) ?_ ?_
    · rw [hplayback, hbeats]
      rfl
    · rw [hplayback]
      exact Playback.call_failed hc (hready.imp_right And.right) came
  | loses => exact .lost rfl

theorem Like.overflow {q : Player} (same : q.Like p) : q.overflow = p.overflow := by
  rw [Player.overflow, Player.overflow, same.task]

theorem Accounts.of_like {q : Player} (h : p.Accounts st cs) (same : q.Like p) :
    q.Accounts st cs := by
  cases h with
  | new phase follows => exact .new (same.phase.trans phase) (follows.of_like same)
  | drives phase follows waits scene =>
    exact .drives (same.phase.trans phase) (follows.of_like same) (same.playback ▸ waits) scene
  | finishes phase gone idle last beats =>
    exact .finishes (same.phase.trans phase) (same.playback ▸ gone) idle (same.beats ▸ last)
      (same.beats.trans beats)
  | faults phase blames beats scene =>
    exact .faults (same.phase.trans phase) blames (same.beats.trans beats) scene
  | breaks phase beats session =>
    exact .breaks (same.overflow.symm ▸ same.phase.trans phase) (same.beats.trans beats) session
  | lost phase => exact .lost (same.phase.trans phase)

theorem Accounts.follows_of_new (h : p.Accounts st cs) (hphase : p.phase = .new) :
    p.Follows st cs := by
  cases h with
  | new _ follows => exact follows
  | drives phase | finishes phase | faults phase | breaks phase | lost phase =>
    cases hphase.symm.trans phase

theorem Accounts.follows_of_driving (h : p.Accounts st cs) (hphase : p.phase = .driving) :
    p.Follows st cs ∧ p.playback.suspension ≠ .idle ∧
      (st.project.scene? st.opening).isSome = true := by
  cases h with
  | drives _ follows waits scene => exact ⟨follows, waits, scene⟩
  | new phase | finishes phase | faults phase | breaks phase | lost phase =>
    cases hphase.symm.trans phase

/-- A player accounts for whatever it takes up. -/
theorem Run.accounts {fuel : Nat} {sent : List Signal} {ts : Takes}
    (h : Run st fuel sent ts p) : p.Accounts st (ts.calls fuel) := by
  induction h with
  | new => exact .new rfl ⟨rfl, rfl, trivial, trivial⟩
  | @sends _ _ p _ s _ _ ih => exact ih.of_like (p.send_like s)
  | drops _ ih | passes _ _ ih => exact ih.of_like ⟨rfl, rfl, rfl, rfl, rfl, rfl⟩
  | @acts _ ts p _ i run next step ih =>
    cases step_does next step with
    | @calls c q made fits same now =>
      rw [Takes.calls_of_some made]
      rcases fits with ⟨rfl, hnew⟩ | ⟨⟨w, rfl⟩, hdriving⟩
      · exact ((ih.follows_of_new hnew).of_like same).absorb (by simp) (.inl rfl)
      · obtain ⟨hfollows, hwaits, hscene⟩ := ih.follows_of_driving hdriving
        exact (hfollows.of_like same).absorb (by simp) (.inr ⟨same.playback ▸ hwaits, hscene⟩)
    | ignores made phase same =>
      rw [Takes.calls_of_none made]
      exact ih.of_like same
    | halts made phase same =>
      rw [Takes.calls_of_none made]
      obtain ⟨hfollows, hwaits, -⟩ := ih.follows_of_driving phase
      exact (hfollows.of_like same).halt (same.playback ▸ hwaits)

/-- What a player that takes something up did so far is what its calls did. -/
theorem Run.follows {fuel : Nat} {sent : List Signal} {ts : Takes} {i : Intake}
    (h : Run st fuel sent ts p) (next : p.next? = some i) : p.Follows st (ts.calls fuel) := by
  rcases phase_of_next next with ⟨-, hnew⟩ | ⟨-, hdriving⟩
  · exact h.accounts.follows_of_new hnew
  · exact (h.accounts.follows_of_driving hdriving).1

/-- A player breaks off after a call exactly if it is to wait for longer than its clock can
    tell. -/
theorem absorb_breaks_iff {c : Call} {fuel : Nat} (hc : c ≠ .stop) :
    (p.absorb (p.playback.call st fuel c)).phase = .ended (.error p.overflow) ↔
      ∃ x d, (p.playback.call st fuel c).outcome = .suspended x ∧ x.timeout? = some d ∧
        p.horizon < p.now + d.nanos := by
  have habsorbs := p.absorb_absorbs (p.playback.call st fuel c)
  generalize p.absorb (p.playback.call st fuel c) = q at habsorbs ⊢
  constructor
  · intro hended
    cases habsorbs with
    | breaks came beyond =>
      obtain ⟨d, hd, hlt⟩ := reaches_eq_false_iff.1 beyond
      exact ⟨_, d, came, hd, hlt⟩
    | fails came =>
      cases hended
      exact absurd rfl (Playback.call_blames hc came _)
    | waits | ends | loses => cases hended
  · rintro ⟨x, d, hcame, hd, hlt⟩
    have hbeyond : p.reaches x = false := reaches_eq_false_iff.2 ⟨d, hd, hlt⟩
    cases habsorbs with
    | breaks => rfl
    | waits came _ reached =>
      cases hcame.symm.trans came
      cases hbeyond.symm.trans reached
    | ends came =>
      cases hcame.symm.trans came
      cases hd
    | fails came | loses came => cases hcame.symm.trans came

end Player

/-- After a take a call was made that is to wait until after a moment. -/
def Takes.Overruns (st : Staging) (fuel moment : Nat) : Takes → Prop
  | [] => False
  | t :: ts => Overruns st fuel moment ts ∨
    ∃ c x d, t.call? = some c ∧
      (Calls.report st c fuel (Takes.calls fuel ts)).outcome = .suspended x ∧
      x.timeout? = some d ∧ moment < t.moment + d.nanos

/-- A player breaks off exactly if it was to wait for longer than its clock can tell. -/
theorem Player.Run.overruns_iff {st : Staging} {fuel : Nat} {sent : List Signal} {ts : Takes}
    {p : Player} (h : Run st fuel sent ts p) :
    ts.Overruns st fuel p.horizon ↔ p.phase = .ended (.error p.overflow) := by
  induction h with
  | new => exact ⟨False.elim, fun hended => by cases hended⟩
  | @sends _ _ p _ s _ _ ih =>
    have same := p.send_like s
    rw [same.horizon, same.phase, same.overflow]
    exact ih
  | drops _ ih | passes _ _ ih => exact ih
  | @acts _ ts p p' i run next step ih =>
    obtain ⟨-, -, hhorizon, htask⟩ : _ ∧ _ ∧ p'.horizon = p.horizon ∧ p'.task = p.task :=
      eq_takeUp next step ▸ takeUp_frame p i
    have hoverflow : p'.overflow = p.overflow := by rw [overflow, overflow, htask]
    have hbefore : ¬ts.Overruns st fuel p.horizon := fun hover => by
      have hended : p.isEnded = true := by rw [isEnded, ih.1 hover]
      cases next.symm.trans (next?_of_isEnded hended)
    rw [hhorizon, hoverflow, Takes.Overruns, or_iff_right hbefore]
    cases step_does next step with
    | @calls c q made fits same now =>
      have hreport := ((run.follows next).of_like same).report c fuel
      rw [← same.overflow, absorb_breaks_iff (Take.call?_ne_stop made), same.horizon, now,
        ← hreport, made]
      simp [take]
    | ignores made phase same =>
      have hgoes : p'.phase = .driving := same.phase.trans phase
      rw [made, hgoes]
      simp
    | halts made =>
      rw [made]
      simp [halt, finish]

/-- A session that a player drives ends as its calls do.  Let these be a start, and then what
    was accepted of the signals and the timers that the player took, in order, and a stop if a
    session is still open after them.  A player that ends well has no session left and is
    idle, and what it did is what the calls did, at last that the session stopped.  If it ends
    with an error, then after the calls before the stop it told of the error, and then that
    the session stopped if there was a scene to open one on; but for the error, that is what
    the calls did.  That is so unless the player was to wait for longer than its clock can
    tell: exactly then it breaks off with an error that it tells nobody, and it did what the
    calls before the stop did, but it did not stop the session, which is still open.  As long
    as it drives the session, it did what the calls before the stop did.  The signals that it
    took are the first of those that were sent, and no signal is taken after a stop. -/
theorem Player.Run.ends {st : Staging} {fuel : Nat} {sent : List Signal} {ts : Takes}
    {p : Player} (h : Run st fuel sent ts p) :
    (∀ summary, p.phase = .ended (.ok summary) →
      p.playback.session = none ∧ summary.finalState = .idle ∧
        (Beat.intents p.beats).getLast? = some .sessionStopped ∧
        p.beats = ((Calls.driven fuel ts.wakes).stopped st).beats st) ∧
    (∀ e, p.phase = .ended (.error e) → ¬ts.Overruns st fuel p.horizon →
      ∃ post, post = (if (st.project.scene? st.opening).isSome then [.told .sessionStopped]
          else []) ∧
        p.beats = (Calls.driven fuel ts.wakes).beats st ++ .told (.fault e.message) :: post ∧
        (Calls.driven fuel ts.wakes).beats st ++ post =
          ((Calls.driven fuel ts.wakes).stopped st).beats st) ∧
    (ts.Overruns st fuel p.horizon ↔ p.phase = .ended (.error p.overflow)) ∧
    (ts.Overruns st fuel p.horizon →
      p.beats = (Calls.driven fuel ts.wakes).beats st ∧
        ((Calls.driven fuel ts.wakes).stopped st).beats st =
          p.beats ++ [.told .sessionStopped]) ∧
    (p.phase = .driving → p.beats = (Calls.driven fuel ts.wakes).beats st) ∧
    ts.signals <+: sent ∧
    ∀ post t pre, ts = post ++ t :: pre → t.intake = .signal .stop → post = [] := by
  have hcalls {result : Except PlaybackError Summary} (hended : p.phase = .ended result) :
      ts.calls fuel = .driven fuel ts.wakes := by
    apply h.calls_eq
    intro hnone
    cases (h.new_iff.2 hnone).symm.trans hended
  refine ⟨?_, ?_, h.overruns_iff, ?_, ?_, ⟨_, h.signals_eq⟩, ?_⟩
  · intro summary hok
    rw [← hcalls hok]
    cases h.accounts with
    | finishes phase gone idle last beats =>
      rw [phase] at hok
      cases hok
      exact ⟨gone, idle, Beat.getLast?_intents last, beats⟩
    | new phase | drives phase | faults phase | breaks phase | lost phase =>
      cases phase.symm.trans hok
  · intro e he hwithin
    rw [← hcalls he]
    cases h.accounts with
    | faults phase blames beats scene =>
      cases phase.symm.trans he
      refine ⟨_, rfl, ?_, ?_⟩
      · rw [beats, ← scene, Playback.stop]
        split <;> rfl
      · rw [Calls.beats_stopped, ← scene, Playback.stop]
        split <;> rfl
    | breaks phase => exact absurd (h.overruns_iff.2 phase) hwithin
    | new phase | drives phase | finishes phase | lost phase => cases phase.symm.trans he
  · intro hover
    have hbroke := h.overruns_iff.1 hover
    rw [← hcalls hbroke]
    cases h.accounts with
    | breaks phase beats session =>
      refine ⟨beats, ?_⟩
      rw [Calls.beats_stopped, Playback.stop_of_open session, beats]
    | faults phase blames =>
      cases phase.symm.trans hbroke
      exact absurd rfl (blames _)
    | new phase | drives phase | finishes phase | lost phase => cases phase.symm.trans hbroke
  · intro hdriving
    rw [← h.calls_eq (h.ne_nil hdriving)]
    exact (h.accounts.follows_of_driving hdriving).1.beats
  · intro post t pre ht hs
    exact (h.stop_last ht hs).1

/-- A player that shows the prompt. -/
theorem Player.run_prompt :
    ∃ s, Run .prompt 2 [] [take {} .opening]
      { playback := .settle (some s) (.choosing ⟨⟨2⟩⟩ [none]) (.wait .choice none)
        phase := .driving
        shown := .suspended .choice
        beats := [.entered "A" [], .ran ⟨⟨0⟩⟩, .ran ⟨⟨2⟩⟩, .told (.showChoices ["Go"])] } := by
  obtain ⟨s, -, hstart⟩ := Playback.start_prompt
  refine ⟨s, Run.new.acts rfl ?_⟩
  change some (launch .prompt 2 {}) = _
  rw [launch_eq hstart]
  rfl

/-- While the prompt is shown, the player is sent a signal that does not fit, and a stop. -/
theorem Player.Run.ends_prompt :
    ∃ ts p, Run .prompt 2 [.advance, .stop] ts p ∧ p.phase = .ended (.ok ⟨.idle, 0, 1⟩) ∧
      ts.wakes = [] ∧ ts.signals = [.advance, .stop] ∧ p.playback.session = none ∧
      (Beat.intents p.beats).getLast? = some .sessionStopped ∧
      p.beats = (((Calls.driven 2 []).stopped .prompt).beats .prompt) := by
  obtain ⟨s, hrun⟩ := run_prompt
  have hsent := (hrun.sends .advance rfl rfl).sends .stop rfl rfl
  have hended := (hsent.acts (i := .signal .advance) rfl rfl).acts (i := .signal .stop) rfl rfl
  obtain ⟨hover, -, hlast, hbeats⟩ := hended.ends.1 _ rfl
  exact ⟨_, _, hended, rfl, rfl, rfl, hover, hlast, hbeats⟩

/-- A fade of 10^19 seconds. -/
def Binary64.ages : Binary64 := .ofNat 10000000000000000000

/-- While a background fades in, which takes longer than the clock can tell, the player has broken
    off: it ended with an error, the host was told neither of it nor that the session stopped,
    which is still open, and a stop is not taken. -/
theorem Player.Run.breaks_off_sunset :
    ∃ ts p e, Run (.sunset .ages) 2 [] ts p ∧ p.phase = .ended (.error e) ∧
      Beat.intents p.beats = [] ∧ p.playback.session.isSome = true ∧
      (p.send .stop).2 = false := by
  obtain ⟨s, hstart⟩ := Playback.start_sunset .ages
  have hbroke : step (.sunset .ages) 2 {} = some (breakOff
      { playback := .settle (some s) (.fading ⟨⟨2⟩⟩ "sky.png" .ages none)
          (.wait .timer (some (.ofSeconds .ages)))
        shown := .suspended .timer
        beats := [.entered "A" [], .ran ⟨⟨0⟩⟩, .ran ⟨⟨2⟩⟩] }) := by
    have hbeyond : reaches {} (.wait .timer (some (.ofSeconds .ages))) = false := by decide
    change some (launch (.sunset .ages) 2 {}) = _
    rw [launch_eq hstart, absorb]
    exact congrArg some (if_neg (Bool.eq_false_iff.1 hbeyond))
  exact ⟨_, _, _, Run.new.acts rfl hbroke, rfl, rfl, rfl, rfl⟩

end VisualNovel
