/-
  Which wakes move playback, and which come to nothing.

  * `Playback.Ignores`: a wake leaves playback as it is, and the host is told nothing;
  * `Playback.moves`: a wake changes the state that a host sees, or the host is told something;
  * `Playback.run_stirs`: nodes that are run tell the host something, unless they come to a
    fade, fail, or are cut short;
  * `Playback.Awaits.moves`: so playback at rest is moved by every wake that it accepts, other
    than a choice that is not shown;
  * `Calls.Unfit` lists the wakes that cannot mean anything, a call having failed among the
    reasons, and `Calls.ignores_unfit` says that they come to nothing, and no others.
-/
import VisualNovel.Proofs.Playback.Wait

namespace VisualNovel

namespace Playback

/-- A wake comes to nothing: playback returns what it waits for, tells the host nothing, and
    stays as it is. -/
def Ignores (st : Staging) (fuel : Nat) (p : Playback) (w : Wake) : Prop :=
  p.resume st fuel w = ⟨p, [], .suspended p.suspension⟩

/-- Whether a wake changes the state that a host sees, or the host is told something. -/
def moves (st : Staging) (fuel : Nat) (p : Playback) (w : Wake) : Bool :=
  decide ((p.resume st fuel w).playback.state ≠ p.state) ||
    decide (Beat.intents (p.resume st fuel w).beats ≠ [])

variable {st : Staging} {fuel : Nat} {p : Playback} {w : Wake}

theorem moves_iff : p.moves st fuel w = true ↔
    (p.resume st fuel w).playback.state ≠ p.state ∨
      Beat.intents (p.resume st fuel w).beats ≠ [] := by
  rw [moves, Bool.or_eq_true, decide_eq_true_iff, decide_eq_true_iff]

/-- What comes to nothing does not move playback. -/
theorem Ignores.not_moves (h : p.Ignores st fuel w) : p.moves st fuel w = false := by
  rw [Bool.eq_false_iff, Ne, moves_iff, h]
  simp

end Playback

/-! ## What nodes tell -/

theorem Beat.intents_append_ne {as bs : List Beat} (h : intents as ≠ [] ∨ intents bs ≠ []) :
    intents (as ++ bs) ≠ [] := by
  rw [intents_append, Ne, List.append_eq_nil_iff]
  exact fun hnil => h.elim (· hnil.1) (· hnil.2)

/-- What is told, or else where playback stands then: it is to run a node, a background fades
    in, or it failed. -/
inductive Turn.Stirs : List Beat → Turn → Prop where
  | tells {bs : List Beat} {t : Turn} (told : Beat.intents bs ≠ []) : Stirs bs t
  | runs (bs : List Beat) (s : Session) (id : NodeId) : Stirs bs (.run s id)
  | fades (bs : List Beat) (s : Session) (cursor : Cursor) (timeout : Duration) :
    Stirs bs (.rest (some s) cursor (.wait .timer (some timeout)))
  | fails (bs : List Beat) (s : Session) (e : PlaybackError) : Stirs bs (.fail s e)

namespace Engine
variable {st : Staging} {s : Session}

theorem leave_stirs (s : Session) (node : NodeId) (next : Option NodeId) :
    Beat.intents (leave s node next).beats ≠ [] ∨
      ∃ t id, leave s node next = ⟨[], .run t id⟩ := by
  rcases leave_outcome s node next with ⟨reason, hrest, -⟩ | ⟨n, -, -, hrun⟩
  · rw [hrest]
    exact .inl (by simp)
  · exact .inr ⟨_, n, hrun⟩

theorem reveal_stirs (l : LineCursor) : Beat.intents (reveal st s l).beats ≠ [] := by
  rcases reveal_outcome st s l with ⟨-, hshow⟩ | ⟨-, text, htype⟩
  · simp [hshow]
  · simp [htype]

theorem beginLine_stirs (node : NodeId) (d : Dialogue) (l : Line) (rest : List Line)
    (next : Option NodeId) : Beat.intents (beginLine st s node d l rest next).beats ≠ [] := by
  obtain ⟨told, l', -, -, hline⟩ := beginLine_outcome st s node d l rest next
  rw [hline]
  exact Beat.intents_append_ne (.inr (reveal_stirs l'))

/-- A node tells the host something, or it leads on, fades in or fails. -/
theorem step_stirs (st : Staging) (s : Session) (id : NodeId) (bs : List Beat) :
    Turn.Stirs (bs ++ (step st s id).beats) (step st s id).turn := by
  obtain ⟨piece, hacts, hstep⟩ := step_acts st s id
  rw [hstep]
  have tells (h : Beat.intents piece.beats ≠ []) :
      Turn.Stirs (bs ++ (piece.after [.ran id]).beats) (piece.after [.ran id]).turn :=
    .tells (Beat.intents_append_ne (.inr (Beat.intents_append_ne (.inr h))))
  cases hacts with
  | @leaves told t next _ _ =>
    rcases leave_stirs t id next with htold | ⟨u, n, hrun⟩
    · exact tells (Beat.intents_append_ne (.inr htold))
    · rw [hrun]
      exact .runs ..
  | fades => exact .fades ..
  | speaks => exact tells (beginLine_stirs _ _ _ _ _)
  | offers | ends | strays => exact tells (by simp)
  | fails => exact .fails ..
  | restarts | switches => exact tells (Beat.intents_append_ne (.inl (by simp)))

end Engine

namespace Playback
variable {st : Staging} {last : Suspension} {fuel : Nat} {s : Session}

/-- Nodes that are run tell the host something, unless they come to a fade, fail, or are cut
    short. -/
theorem run_stirs (st : Staging) (last : Suspension) (fuel : Nat) (s : Session) (id : NodeId) :
    Beat.intents (run st last fuel s id).beats ≠ [] ∨
      (run st last fuel s id).playback.state = .running ∨
      (run st last fuel s id).playback.state = .suspended .timer := by
  obtain ⟨t, ⟨hstands, -⟩, hstirs⟩ := run_endsIn (I := Turn.Stirs)
    (fun bs s id _ => Engine.step_stirs st s id bs) last fuel (.runs [] s id)
  generalize (run st last fuel s id).playback = q at hstands ⊢
  cases hstirs with
  | tells told => exact .inl told
  | runs | fails =>
    cases hstands
    exact .inr (.inl rfl)
  | fades =>
    cases hstands
    exact .inr (.inr rfl)

theorem follow_tells {piece : Piece} (h : Beat.intents piece.beats ≠ []) :
    Beat.intents (follow st last fuel piece).beats ≠ [] := by
  unfold follow
  split
  · exact Beat.intents_append_ne (.inl h)
  · exact h
  · exact h

/-- Playback that goes on from a line or a choice tells the host something, or it is in
    another state then. -/
theorem Answers.stirs {cursor : Cursor} {w : Wake} {piece : Piece}
    (h : Answers st s cursor w piece) (fuel : Nat) :
    Beat.intents (follow st last fuel piece).beats ≠ [] ∨
      w ≠ .timer ∧ ((follow st last fuel piece).playback.state = .running ∨
        (follow st last fuel piece).playback.state = .suspended .timer) := by
  have leaves (u : Session) (node : NodeId) (next : Option NodeId) :
      Beat.intents (follow st last fuel (Engine.leave u node next)).beats ≠ [] ∨
        (follow st last fuel (Engine.leave u node next)).playback.state = .running ∨
        (follow st last fuel (Engine.leave u node next)).playback.state =
          .suspended .timer := by
    rcases Engine.leave_stirs u node next with htold | ⟨t, id, hrun⟩
    · exact .inl (follow_tells htold)
    · rw [hrun, follow_run]
      exact run_stirs st last fuel t id
  cases h with
  | appears => exact .inl (follow_tells (Beat.intents_append_ne (.inl (by simp))))
  | types | completes => exact .inl (follow_tells (Engine.reveal_stirs _))
  | speaks => exact .inl (follow_tells (Engine.beginLine_stirs _ _ _ _ _))
  | leaves | chooses => exact (leaves ..).imp_right fun hstate => ⟨nofun, hstate⟩

/-- A wake that means something is followed. -/
theorem resume_eq_follow {p : Playback} {w : Wake} {piece : Piece} (hs : p.session = some s)
    (ha : p.suspension.accepts w = true) (hp : wake? st s p.cursor w = some piece)
    (fuel : Nat) : p.resume st fuel w = follow st p.suspension fuel piece := by
  simp [resume, ha, hs, hp]

/-- Playback at rest is moved by every wake that it accepts, other than a choice that is not
    shown. -/
theorem Awaits.moves {s : Option Session} {cursor : Cursor} {suspension : Suspension}
    (h : Awaits s cursor suspension) {w : Wake} (ha : suspension.accepts w = true)
    (hi : ∀ i, w = .choice i →
      ∀ u, (settle s cursor suspension).session = some u → i < u.choices.length) (fuel : Nat) :
    (settle s cursor suspension).moves st fuel w = true := by
  obtain ⟨u, hu, hgoes⟩ := h.goes_on st ha
  obtain ⟨piece, hpiece⟩ := hgoes fun i hw => hi i hw u hu
  rw [moves_iff, resume_eq_follow hu ha hpiece]
  rcases (wake?_answers hpiece).stirs fuel with htold | ⟨hw, hstate⟩
  · exact .inr htold
  · -- a fade ends by its timer only, so playback did not wait for one
    refine .inl fun hsame => ?_
    have hwaits : suspension.state = .running ∨ suspension.state = .suspended .timer := by
      rw [hsame] at hstate
      exact hstate
    cases h with
    | fade =>
      cases w with
      | timer => exact hw rfl
      | advance | choice => cases ha
    | typing | shown | choice | done | idle => rcases hwaits with hwaits | hwaits <;> cases hwaits

/-- Where playback does not wait, wakes come to nothing. -/
theorem StandsAt.ignores {p : Playback} {t : Turn} (h : p.StandsAt t)
    (ht : ∀ s cursor reason timeout, t ≠ .rest (some s) cursor (.wait reason timeout))
    (w : Wake) (fuel : Nat) : p.Ignores st fuel w := by
  rcases h.resume_cases st w with hnone | ⟨s, cursor, reason, timeout, -, hrest, -⟩
  · exact hnone fuel
  · exact absurd hrest (ht s cursor reason timeout)

end Playback

/-! ## After calls -/

namespace Calls
variable (st : Staging)

/-- Why a wake cannot mean anything after calls: it is not accepted; it is a choice that is not
    shown; or a call failed, and playback was neither started nor stopped since. -/
inductive Unfit (cs : Calls) (w : Wake) : Prop where
  | refused (accepts : (cs.playback st).suspension.accepts w = false)
  | missing {i : Nat} (choice : w = .choice i)
    (shown : ∀ s, (cs.playback st).session = some s → s.choices.length ≤ i)
  | failed (failed : ¬cs.Smooth st)

variable {st} {cs : Calls} {w : Wake}

theorem ignores_refused (h : (cs.playback st).suspension.accepts w = false) (fuel : Nat) :
    (cs.playback st).Ignores st fuel w := by
  rw [Playback.Ignores, Playback.resume, h]
  rfl

/-- There are as many targets as choices are shown, so a choice that is not shown has none. -/
theorem ignores_missing {i : Nat}
    (h : ∀ s, (cs.playback st).session = some s → s.choices.length ≤ i) (fuel : Nat) :
    (cs.playback st).Ignores st fuel (.choice i) := by
  obtain ⟨t, hp, hawaits, -⟩ := (Playback.awaits_invariant st).holds cs
  rcases hp.resume_cases st (.choice i) with
    hnone | ⟨s, cursor, reason, timeout, piece, rfl, haccepts, hpiece, -⟩
  · exact hnone fuel
  · cases hawaits with
    | fade | typing | shown => cases haccepts
    | choice node same =>
      obtain ⟨next, htarget, -⟩ := Option.map_eq_some_iff.1 hpiece
      have hlt := (List.getElem?_eq_some_iff.1 htarget).1
      have hsession : (cs.playback st).session = some s.noteWait := by
        rw [hp.eq_settle]
        rfl
      exact absurd (same ▸ hlt) (Nat.not_lt.2 (h _ hsession))

/-- The call that failed left playback where nothing is waited for, and the wakes since then
    came to nothing. -/
theorem ignores_failed (h : ¬cs.Smooth st) (w : Wake) (fuel : Nat) :
    (cs.playback st).Ignores st fuel w := by
  induction cs generalizing w fuel with
  | nil => exact absurd trivial h
  | cons call cs ih =>
    obtain ⟨c, n⟩ := call
    by_cases hfailed : ∃ e, (report st c n cs).outcome = .failed e
    · obtain ⟨e, he⟩ := hfailed
      obtain ⟨t, hp, ht, -⟩ := (Playback.awaits_invariant st).holds cs
      obtain ⟨u, hu, -, hends⟩ :=
        @Invariant.call st _ (Playback.awaits_invariant st) (beats st cs) _ t ht hp c n
      rw [report] at he
      refine hu.ignores ?_ w fuel
      rintro s cursor reason timeout rfl
      rcases hends with hends | ⟨-, hsuspended, -⟩ | ⟨-, hrest⟩
      · cases hends.outcome.symm.trans he
      · cases hsuspended.symm.trans he
      · cases hrest
    · have hbefore : (∃ w', c = .resume w') ∧ ¬Smooth st cs := by
        by_contra hnot
        refine h ⟨fun e he => hfailed ⟨e, he⟩, fun w' hw' => ?_⟩
        by_contra hrough
        exact hnot ⟨⟨w', hw'⟩, hrough⟩
      obtain ⟨⟨w', rfl⟩, hrough⟩ := hbefore
      have hsame : playback st ((.resume w', n) :: cs) = playback st cs :=
        congrArg Report.playback (ih hrough w' n)
      rw [hsame]
      exact ih hrough w fuel

/-- A wake that is not accepted, a choice that is not shown, and any wake after a call that
    failed, before playback is started or stopped again: they come to nothing.  Playback
    returns what it waits for, tells the host nothing, and stays as it is.  As long as every
    call came to its end, no other wake comes to nothing. -/
theorem ignores_unfit (st : Staging) (cs : Calls) (w : Wake) (fuel : Nat) :
    (cs.Unfit st w → (cs.playback st).Ignores st fuel w) ∧
    (cs.Returned st → (cs.playback st).Ignores st fuel w → cs.Unfit st w) := by
  constructor
  · rintro (haccepts | ⟨rfl, hshown⟩ | hfailed)
    · exact ignores_refused haccepts fuel
    · exact ignores_missing hshown fuel
    · exact ignores_failed hfailed w fuel
  · intro hreturned hignores
    by_contra hfits
    have haccepts : (cs.playback st).suspension.accepts w = true :=
      eq_true_of_ne_false fun hrefused => hfits (.refused hrefused)
    have hsmooth : cs.Smooth st := by
      by_contra hfailed
      exact hfits (.failed hfailed)
    have hshown (i : Nat) (hw : w = .choice i) (s : Session)
        (hs : (cs.playback st).session = some s) : i < s.choices.length := by
      by_contra hmissing
      refine hfits (.missing hw fun t ht => ?_)
      obtain rfl := Option.some.inj (hs.symm.trans ht)
      exact Nat.not_lt.1 hmissing
    obtain ⟨s, cursor, suspension, hp, hawaits⟩ :=
      (Playback.awaits_invariant st).at_rest hreturned hsmooth
    rw [hp] at haccepts hshown hignores
    have hmoves : (Playback.settle s cursor suspension).moves st fuel w = true :=
      hawaits.moves haccepts hshown fuel
    rw [hignores.not_moves] at hmoves
    cases hmoves

end Calls

/-! ## A question without an answer -/

/-- A scene in which the only choice leads to a condition that has no way out. -/
def Scene.blunder : Scene where
  name := "A"
  nodes := [
    { id := ⟨⟨0⟩⟩
      content := .state .enter
      outputs := [{ id := ⟨⟨1⟩⟩, flow := .output, connected := true }] },
    { id := ⟨⟨2⟩⟩
      content := .choice [{ text := "Go" }]
      inputs := [{ id := ⟨⟨3⟩⟩, flow := .input, connected := true }]
      outputs := [{ id := ⟨⟨4⟩⟩, flow := .output, connected := true }] },
    { id := ⟨⟨5⟩⟩
      content := .condition ⟨⟨"B", "x", .boolean⟩, .equalTo, "true"⟩
      inputs := [{ id := ⟨⟨6⟩⟩, flow := .input, connected := true }] }]
  connections := [⟨⟨⟨1⟩⟩, ⟨⟨3⟩⟩⟩, ⟨⟨⟨4⟩⟩, ⟨⟨6⟩⟩⟩]

/-- The story of that scene. -/
def Staging.blunder : Staging where
  project := { name := "Blunder", scenes := [.blunder] }
  opening := "A"
  config := { playerName := "", typewriterDelay := .ofMillis 0 }

theorem ConnectionIndex.blunder :
    let index := ofScene .blunder
    ∃ a b c, index.node? .blunder ⟨⟨0⟩⟩ = some a ∧ index.node? .blunder ⟨⟨2⟩⟩ = some b ∧
      index.node? .blunder ⟨⟨5⟩⟩ = some c ∧
      a.id = ⟨⟨0⟩⟩ ∧ a.content = .state .enter ∧ index.successor? a = some ⟨⟨2⟩⟩ ∧
      b.id = ⟨⟨2⟩⟩ ∧ b.content = .choice [{ text := "Go" }] ∧
      b.outputs = [{ id := ⟨⟨4⟩⟩, flow := .output, connected := true }] ∧
      index.follow? ⟨⟨4⟩⟩ = some ⟨⟨5⟩⟩ ∧ c.id = ⟨⟨5⟩⟩ ∧
      c.content = .condition ⟨⟨"B", "x", .boolean⟩, .equalTo, "true"⟩ ∧ c.outputs = [] := by
  refine ⟨_, _, _, node?_ofScene _ _, node?_ofScene _ _, node?_ofScene _ _, rfl, rfl, ?_, rfl,
    rfl, rfl, ?_, rfl, rfl, rfl⟩
  · simp only [successor?, first?, leaving_ofScene, owner?_ofScene]
    rfl
  · simp only [follow?_ofScene, owner?_ofScene]
    rfl

/-- The choice is shown; it is taken, and there is no way out. -/
theorem Calls.reached_blunder :
    ∃ s t : Session, s.choices = ["Go"] ∧
      (report .blunder .start 2 []).outcome = .suspended (.wait .choice none) ∧
      playback .blunder [(.start, 2)] =
        .settle (some s) (.choosing ⟨⟨2⟩⟩ [some ⟨⟨5⟩⟩]) (.wait .choice none) ∧
      report .blunder (.resume (.choice 0)) 1 [(.start, 2)] =
        ⟨⟨some t, .atNode ⟨⟨5⟩⟩, .running, .wait .choice none⟩, [.ran ⟨⟨5⟩⟩],
          .failed (.conditionOutputs ⟨⟨5⟩⟩ 0)⟩ := by
  obtain ⟨a, b, c, ha, hb, hc, hai, hac, hab, hbi, hbc, hbo, hbf, hci, hcc, hco⟩ :=
    ConnectionIndex.blunder
  let s : Session :=
    { scene := .blunder, index := .ofScene .blunder, index_eq := rfl, boards := []
      visited := [⟨⟨0⟩⟩], entries := [("A", [])] }
  let t : Session := { s with visited := [⟨⟨0⟩⟩, ⟨⟨2⟩⟩] }
  let u : Session := { s with visited := [⟨⟨0⟩⟩, ⟨⟨2⟩⟩, ⟨⟨5⟩⟩], entries := [] }
  have henter : Engine.step .blunder s ⟨⟨0⟩⟩ = ⟨[.ran ⟨⟨0⟩⟩], .run t ⟨⟨2⟩⟩⟩ := by
    rw [Engine.step_eq (s := s) ha, Engine.perform, hac]
    dsimp only
    rw [hab, hai]
    rfl
  have hchoose : Engine.step .blunder t ⟨⟨2⟩⟩ = ⟨[.ran ⟨⟨2⟩⟩, .told (.showChoices ["Go"])],
      .rest (some { t with choices := ["Go"] }) (.choosing ⟨⟨2⟩⟩ [some ⟨⟨5⟩⟩])
        (.wait .choice none)⟩ := by
    have htargets : Engine.choiceTargets t b [{ text := "Go" }] = .ok [some ⟨⟨5⟩⟩] := by
      simp only [Engine.choiceTargets, Node.output?, hbo]
      exact congrArg (fun target => Except.ok [target]) hbf
    rw [Engine.step_eq (s := t) hb, Engine.perform, hbc]
    dsimp only
    rw [Engine.choose, hbo, htargets, hbi]
    rfl
  have hfail : Engine.step .blunder u ⟨⟨5⟩⟩ =
      ⟨[.ran ⟨⟨5⟩⟩], .fail u (.conditionOutputs ⟨⟨5⟩⟩ 0)⟩ := by
    rw [Engine.step_eq (s := u) hc, Engine.perform, hcc]
    dsimp only
    rw [Engine.branch, hco, hci]
    rfl
  have hstart : report .blunder .start 2 [] =
      ⟨.settle (some { t with choices := ["Go"] }) (.choosing ⟨⟨2⟩⟩ [some ⟨⟨5⟩⟩])
        (.wait .choice none), [.entered "A" [], .ran ⟨⟨0⟩⟩, .ran ⟨⟨2⟩⟩,
          .told (.showChoices ["Go"])], .suspended (.wait .choice none)⟩ := by
    have hopen : report .blunder .start 2 [] =
        (Playback.run .blunder .idle 2 s ⟨⟨0⟩⟩).after [.entered "A" []] := rfl
    rw [hopen, Playback.run_of_step henter, Playback.run, hchoose]
    rfl
  have hreached := congrArg Report.playback hstart
  refine ⟨{ t with choices := ["Go"] }, u, rfl, congrArg Report.outcome hstart, hreached, ?_⟩
  have hresume : report .blunder (.resume (.choice 0)) 1 [(.start, 2)] =
      (Playback.run .blunder (.wait .choice none) 1 u ⟨⟨5⟩⟩).after [] := by
    have hplayback : playback .blunder [(.start, 2)] = _ := hreached
    rw [report, hplayback]
    rfl
  rw [hresume, Playback.run, hfail]
  rfl

/-- The choice is not taken a second time, though it is still waited for; and before it was
    taken, a choice that is not shown came to nothing. -/
theorem Calls.ignores_unfit_blunder :
    let shown : Calls := [(.start, 2)]
    let taken : Calls := (.resume (.choice 0), 1) :: shown
    shown.Returned .blunder ∧ shown.Unfit .blunder (.choice 1) ∧
    (shown.playback .blunder).Ignores .blunder 1 (.choice 1) ∧
    (taken.playback .blunder).suspension.accepts (.choice 0) = true ∧
    taken.Unfit .blunder (.choice 0) ∧
    (taken.playback .blunder).Ignores .blunder 1 (.choice 0) := by
  obtain ⟨s, t, hs, ho, hp, hr⟩ := reached_blunder
  intro shown taken
  have hreturned : shown.Returned .blunder := ⟨by rw [ho]; exact nofun, trivial⟩
  have hmissing : shown.Unfit .blunder (.choice 1) := by
    refine .missing rfl fun u hu => ?_
    rw [hp] at hu
    cases hu
    exact Nat.le_of_eq (congrArg List.length hs)
  have hignored := (ignores_unfit .blunder shown (.choice 1) 1).1 hmissing
  have hfailed : taken.Unfit .blunder (.choice 0) := by
    refine .failed fun hsmooth => hsmooth.1 (.conditionOutputs ⟨⟨5⟩⟩ 0) ?_
    rw [hr]
  have htaken : taken.playback .blunder = _ := congrArg Report.playback hr
  refine ⟨hreturned, (ignores_unfit .blunder shown (.choice 1) 1).2 hreturned hignored, hignored,
    ?_, hfailed, (ignores_unfit .blunder taken (.choice 0) 1).1 hfailed⟩
  rw [htaken]
  rfl

end VisualNovel
