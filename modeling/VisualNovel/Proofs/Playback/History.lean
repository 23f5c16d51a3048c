/-
  Histories: what a host calls from the beginning on, and what comes of it.

  * `Calls` are the calls of a host, `Calls.playback` is where they lead to and
    `Calls.beats` is what happens in them;
  * `Guarded` traces are those of which each item is allowed after those before it;
  * `Playback.StandsAt` says with which turn of playback a state was reached,
    `Report.EndsIn` with which turn a call ends;
  * `Invariant` lists what is to be shown of a property of what happened and of the turn
    that was reached, and `Invariant.holds` is the induction over calls and nodes that it
    is shown for.

  The calls of a history may run any number of nodes each.  So there are those among them
  that were cut short in the midst of a run, and what holds of all histories holds of
  playback at all times.
-/
import VisualNovel.Proofs.Playback.Act

namespace VisualNovel

/-! ## Traces -/

section
variable {α σ : Type} {next : σ → α → σ} {may : σ → α → Prop} {x : σ} {as bs : List α} {a : α}

/-- Items each of which is allowed in the state that those before it lead to. -/
def Guarded (next : σ → α → σ) (may : σ → α → Prop) : σ → List α → Prop
  | _, [] => True
  | x, a :: as => may x a ∧ Guarded next may (next x a) as

theorem Guarded.append (h : Guarded next may x as)
    (h' : Guarded next may (as.foldl next x) bs) : Guarded next may x (as ++ bs) := by
  induction as generalizing x with
  | nil => exact h'
  | cons a as ih => exact ⟨h.1, ih h.2 h'⟩

theorem Guarded.of_append (h : Guarded next may x (as ++ bs)) :
    Guarded next may x as ∧ Guarded next may (as.foldl next x) bs := by
  induction as generalizing x with
  | nil => exact ⟨trivial, h⟩
  | cons a as ih =>
    obtain ⟨has, hbs⟩ := ih h.2
    exact ⟨⟨h.1, has⟩, hbs⟩

/-- Each item is allowed after those before it. -/
theorem Guarded.allows (h : Guarded next may x (as ++ a :: bs)) :
    may (as.foldl next x) a := h.of_append.2.1

end

/-! ## Turns -/

/-- The turn that a state was reached with: playback is about to run a node, or it came to
    rest, or it failed, and then it has nothing to go on with. -/
inductive Playback.StandsAt : Playback → Turn → Prop where
  | run (s : Session) (id : NodeId) (last : Suspension) :
    StandsAt ⟨some s, .atNode id, .running, last⟩ (.run s id)
  | rest (s : Option Session) (cursor : Cursor) (suspension : Suspension) :
    StandsAt (settle s cursor suspension) (.rest s cursor suspension)
  | fail (s : Session) (e : PlaybackError) {cursor : Cursor} (last : Suspension)
    (idle : cursor = .none ∨ ∃ id, cursor = .atNode id) :
    StandsAt ⟨some s, cursor, .running, last⟩ (.fail s e)

/-- The outcome of a call that ends with a turn. -/
def Turn.outcome : Turn → Outcome
  | run .. => .unfinished
  | rest _ _ suspension => .suspended suspension
  | fail _ e => .failed e

/-- A call that ends with a turn. -/
structure Report.EndsIn (r : Report) (t : Turn) : Prop where
  stands : r.playback.StandsAt t
  outcome : r.outcome = t.outcome

namespace Playback
variable {st : Staging}

/-! ## Within a call -/

/-- What every node keeps, a run of nodes keeps. -/
theorem run_endsIn {I : List Beat → Turn → Prop}
    (hstep : ∀ bs s id, I bs (.run s id) →
      I (bs ++ (Engine.step st s id).beats) (Engine.step st s id).turn)
    (last : Suspension) (fuel : Nat) {bs : List Beat} {s : Session} {id : NodeId}
    (h : I bs (.run s id)) :
    ∃ t, (run st last fuel s id).EndsIn t ∧ I (bs ++ (run st last fuel s id).beats) t := by
  induction fuel generalizing bs s id with
  | zero => exact ⟨.run s id, ⟨.run s id last, rfl⟩, by simpa [run] using h⟩
  | succ fuel ih =>
    have hnext := hstep bs s id h
    rw [run]
    split
    · rename_i s' id' ht
      rw [ht] at hnext
      obtain ⟨t, hends, hI⟩ := ih hnext
      refine ⟨t, ⟨hends.stands, hends.outcome⟩, ?_⟩
      simpa [Report.after] using hI
    · rename_i s' cursor suspension ht
      rw [ht] at hnext
      exact ⟨_, ⟨.rest s' cursor suspension, rfl⟩, hnext⟩
    · rename_i s' e ht
      rw [ht] at hnext
      exact ⟨_, ⟨.fail s' e last (.inr ⟨id, rfl⟩), rfl⟩, hnext⟩

/-- What every node keeps, playback keeps that goes on from a piece of it. -/
theorem follow_endsIn {I : List Beat → Turn → Prop}
    (hstep : ∀ bs s id, I bs (.run s id) →
      I (bs ++ (Engine.step st s id).beats) (Engine.step st s id).turn)
    (last : Suspension) (fuel : Nat) {bs : List Beat} {piece : Piece}
    (h : I (bs ++ piece.beats) piece.turn) :
    ∃ t, (follow st last fuel piece).EndsIn t ∧
      I (bs ++ (follow st last fuel piece).beats) t := by
  unfold follow
  split
  · rename_i s id ht
    rw [ht] at h
    obtain ⟨t, hends, hI⟩ := run_endsIn hstep last fuel h
    refine ⟨t, ⟨hends.stands, hends.outcome⟩, ?_⟩
    simpa [Report.after] using hI
  · rename_i s cursor suspension ht
    rw [ht] at h
    exact ⟨_, ⟨.rest s cursor suspension, rfl⟩, h⟩
  · rename_i s e ht
    rw [ht] at h
    exact ⟨_, ⟨.fail s e last (.inl rfl), rfl⟩, h⟩

/-- A wait changes only what the session knows of its entrances. -/
theorem settle_session {s t : Session} {cursor : Cursor} {suspension : Suspension}
    (h : (settle (some s) cursor suspension).session = some t) : t = s ∨ t = s.noteWait := by
  unfold settle at h
  cases hw : suspension.isWaiting with
  | false =>
    rw [hw] at h
    cases h
    exact .inl rfl
  | true =>
    rw [hw] at h
    cases h
    exact .inr rfl

theorem StandsAt.new : StandsAt {} (.rest none .none .idle) := .rest none .none .idle

theorem StandsAt.eq_settle {p : Playback} {s : Option Session} {cursor : Cursor}
    {suspension : Suspension} (h : p.StandsAt (.rest s cursor suspension)) :
    p = settle s cursor suspension := by
  cases h
  rfl

/-- A wait goes on with what a wake makes of it. -/
theorem resume_settle {s : Session} {cursor : Cursor} {reason : WaitReason}
    {timeout : Option Duration} {w : Wake} {piece : Piece}
    (ha : (Suspension.wait reason timeout).accepts w = true)
    (hp : wake? st s.noteWait cursor w = some piece) (fuel : Nat) :
    (settle (some s) cursor (.wait reason timeout)).resume st fuel w =
      follow st (.wait reason timeout) fuel piece := by
  simp [resume, settle, Suspension.isWaiting, ha, hp]

/-- A wake that means something finds a wait, and playback goes on from what it makes of
    it. -/
theorem StandsAt.resume_cases (st : Staging) {p : Playback} {t : Turn} (h : p.StandsAt t)
    (w : Wake) :
    (∀ fuel, p.resume st fuel w = ⟨p, [], .suspended p.suspension⟩) ∨
    ∃ s cursor reason timeout piece, t = .rest (some s) cursor (.wait reason timeout) ∧
      (Suspension.wait reason timeout).accepts w = true ∧
      wake? st s.noteWait cursor w = some piece ∧
      ∀ fuel, p.resume st fuel w = follow st (.wait reason timeout) fuel piece := by
  rcases Playback.resume_cases st p w with hp | ⟨s, piece, hs, haccepts, hpiece, hp⟩
  · exact .inl hp
  refine .inr ?_
  cases h with
  | run s' id => cases hpiece
  | fail s' e last idle =>
    rcases idle with rfl | ⟨id, rfl⟩
    · cases hpiece
    · cases hpiece
  | rest s' cursor suspension =>
    cases suspension with
    | done => cases haccepts
    | idle => cases haccepts
    | wait reason timeout =>
      obtain ⟨u, rfl, rfl⟩ := Option.map_eq_some_iff.1 hs
      exact ⟨u, cursor, reason, timeout, piece, rfl, haccepts, hpiece, hp⟩

end Playback

/-! ## From call to call -/

/-- What a host calls from the beginning on, the latest call first, each with the number of
    nodes that it may run. -/
abbrev Calls := List (Call × Nat)

namespace Calls
variable (st : Staging)

/-- Where calls lead to. -/
def playback : Calls → Playback
  | [] => {}
  | (c, fuel) :: cs => ((playback cs).call st fuel c).playback

/-- What the latest of some calls comes to. -/
def report (c : Call) (fuel : Nat) (cs : Calls) : Report := (cs.playback st).call st fuel c

/-- All that happens in calls. -/
def beats : Calls → List Beat
  | [] => []
  | (c, fuel) :: cs => beats cs ++ (report st c fuel cs).beats

/-- No call failed since the latest start or stop. -/
def Smooth : Calls → Prop
  | [] => True
  | (c, fuel) :: cs => (∀ e, (report st c fuel cs).outcome ≠ .failed e) ∧
    ∀ w, c = .resume w → Smooth cs

/-- Every call came to its end. -/
def Returned : Calls → Prop
  | [] => True
  | (c, fuel) :: cs => (report st c fuel cs).outcome ≠ .unfinished ∧ Returned cs

end Calls

/-- Whether there is a session after a turn. -/
def Turn.isOpen : Turn → Bool
  | rest none .. => false
  | _ => true

/-- A property of what happened and of the turn that was reached, which nothing breaks that
    playback can do. -/
structure Invariant (st : Staging) (I : List Beat → Turn → Prop) : Prop where
  new : I [] (.rest none .none .idle)
  /-- A session is opened. -/
  opens : ∀ bs s, I bs (.rest none .none .idle) →
    Session.open? st.project st.opening = some s →
    I (bs ++ (Engine.enterScene s).beats) (Engine.enterScene s).turn
  /-- A node is run. -/
  steps : ∀ bs s id, I bs (.run s id) →
    I (bs ++ (Engine.step st s id).beats) (Engine.step st s id).turn
  /-- A wait ends. -/
  wakes : ∀ bs s cursor reason timeout w piece,
    I bs (.rest (some s) cursor (.wait reason timeout)) →
    (Suspension.wait reason timeout).accepts w = true →
    Playback.wake? st s.noteWait cursor w = some piece → I (bs ++ piece.beats) piece.turn
  /-- A session is stopped. -/
  stops : ∀ bs t, I bs t → t.isOpen = true →
    I (bs ++ [.told .sessionStopped]) (.rest none .none .idle)
  /-- A session that ended leaves nothing behind. -/
  rests : ∀ bs cursor suspension, I bs (.rest none cursor suspension) →
    cursor = .none ∧ suspension = .idle

namespace Invariant
variable {st : Staging} {I : List Beat → Turn → Prop} (hI : Invariant st I) {bs : List Beat}
  {p : Playback} {t : Turn}
include hI

theorem and {J : List Beat → Turn → Prop} (hJ : Invariant st J) :
    Invariant st fun bs t => I bs t ∧ J bs t where
  new := ⟨hI.new, hJ.new⟩
  opens bs s h hs := ⟨hI.opens bs s h.1 hs, hJ.opens bs s h.2 hs⟩
  steps bs s id h := ⟨hI.steps bs s id h.1, hJ.steps bs s id h.2⟩
  wakes bs s cursor reason timeout w piece h ha hp :=
    ⟨hI.wakes bs s cursor reason timeout w piece h.1 ha hp,
      hJ.wakes bs s cursor reason timeout w piece h.2 ha hp⟩
  stops bs t h ht := ⟨hI.stops bs t h.1 ht, hJ.stops bs t h.2 ht⟩
  rests bs cursor suspension h := hI.rests bs cursor suspension h.1

/-- A stop leads to a state without a session. -/
theorem stop (h : I bs t) (hp : p.StandsAt t) :
    p.stop.1 = {} ∧ I (bs ++ p.stop.2) (.rest none .none .idle) := by
  have hopen (hs : p.session.isSome = true) (ht : t.isOpen = true) :
      p.stop.1 = {} ∧ I (bs ++ p.stop.2) (.rest none .none .idle) := by
    rw [Playback.stop, if_pos hs]
    exact ⟨rfl, hI.stops bs t h ht⟩
  cases hp with
  | run s id last => exact hopen rfl rfl
  | fail s e last idle => exact hopen rfl rfl
  | rest s cursor suspension =>
    cases s with
    | some s => exact hopen (by cases suspension <;> rfl) rfl
    | none =>
      obtain ⟨rfl, rfl⟩ := hI.rests bs cursor suspension h
      exact ⟨rfl, by simpa [Playback.stop, Playback.settle, Suspension.isWaiting] using h⟩

/-- A call keeps the property, and it ends with a turn, unless it leaves playback where
    it was or finds no scene to open. -/
theorem call (h : I bs t) (hp : p.StandsAt t) (c : Call) (fuel : Nat) :
    ∃ u, (p.call st fuel c).playback.StandsAt u ∧ I (bs ++ (p.call st fuel c).beats) u ∧
      ((p.call st fuel c).EndsIn u ∨
        (∃ w, c = .resume w) ∧ (p.call st fuel c).outcome = .suspended p.suspension ∧ u = t ∨
        (p.call st fuel c).outcome = .failed (.sceneNotFound st.opening) ∧
          u = .rest none .none .idle) := by
  obtain ⟨hnew, hstopped⟩ := hI.stop h hp
  cases c with
  | stop =>
    refine ⟨.rest none .none .idle, ?_, hstopped, .inl ⟨?_, ?_⟩⟩
    all_goals simp only [Playback.call, hnew]
    · exact .new
    · exact .new
    · rfl
  | start =>
    rw [Playback.call]
    rcases Playback.start_cases st p with ⟨-, hstart⟩ | ⟨s, hs, hstart⟩
    · rw [hstart, hnew]
      exact ⟨_, .new, hstopped, .inr (.inr ⟨rfl, rfl⟩)⟩
    · rw [hstart]
      obtain ⟨u, hends, hu⟩ := Playback.follow_endsIn hI.steps p.stop.1.suspension fuel
        (hI.opens _ s hstopped hs)
      refine ⟨u, hends.stands, ?_, .inl ⟨hends.stands, hends.outcome⟩⟩
      simpa [Report.after] using hu
  | resume w =>
    rw [Playback.call]
    rcases hp.resume_cases st w with
      hresume | ⟨s, cursor, reason, timeout, piece, rfl, haccepts, hpiece, hresume⟩
    · rw [hresume]
      exact ⟨t, hp, by simpa using h, .inr (.inl ⟨⟨w, rfl⟩, rfl, rfl⟩)⟩
    · rw [hresume]
      obtain ⟨u, hends, hu⟩ := Playback.follow_endsIn hI.steps (.wait reason timeout) fuel
        (hI.wakes bs s cursor reason timeout w piece h haccepts hpiece)
      exact ⟨u, hends.stands, hu, .inl hends⟩

/-- The property holds after all calls; and playback is in the midst of a call, or failed,
    only if a call was cut short, or failed since the latest start or stop. -/
theorem holds (cs : Calls) :
    ∃ t, (cs.playback st).StandsAt t ∧ I (cs.beats st) t ∧
      (cs.Returned st → t.outcome ≠ .unfinished) ∧
      (cs.Smooth st → ∀ e, t.outcome ≠ .failed e) := by
  induction cs with
  | nil => exact ⟨_, .new, hI.new, by simp [Turn.outcome], by simp [Turn.outcome]⟩
  | cons call cs ih =>
    obtain ⟨c, fuel⟩ := call
    obtain ⟨t, hp, h, hreturned, hsmooth⟩ := ih
    obtain ⟨u, hu, hIu, hends⟩ := hI.call h hp c fuel
    refine ⟨u, hu, hIu, ?_, ?_⟩
    · rintro ⟨hr, hrs⟩
      rcases hends with hends | ⟨-, -, rfl⟩ | ⟨-, rfl⟩
      · exact hends.outcome ▸ hr
      · exact hreturned hrs
      · simp [Turn.outcome]
    · rintro ⟨hs, hss⟩
      rcases hends with hends | ⟨⟨w, hw⟩, -, rfl⟩ | ⟨he, rfl⟩
      · exact hends.outcome ▸ hs
      · exact hsmooth (hss w hw)
      · exact absurd he (hs _)

/-- A call that fails finds no scene to open, or it fails where the property holds. -/
theorem fails (cs : Calls) (c : Call) (fuel : Nat) {e : PlaybackError}
    (he : (cs.report st c fuel).outcome = .failed e) :
    e = .sceneNotFound st.opening ∨ ∃ s, I (Calls.beats st ((c, fuel) :: cs)) (.fail s e) := by
  obtain ⟨t, hp, h, -⟩ := hI.holds cs
  obtain ⟨u, -, hIu, hends⟩ := hI.call h hp c fuel
  unfold Calls.report at he
  rcases hends with hends | ⟨-, houtcome, -⟩ | ⟨houtcome, -⟩
  · rw [hends.outcome] at he
    cases u with
    | fail s e' =>
      cases he
      exact .inr ⟨s, hIu⟩
    | run | rest => cases he
  · rw [houtcome] at he
    cases he
  · rw [houtcome] at he
    cases he
    exact .inl rfl

/-- After calls that returned, of which none failed since the latest start or stop, playback
    is at rest. -/
theorem at_rest {cs : Calls} (hr : cs.Returned st) (hs : cs.Smooth st) :
    ∃ s cursor suspension, cs.playback st = Playback.settle s cursor suspension ∧
      I (cs.beats st) (.rest s cursor suspension) := by
  obtain ⟨t, hp, h, hreturned, hsmooth⟩ := hI.holds cs
  generalize cs.playback st = p at hp ⊢
  cases hp with
  | run => exact absurd rfl (hreturned hr)
  | fail s e => exact absurd rfl (hsmooth hs e)
  | rest s cursor suspension => exact ⟨s, cursor, suspension, rfl, h⟩

end Invariant

/-! ## A prompt -/

/-- A scene in which the player is asked to take the only choice, which leads nowhere. -/
def Scene.prompt : Scene where
  name := "A"
  nodes := [
    { id := ⟨⟨0⟩⟩
      content := .state .enter
      outputs := [{ id := ⟨⟨1⟩⟩, flow := .output, connected := true }] },
    { id := ⟨⟨2⟩⟩
      content := .choice [{ text := "Go" }]
      inputs := [{ id := ⟨⟨3⟩⟩, flow := .input, connected := true }]
      outputs := [{ id := ⟨⟨4⟩⟩, flow := .output }] }]
  connections := [⟨⟨⟨1⟩⟩, ⟨⟨3⟩⟩⟩]

/-- The story of that scene. -/
def Staging.prompt : Staging where
  project := { name := "Prompt", scenes := [.prompt] }
  opening := "A"
  config := { playerName := "", typewriterDelay := .ofMillis 0 }

theorem ConnectionIndex.prompt :
    let index := ofScene .prompt
    ∃ a b, index.node? .prompt ⟨⟨0⟩⟩ = some a ∧ index.node? .prompt ⟨⟨2⟩⟩ = some b ∧
      a.id = ⟨⟨0⟩⟩ ∧ a.content = .state .enter ∧ index.successor? a = some ⟨⟨2⟩⟩ ∧
      b.id = ⟨⟨2⟩⟩ ∧ b.content = .choice [{ text := "Go" }] ∧
      b.outputs = [{ id := ⟨⟨4⟩⟩, flow := .output }] ∧ index.follow? ⟨⟨4⟩⟩ = none := by
  refine ⟨_, _, node?_ofScene _ _, node?_ofScene _ _, rfl, rfl, ?_, rfl, rfl, rfl, ?_⟩
  · simp only [successor?, first?, leaving_ofScene, owner?_ofScene]
    rfl
  · rw [follow?_ofScene]
    rfl

/-- The gate is run, which leads to the choice, and the choice is shown. -/
theorem Playback.prompt_steps :
    ∃ s t : Session, s.scene = .prompt ∧ s.visited = [⟨⟨0⟩⟩] ∧
      (∀ fuel, call .prompt fuel {} .start =
        (run .prompt .idle fuel s ⟨⟨0⟩⟩).after [.entered "A" []]) ∧
      Engine.step .prompt s ⟨⟨0⟩⟩ = ⟨[.ran ⟨⟨0⟩⟩], .run t ⟨⟨2⟩⟩⟩ ∧
      t.scene = .prompt ∧ t.visited = [⟨⟨0⟩⟩, ⟨⟨2⟩⟩] ∧
      Engine.step .prompt t ⟨⟨2⟩⟩ = ⟨[.ran ⟨⟨2⟩⟩, .told (.showChoices ["Go"])],
        .rest (some { t with choices := ["Go"] }) (.choosing ⟨⟨2⟩⟩ [none])
          (.wait .choice none)⟩ := by
  obtain ⟨a, b, ha, hb, hai, hac, hab, hbi, hbc, hbo, hbf⟩ := ConnectionIndex.prompt
  let s : Session :=
    { scene := .prompt, index := .ofScene .prompt, index_eq := rfl, boards := []
      visited := [⟨⟨0⟩⟩], entries := [("A", [])] }
  let t : Session := { s with visited := [⟨⟨0⟩⟩, ⟨⟨2⟩⟩] }
  refine ⟨s, t, rfl, rfl, fun _ => rfl, ?_, rfl, rfl, ?_⟩
  · rw [Engine.step_eq (s := s) ha, Engine.perform, hac]
    dsimp only
    rw [hab, hai]
    rfl
  · rw [Engine.step_eq (s := t) hb, Engine.perform, hbc]
    dsimp only
    have htargets : Engine.choiceTargets t b [{ text := "Go" }] = .ok [none] := by
      simp only [Engine.choiceTargets, Node.output?, hbo]
      exact congrArg (fun target => Except.ok [target]) hbf
    rw [Engine.choose, hbo, htargets, hbi]
    rfl

/-- The choice is shown. -/
theorem Playback.start_prompt :
    ∃ s, s.choices = ["Go"] ∧ call .prompt 2 {} .start =
      ⟨settle (some s) (.choosing ⟨⟨2⟩⟩ [none]) (.wait .choice none),
        [.entered "A" [], .ran ⟨⟨0⟩⟩, .ran ⟨⟨2⟩⟩, .told (.showChoices ["Go"])],
        .suspended (.wait .choice none)⟩ := by
  obtain ⟨s, t, -, -, hstart, henter, -, -, hchoose⟩ := prompt_steps
  refine ⟨{ t with choices := ["Go"] }, rfl, ?_⟩
  rw [hstart, run_of_step henter, run, hchoose]
  rfl

namespace Calls

/-- What a start comes to: the choice is waited for. -/
theorem reached_prompt :
    ∃ s, s.choices = ["Go"] ∧
      playback .prompt [(.start, 2)] =
        .settle (some s) (.choosing ⟨⟨2⟩⟩ [none]) (.wait .choice none) ∧
      beats .prompt [(.start, 2)] =
        [.entered "A" [], .ran ⟨⟨0⟩⟩, .ran ⟨⟨2⟩⟩, .told (.showChoices ["Go"])] := by
  obtain ⟨s, hchoices, hstart⟩ := Playback.start_prompt
  exact ⟨s, hchoices, congrArg Report.playback hstart, congrArg Report.beats hstart⟩

theorem outcome_prompt :
    (report .prompt .start 2 []).outcome = .suspended (.wait .choice none) := by
  obtain ⟨s, -, hstart⟩ := Playback.start_prompt
  exact congrArg Report.outcome hstart

theorem returned_prompt : Returned .prompt [(.start, 2)] := by
  refine ⟨?_, trivial⟩
  rw [outcome_prompt]
  exact nofun

theorem smooth_prompt : Smooth .prompt [(.start, 2)] := by
  refine ⟨fun e => ?_, nofun⟩
  rw [outcome_prompt]
  exact nofun

end Calls

end VisualNovel
