/-
  What playback waits for, and what it has to go on with.

  * `Playback.Awaits`: what the session, the cursor and the suspension of a playback at
    rest have to do with one another;
  * `Playback.Coherent`: the same as a host sees it;
  * `Calls.coherent`: as long as no call fails, playback is coherent, and it can go on
    with every wake that it accepts.
-/
import VisualNovel.Proofs.Playback.History

namespace VisualNovel

/-- What a session waits with for what, and that it rests for good with nothing. -/
inductive Playback.Awaits : Option Session → Cursor → Suspension → Prop where
  | fade (s : Session) (node : NodeId) (path : String) (fade : Binary64) (next : Option NodeId)
    (timeout : Duration) :
    Awaits (some s) (.fading node path fade next) (.wait .timer (some timeout))
  | typing (s : Session) {l : LineCursor} (timeout : Duration)
    (typing : l.revealed < l.text.length) :
    Awaits (some s) (.line l) (.wait .advance (some timeout))
  | shown (s : Session) {l : LineCursor} (shown : l.revealed = l.text.length) :
    Awaits (some s) (.line l) (.wait .advance none)
  | choice {s : Session} (node : NodeId) {targets : List (Option NodeId)}
    (same : targets.length = s.choices.length) :
    Awaits (some s) (.choosing node targets) (.wait .choice none)
  | done (s : Session) : Awaits (some s) .none .done
  | idle : Awaits none .none .idle

/-- If a turn comes to rest, then with what is waited with for what is waited for. -/
def Turn.Awaits : Turn → Prop
  | rest s cursor suspension => Playback.Awaits s cursor suspension
  | _ => True

theorem Turn.Plain.awaits {st : Staging} {t : Turn} (h : t.Plain st LineCursor.Typed) :
    t.Awaits := by
  cases h with
  | refuses | runs => trivial
  | ends s => exact .done s
  | shows s line shown => exact .shown s (Nat.le_antisymm line shown)
  | types s line typing => exact .typing s _ typing

theorem Turn.Comes.awaits {st : Staging} {s : Session} {id : NodeId} {t : Turn}
    (h : t.Comes st s id) : t.Awaits := by
  cases h with
  | goes plain => exact plain.awaits
  | fades => exact .fade ..
  | offers same => exact .choice _ same
  | fails => trivial
  | closes => exact .idle

namespace Playback
variable {st : Staging}

theorem Answers.awaits {s t : Session} {cursor : Cursor} {w : Wake} {piece : Piece}
    {reason : WaitReason} {timeout : Option Duration} (h : Answers st t cursor w piece)
    (hs : Awaits (some s) cursor (.wait reason timeout))
    (ha : (Suspension.wait reason timeout).accepts w = true) : piece.turn.Awaits := by
  refine (h.plain (fun _ typed => typed) ?_).awaits
  rintro l rfl rfl
  cases hs with
  | typing _ _ typing => exact typing
  | shown => cases ha

/-- What is waited with is what is waited for, at all times. -/
theorem awaits_invariant (st : Staging) : Invariant st fun _ t => t.Awaits where
  new := .idle
  opens _ s _ _ := (Engine.enterScene_plain st _ s).awaits
  steps _ s id _ := (Engine.step_comes st s id).awaits
  wakes _ _ _ _ _ _ _ h ha hp := (wake?_answers hp).awaits h ha
  stops _ _ _ _ := .idle
  rests _ cursor suspension h := by
    cases h
    exact ⟨rfl, rfl⟩

end Playback

/-- A playback whose state, session and cursor are those of what it waits for. -/
structure Playback.Coherent (p : Playback) : Prop where
  state : p.state = p.suspension.state
  session : p.session = none ↔ p.suspension = .idle
  fading : (∃ node path fade next, p.cursor = .fading node path fade next) ↔
    ∃ timeout, p.suspension = .wait .timer (some timeout)
  typing : (∃ l, p.cursor = .line l ∧ l.revealed < l.text.length) ↔
    ∃ timeout, p.suspension = .wait .advance (some timeout)
  shown : (∃ l, p.cursor = .line l ∧ l.revealed = l.text.length) ↔
    p.suspension = .wait .advance none
  /-- There is a target for each choice that is shown. -/
  choosing : (∃ node targets s, p.cursor = .choosing node targets ∧ p.session = some s ∧
    targets.length = s.choices.length) ↔ p.suspension = .wait .choice none
  nothing : p.cursor = .none ↔ p.suspension = .done ∨ p.suspension = .idle

namespace Playback
variable {st : Staging} {s : Option Session} {cursor : Cursor} {suspension : Suspension}

theorem Awaits.settle_coherent (h : Awaits s cursor suspension) :
    (settle s cursor suspension).Coherent := by
  cases h with
  | fade | done | idle =>
    constructor
    · rfl
    all_goals simp [settle, Suspension.isWaiting]
  | typing _ _ typing =>
    constructor
    · rfl
    all_goals simp [settle, Suspension.isWaiting, typing, Nat.ne_of_lt typing]
  | shown _ shown =>
    constructor
    · rfl
    all_goals simp [settle, Suspension.isWaiting, shown]
  | choice node same =>
    constructor
    case state => rfl
    case choosing => exact ⟨fun _ => rfl, fun _ => ⟨node, _, _, rfl, rfl, same⟩⟩
    all_goals simp [settle, Suspension.isWaiting]

/-- A line that is typed or shown can always be advanced. -/
theorem wake?_advance (st : Staging) (s : Session) (l : LineCursor) :
    ∃ piece, wake? st s (.line l) .advance = some piece := by
  rw [wake?]
  split
  · exact ⟨_, rfl⟩
  · cases l.rest with
    | nil => exact ⟨_, rfl⟩
    | cons l' rest => exact ⟨_, rfl⟩

/-- Playback goes on with every wake that it accepts, unless it is a choice that is not
    shown. -/
theorem Awaits.goes_on (st : Staging) (h : Awaits s cursor suspension) {w : Wake}
    (ha : suspension.accepts w = true) :
    ∃ u, (settle s cursor suspension).session = some u ∧
      ((∀ i, w = .choice i → i < u.choices.length) →
        ∃ piece, wake? st u cursor w = some piece) := by
  cases h with
  | fade =>
    cases w with
    | timer => exact ⟨_, rfl, fun _ => ⟨_, rfl⟩⟩
    | advance | choice => cases ha
  | typing =>
    cases w with
    | timer => exact ⟨_, rfl, fun _ => ⟨_, rfl⟩⟩
    | advance => exact ⟨_, rfl, fun _ => wake?_advance ..⟩
    | choice => cases ha
  | shown =>
    cases w with
    | advance => exact ⟨_, rfl, fun _ => wake?_advance ..⟩
    | timer | choice => cases ha
  | choice node same =>
    cases w with
    | choice i =>
      refine ⟨_, rfl, fun hi => ?_⟩
      have hlt := same.symm ▸ hi i rfl
      exact ⟨_, by rw [wake?, List.getElem?_eq_getElem hlt, Option.map_some]⟩
    | timer | advance => cases ha
  | done | idle => cases ha

end Playback

/-- As long as no call fails, playback is coherent; and with every wake that it accepts,
    other than a choice that is not shown, it goes on. -/
theorem Calls.coherent (st : Staging) {cs : Calls} (hr : cs.Returned st) (hs : cs.Smooth st) :
    (cs.playback st).Coherent ∧
    ∀ w, (cs.playback st).suspension.accepts w = true →
      ∃ s, (cs.playback st).session = some s ∧
        ((∀ i, w = .choice i → i < s.choices.length) →
          ∃ piece, Playback.wake? st s (cs.playback st).cursor w = some piece ∧
            ∀ fuel, (cs.playback st).resume st fuel w =
              Playback.follow st (cs.playback st).suspension fuel piece) := by
  obtain ⟨s, cursor, suspension, hp, hawaits⟩ :=
    (Playback.awaits_invariant st).at_rest hr hs
  rw [hp]
  refine ⟨hawaits.settle_coherent, fun w ha => ?_⟩
  obtain ⟨u, hu, hgoes⟩ := hawaits.goes_on st ha
  refine ⟨u, hu, fun hi => ?_⟩
  obtain ⟨piece, hpiece⟩ := hgoes hi
  refine ⟨piece, hpiece, fun fuel => ?_⟩
  have hresume : (if (Playback.settle s cursor suspension).suspension.accepts w then
      (Playback.settle s cursor suspension).session.bind fun u =>
        Playback.wake? st u (Playback.settle s cursor suspension).cursor w
      else none) = some piece := by
    rw [if_pos ha, hu]
    exact hpiece
  rw [Playback.resume, hresume]

/-- A choice is waited for, and it can be taken. -/
theorem Calls.coherent_prompt :
    Returned .prompt [(.start, 2)] ∧ Smooth .prompt [(.start, 2)] ∧
    (playback .prompt [(.start, 2)]).Coherent ∧
    (playback .prompt [(.start, 2)]).suspension.accepts (.choice 0) = true ∧
    ∃ s, (playback .prompt [(.start, 2)]).session = some s ∧ s.choices = ["Go"] ∧
      ∃ piece, Playback.wake? .prompt s (playback .prompt [(.start, 2)]).cursor (.choice 0) =
        some piece := by
  obtain ⟨s, hchoices, hp, -⟩ := reached_prompt
  have ha : (playback .prompt [(.start, 2)]).suspension.accepts (.choice 0) = true := by
    rw [hp]
    rfl
  obtain ⟨hcoherent, hgoes⟩ := coherent .prompt returned_prompt smooth_prompt
  obtain ⟨t, ht, hpiece⟩ := hgoes (.choice 0) ha
  have hshown : t.choices = ["Go"] := by
    rw [hp] at ht
    cases ht
    exact hchoices
  obtain ⟨piece, hwake, -⟩ := hpiece fun i hi => by
    cases hi
    rw [hshown]
    decide
  exact ⟨returned_prompt, smooth_prompt, hcoherent, ha, t, ht, hshown, piece, hwake⟩

end VisualNovel
