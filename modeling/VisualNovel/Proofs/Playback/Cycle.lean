/-
  Which cycles are caught.  A session records what is entered between waits, and refuses
  an entry that agrees with what it recorded.

  * `Report.attempts`: the scenes that are entered in a call, and the one that is
    refused;
  * `Reached`: the states that calls lead to, each with what was entered since the last
    wait;
  * `Playback.call_accounts`: the records of a session are what was entered;
  * `Playback.refused_iff`: the second of two attempts that are the same is refused
    exactly if no register holds what is no number.
-/
import VisualNovel.Proofs.Board.Agreement
import VisualNovel.Proofs.Playback.Step

namespace VisualNovel

/-- An entry with boards that agree with those of an earlier entry of the scene. -/
def Entrance.Repeats (d e : Entrance) : Prop := d.1 = e.1 ∧ Boards.agree d.2 e.2 = true

/-- Entrances none of which repeats another. -/
def Distinct (es : List Entrance) : Prop := es.Pairwise fun d e => ¬Entrance.Repeats d e

theorem Entrance.repeats_self {e : Entrance} : e.Repeats e ↔ e.2.NaNFree := by
  simp [Repeats, Boards.agree_self]

theorem Session.isRepeated_iff {s : Session} :
    s.isRepeated = true ↔ ∃ d ∈ s.entries, Entrance.Repeats d (s.scene.name, s.boards) := by
  simp [isRepeated, Entrance.Repeats]

/-- The entry that is refused in a call. -/
def Report.refused? (r : Report) : Option Entrance :=
  match r.outcome, r.playback.session with
  | .failed (.noProgress _), some s => some (s.scene.name, s.boards)
  | _, _ => none

theorem Report.outcome_of_refused? {r : Report} {e : Entrance} (h : r.refused? = some e) :
    ∃ scene, r.outcome = .failed (.noProgress scene) := by
  unfold refused? at h
  split at h
  · rename_i scene _ ho _
    exact ⟨scene, ho⟩
  · cases h

/-- The scenes that are to be entered in a call: those that are entered, in order, and
    the one that is refused. -/
def Report.attempts (r : Report) : List Entrance := r.entrances ++ r.refused?.toList

/-- Whether the host is waited for. -/
def EngineState.isSuspended : EngineState → Bool
  | suspended _ => true
  | _ => false

/-- What was entered since the last wait, after a call. -/
def Report.stretch (es : List Entrance) (r : Report) : List Entrance :=
  if r.playback.state.isSuspended then [] else es ++ r.entrances

/-! ## Accounts -/

/-- The session of a turn has recorded some entrances, and it fails for want of progress
    only if they would be repeated. -/
inductive Turn.Accounts (es : List Entrance) : Turn → Prop where
  | run {s : Session} {id : NodeId} (record : s.entries = es) : Accounts es (.run s id)
  | rest {s : Option Session} {cursor : Cursor} {suspension : Suspension}
    (record : ∀ t ∈ s, t.entries = es) : Accounts es (.rest s cursor suspension)
  | fail {s : Session} {e : PlaybackError} (record : s.entries = es)
    (refused : ∀ scene, e = .noProgress scene →
      scene = s.scene.name ∧ ∃ d ∈ es, Entrance.Repeats d (s.scene.name, s.boards)) :
    Accounts es (.fail s e)

/-- A piece of playback after some entrances. -/
structure Piece.Accounts (es : List Entrance) (p : Piece) : Prop where
  distinct : Distinct (es ++ p.entrances)
  turn : p.turn.Accounts (es ++ p.entrances)

/-- A call after some entrances: the session records what is entered from one wait to the
    next, and an entry is refused only if it would be repeated. -/
structure Report.Accounts (es : List Entrance) (r : Report) : Prop where
  distinct : Distinct (es ++ r.entrances)
  record : ∀ s, r.playback.session = some s → s.entries = r.stretch es
  refused : ∀ scene, r.outcome = .failed (.noProgress scene) →
    ∃ e, r.refused? = some e ∧ e.1 = scene ∧ ∃ d ∈ es ++ r.entrances, Entrance.Repeats d e

theorem Piece.Stays.accounts {leads : NodeId → Prop} {s : Session} {p : Piece}
    (h : p.Stays leads s) (hd : Distinct s.entries) : p.Accounts s.entries := by
  obtain ⟨entrances, turn⟩ := h
  refine ⟨by rwa [entrances, List.append_nil], ?_⟩
  rw [entrances, List.append_nil]
  revert turn
  generalize p.turn = turn
  intro h
  cases h with
  | run kept => exact .run kept.entries
  | rest kept => exact .rest fun u hu => (kept u hu).entries
  | fail kept reason => exact .fail kept.entries fun scene he => absurd he (reason scene)

theorem Piece.Accounts.after {es : List Entrance} {p : Piece} (h : p.Accounts es)
    {told : List Beat} (ht : Beat.entrances told = []) : (p.after told).Accounts es := by
  have hentrances : (p.after told).entrances = p.entrances := by simp [ht]
  exact ⟨hentrances ▸ h.distinct, hentrances ▸ h.turn⟩

namespace Engine

theorem enterScene_accounts {s : Session} (hd : Distinct s.entries) :
    (enterScene s).Accounts s.entries := by
  rcases enterScene_cases s with ⟨hr, hfail⟩ | ⟨hr, hentered, hturn⟩
  · rw [hfail]
    refine ⟨by simpa [Piece.entrances, Beat.entrances] using hd, .fail ?_ ?_⟩
    · simp [Piece.entrances, Beat.entrances]
    · rintro scene ⟨⟩
      exact ⟨rfl, by simpa [Piece.entrances, Beat.entrances] using Session.isRepeated_iff.1 hr⟩
  · have hnew : ∀ d ∈ s.entries, ¬Entrance.Repeats d (s.scene.name, s.boards) := by
      intro d hd hrep
      exact Bool.eq_false_iff.1 hr (Session.isRepeated_iff.2 ⟨d, hd, hrep⟩)
    refine ⟨?_, ?_⟩
    · rw [hentered]
      refine List.pairwise_append.2 ⟨hd, List.pairwise_singleton _ _, fun d hd e he => ?_⟩
      exact List.mem_singleton.1 he ▸ hnew d hd
    · rw [hentered]
      rcases hturn with hrest | ⟨n, -, hrun⟩
      · rw [hrest]
        exact .rest fun u hu => Option.some.inj hu ▸ rfl
      · rw [hrun]
        exact .run rfl

theorem step_accounts (st : Staging) {s : Session} (id : NodeId) (hd : Distinct s.entries) :
    (step st s id).Accounts s.entries := by
  rcases step_cases st s id with ⟨boards, -, hstay⟩ | ⟨t, told, ht, htold, hstep⟩
  · exact hstay.accounts hd
  · rw [hstep, ← ht.entries]
    exact (enterScene_accounts (ht.entries ▸ hd)).after htold

end Engine

theorem Report.Accounts.after {es : List Entrance} {beats : List Beat} {r : Report}
    (h : r.Accounts (es ++ Beat.entrances beats)) : (r.after beats).Accounts es := by
  have hentrances : es ++ (r.after beats).entrances =
      es ++ Beat.entrances beats ++ r.entrances := by simp
  have hstretch : (r.after beats).stretch es = r.stretch (es ++ Beat.entrances beats) := by
    rw [Report.stretch, hentrances]
    rfl
  exact ⟨hentrances ▸ h.distinct, hstretch ▸ h.record, hentrances ▸ h.refused⟩

namespace Playback
variable {st : Staging} {last : Suspension}

theorem settle_accounts {es : List Entrance} {p : Piece} (h : p.Accounts es)
    {s : Option Session} {cursor : Cursor} {suspension : Suspension}
    (ht : p.turn = .rest s cursor suspension) :
    Report.Accounts es ⟨settle s cursor suspension, p.beats, .suspended suspension⟩ := by
  refine ⟨h.distinct, fun u hu => ?_, nofun⟩
  have hturn := h.turn
  rw [ht] at hturn
  cases hturn with
  | rest record =>
    cases suspension with
    | wait reason timeout =>
      obtain ⟨t, -, rfl⟩ := Option.map_eq_some_iff.1 hu
      rfl
    | done | idle => exact record u hu

theorem fail_accounts {es : List Entrance} {p : Piece} (h : p.Accounts es)
    {s : Session} {e : PlaybackError} (ht : p.turn = .fail s e) (cursor : Cursor) :
    Report.Accounts es ⟨⟨s, cursor, .running, last⟩, p.beats, .failed e⟩ := by
  have hturn := h.turn
  rw [ht] at hturn
  cases hturn with
  | fail record refused =>
    refine ⟨h.distinct, fun t hst => ?_, fun scene he => ?_⟩
    · obtain rfl := Option.some.inj hst
      exact record
    · obtain rfl := Outcome.failed.inj he
      obtain ⟨rfl, d, hd, hrep⟩ := refused scene rfl
      exact ⟨_, rfl, rfl, d, hd, hrep⟩

/-- What holds after a piece of playback holds after the run that goes on from it. -/
theorem after_accounts {es : List Entrance} {p : Piece} (h : p.Accounts es) {s : Session}
    {id : NodeId} (ht : p.turn = .run s id) {r : Report}
    (hr : Distinct s.entries → r.Accounts s.entries) : (r.after p.beats).Accounts es := by
  have hturn := h.turn
  rw [ht] at hturn
  cases hturn with
  | run record =>
    refine Report.Accounts.after (record ▸ hr ?_)
    exact record ▸ h.distinct

theorem run_accounts {s : Session} (hd : Distinct s.entries) (fuel : Nat) (id : NodeId) :
    (run st last fuel s id).Accounts s.entries := by
  induction fuel generalizing s id with
  | zero =>
    have hnone : s.entries ++ Report.entrances ⟨⟨s, .atNode id, .running, last⟩, [], .unfinished⟩ =
        s.entries := List.append_nil _
    refine ⟨hnone.symm ▸ hd, fun t ht => ?_, nofun⟩
    obtain rfl := Option.some.inj ht
    exact hnone.symm
  | succ fuel ih =>
    have h := Engine.step_accounts st id hd
    rw [run]
    split
    · rename_i ht
      exact after_accounts h ht fun hd' => ih hd' _
    · rename_i ht
      exact settle_accounts h ht
    · rename_i ht
      exact fail_accounts h ht _

theorem follow_accounts {es : List Entrance} {p : Piece} (h : p.Accounts es) (fuel : Nat) :
    (follow st last fuel p).Accounts es := by
  unfold follow
  split
  · rename_i ht
    exact after_accounts h ht fun hd' => run_accounts hd' fuel _
  · rename_i ht
    exact settle_accounts h ht
  · rename_i ht
    exact fail_accounts h ht _

end Playback

/-! ## Calls -/

/-- What was entered since the last wait, as far as a call goes on from there. -/
def Call.stretch (es : List Entrance) : Call → List Entrance
  | .resume _ => es
  | .start | .stop => []

/-- The states that calls lead to from a new playback, each with what was entered by the
    session since its last wait. -/
inductive Reached (st : Staging) : Playback → List Entrance → Prop where
  | new : Reached st {} []
  | call {p : Playback} {es : List Entrance} (h : Reached st p es) (fuel : Nat) (c : Call) :
    Reached st (p.call st fuel c).playback ((p.call st fuel c).stretch (c.stretch es))

/-- A state whose session records what was entered. -/
structure Playback.Recorded (p : Playback) (es : List Entrance) : Prop where
  distinct : Distinct es
  record : ∀ s, p.session = some s → s.entries = es
  waits : p.state.isSuspended = true → es = []

namespace Playback
variable {st : Staging}

/-- A state that stays as it is, in a call without entrances. -/
theorem Recorded.accounts {p : Playback} {es : List Entrance} (h : p.Recorded es)
    {beats : List Beat} (hb : Beat.entrances beats = []) {outcome : Outcome}
    (ho : ∀ scene, outcome ≠ .failed (.noProgress scene)) :
    Report.Accounts es ⟨p, beats, outcome⟩ := by
  have hentrances : es ++ Report.entrances ⟨p, beats, outcome⟩ = es := by
    rw [Report.entrances, hb, List.append_nil]
  refine ⟨hentrances.symm ▸ h.distinct, fun s hs => ?_, fun scene he => absurd he (ho scene)⟩
  rw [Report.stretch, hentrances, h.record s hs]
  split
  · rename_i hw
    exact h.waits hw
  · rfl

theorem stop_recorded (p : Playback) : p.stop.1.Recorded [] := by
  unfold stop
  cases hs : p.session with
  | none => exact ⟨.nil, fun s h => by simp [hs] at h, fun _ => rfl⟩
  | some s => exact ⟨.nil, fun s h => by simp [settle, Suspension.isWaiting] at h, fun _ => rfl⟩

theorem entrances_stop (p : Playback) : Beat.entrances p.stop.2 = [] := by
  unfold stop
  split <;> rfl

/-- The records of a session are what was entered since its last wait. -/
theorem call_accounts (st : Staging) {p : Playback} {es : List Entrance} (h : p.Recorded es)
    (fuel : Nat) (c : Call) : (p.call st fuel c).Accounts (c.stretch es) := by
  cases c with
  | start =>
    rw [call]
    rcases start_cases st p with ⟨-, hp⟩ | ⟨s, hs, hp⟩
    · rw [hp]
      exact p.stop_recorded.accounts p.entrances_stop (by simp)
    · rw [hp]
      have hnone : s.entries = [] := by
        obtain ⟨scene, -, rfl⟩ := Option.map_eq_some_iff.1 hs
        rfl
      have hacc := Engine.enterScene_accounts (s := s) (hnone ▸ .nil)
      refine Report.Accounts.after ?_
      rw [entrances_stop]
      exact follow_accounts (hnone ▸ hacc) fuel
  | resume w =>
    rw [call]
    rcases resume_cases st p w with hp | ⟨s, piece, hs, -, hw, hp⟩
    · rw [hp]
      exact h.accounts rfl (by simp)
    · rw [hp, Call.stretch, ← h.record s hs]
      exact follow_accounts ((wake?_stays hw).accounts (h.record s hs ▸ h.distinct)) fuel
  | stop => exact p.stop_recorded.accounts p.entrances_stop (by simp)

end Playback

theorem Reached.recorded {st : Staging} {p : Playback} {es : List Entrance}
    (h : Reached st p es) : p.Recorded es := by
  induction h with
  | new => exact ⟨.nil, nofun, fun _ => rfl⟩
  | call _ fuel c ih =>
    have hr := Playback.call_accounts st ih fuel c
    refine ⟨?_, hr.record, fun hw => if_pos hw⟩
    rw [Report.stretch]
    split
    · exact .nil
    · exact hr.distinct

/-- An account in which an attempt is made that was made before: it is the one that is
    refused exactly if its boards agree with themselves. -/
theorem Report.Accounts.caught_iff {es : List Entrance} {r : Report} (h : r.Accounts es)
    {e : Entrance} {i j : Nat} (hij : i < j) (hi : (es ++ r.attempts)[i]? = some e)
    (hj : (es ++ r.attempts)[j]? = some e) :
    (r.outcome = .failed (.noProgress e.1) ∧ (es ++ r.entrances).length = j) ↔ e.2.NaNFree := by
  obtain ⟨hdistinct, -, hrefused⟩ := h
  rw [attempts, ← List.append_assoc] at hi hj
  generalize es ++ r.entrances = all at *
  rcases Nat.lt_or_ge j all.length with hlt | hge
  · -- both attempts succeeded, so they do not agree
    rw [List.getElem?_append_left (by omega)] at hi hj
    obtain ⟨hi', hei⟩ := List.getElem?_eq_some_iff.1 hi
    obtain ⟨hj', hej⟩ := List.getElem?_eq_some_iff.1 hj
    have hne : ¬Entrance.Repeats e e := by
      have := List.pairwise_iff_getElem.1 hdistinct i j hi' hj' hij
      rwa [hei, hej] at this
    constructor
    · rintro ⟨-, rfl⟩
      exact absurd hlt (Nat.lt_irrefl _)
    · exact fun hfree => absurd (Entrance.repeats_self.2 hfree) hne
  · -- the second attempt is the one that is refused
    rw [List.getElem?_append_right hge] at hj
    obtain ⟨hrefusal, rfl⟩ : r.refused? = some e ∧ j = all.length := by
      cases hr : r.refused? with
      | none => simp [hr] at hj
      | some d =>
        rw [hr, Option.toList_some, List.getElem?_singleton] at hj
        split at hj
        · exact ⟨hj, by omega⟩
        · cases hj
    obtain ⟨scene, houtcome⟩ := outcome_of_refused? hrefusal
    obtain ⟨d, hd, rfl, c, -, hrep⟩ := hrefused scene houtcome
    obtain rfl := Option.some.inj (hd.symm.trans hrefusal)
    exact ⟨fun _ => Boards.nanFree_of_agree hrep.2, fun _ => ⟨houtcome, rfl⟩⟩

/-- Of two attempts to enter a scene with the same boards, with no wait in between, the
    second is refused, and the call fails for want of progress, exactly if no register
    holds what is no number. -/
theorem Playback.refused_iff {st : Staging} {p : Playback} {es : List Entrance}
    (h : Reached st p es) (fuel : Nat) (c : Call) {e : Entrance} {i j : Nat} (hij : i < j)
    (hi : (c.stretch es ++ (p.call st fuel c).attempts)[i]? = some e)
    (hj : (c.stretch es ++ (p.call st fuel c).attempts)[j]? = some e) :
    ((p.call st fuel c).outcome = .failed (.noProgress e.1) ∧
      (c.stretch es ++ (p.call st fuel c).entrances).length = j) ↔ e.2.NaNFree :=
  (call_accounts st h.recorded fuel c).caught_iff hij hi hj

/-! ## Relays -/

/-- A scene that sets a register to a literal and passes on to another scene. -/
def Scene.relay (name literal next : String) : Scene where
  name
  nodes := [
    { id := ⟨⟨0⟩⟩
      content := .state .enter
      outputs := [{ id := ⟨⟨1⟩⟩, flow := .output, connected := true }] },
    { id := ⟨⟨2⟩⟩
      content := .event ⟨⟨"Board", "x", .float⟩, .set, literal⟩
      inputs := [{ id := ⟨⟨3⟩⟩, flow := .input, connected := true }]
      outputs := [{ id := ⟨⟨4⟩⟩, flow := .output, connected := true }] },
    { id := ⟨⟨5⟩⟩
      content := .scene { scene := next }
      inputs := [{ id := ⟨⟨6⟩⟩, flow := .input, connected := true }] }]
  connections := [⟨⟨⟨1⟩⟩, ⟨⟨3⟩⟩⟩, ⟨⟨⟨4⟩⟩, ⟨⟨6⟩⟩⟩]

/-- The boards with the register. -/
def Boards.single (x : Binary32) : Boards := [{ name := "Board", floats := [⟨"x", .float x⟩] }]

/-- A session on a scene, with nothing shown. -/
def Session.on (scene : Scene) (boards : Boards) (visited : List NodeId)
    (entries : List Entrance) : Session :=
  let index := .ofScene scene
  { scene, index, index_eq := rfl, boards, visited, entries }

section
variable {name literal next : String}

theorem ConnectionIndex.relay (name literal next : String) :
    let index := ofScene (.relay name literal next)
    ∃ a b c, index.node? (.relay name literal next) ⟨⟨0⟩⟩ = some a ∧
      index.node? (.relay name literal next) ⟨⟨2⟩⟩ = some b ∧
      index.node? (.relay name literal next) ⟨⟨5⟩⟩ = some c ∧
      a.content = .state .enter ∧ b.content = .event ⟨⟨"Board", "x", .float⟩, .set, literal⟩ ∧
      c.content = .scene { scene := next } ∧ index.successor? a = some ⟨⟨2⟩⟩ ∧
      index.successor? b = some ⟨⟨5⟩⟩ := by
  refine ⟨_, _, _, node?_ofScene _ _, node?_ofScene _ _, node?_ofScene _ _, rfl, rfl, rfl, ?_, ?_⟩
  all_goals
    simp only [successor?, first?, leaving_ofScene, owner?_ofScene]
    rfl

variable (st : Staging) (boards : Boards) (es : List Entrance)

namespace Engine

theorem step_relay_enter :
    step st (.on (.relay name literal next) boards [⟨⟨0⟩⟩] es) ⟨⟨0⟩⟩ =
      ⟨[.ran ⟨⟨0⟩⟩],
        .run (.on (.relay name literal next) boards [⟨⟨0⟩⟩, ⟨⟨2⟩⟩] es) ⟨⟨2⟩⟩⟩ := by
  obtain ⟨a, -, -, ha, -, -, hac, -, -, hab, -⟩ := ConnectionIndex.relay name literal next
  rw [step_eq (s := .on ..) ha, perform, hac]
  dsimp only [Session.on]
  rw [hab, leave_some (by simp)]
  rfl

theorem step_relay_event :
    step st (.on (.relay name literal next) boards [⟨⟨0⟩⟩, ⟨⟨2⟩⟩] es) ⟨⟨2⟩⟩ =
      ⟨[.ran ⟨⟨2⟩⟩],
        .run (.on (.relay name literal next)
          ((Change.mk ⟨"Board", "x", .float⟩ .set literal).apply boards).1
          [⟨⟨0⟩⟩, ⟨⟨2⟩⟩, ⟨⟨5⟩⟩] es) ⟨⟨5⟩⟩⟩ := by
  obtain ⟨-, b, -, -, hb, -, -, hbc, -, -, hbd⟩ := ConnectionIndex.relay name literal next
  rw [step_eq (s := .on ..) hb, perform, hbc]
  dsimp only [Session.on]
  rw [hbd, leave_some (by simp)]
  rfl

theorem step_relay_switch (hcarry : st.config.carryBoards = true) {scene : Scene}
    (hscene : st.project.scene? next = some scene) :
    step st (.on (.relay name literal next) boards [⟨⟨0⟩⟩, ⟨⟨2⟩⟩, ⟨⟨5⟩⟩] es) ⟨⟨5⟩⟩ =
      (enterScene (.on scene boards [] es)).after
        [.ran ⟨⟨5⟩⟩, .told .sessionStopped, .told (.switchScene next longFade)] := by
  obtain ⟨-, -, c, -, -, hc, -, -, hcc, -, -⟩ := ConnectionIndex.relay name literal next
  rw [step_eq (s := .on ..) hc, perform, hcc]
  dsimp only
  rw [switchScene, Session.switchScene?, hscene, hcarry]
  rfl

theorem enterScene_on {scene : Scene} (hentry : scene.entry?.map Node.id = some ⟨⟨0⟩⟩)
    (hnew : (Session.on scene boards [] es).isRepeated = false) :
    enterScene (.on scene boards [] es) =
      ⟨[.entered scene.name boards],
        .run (.on scene boards [⟨⟨0⟩⟩] (es ++ [(scene.name, boards)])) ⟨⟨0⟩⟩⟩ := by
  obtain ⟨n, hn, hid⟩ := Option.map_eq_some_iff.1 hentry
  rw [enterScene, if_neg (Bool.eq_false_iff.1 hnew)]
  dsimp only [Session.noteEntry, Session.on]
  rw [hn]
  dsimp only
  rw [hid]
  rfl

end Engine

namespace Playback
variable {st boards es} {last : Suspension} {fuel : Nat} {x : Binary32} (y : Binary32)
  (scene : Scene) (hcarry : st.config.carryBoards = true)
  (hscene : st.project.scene? next = some scene)
  (hset : ((Change.mk ⟨"Board", "x", .float⟩ .set literal).apply (.single x)).1 = .single y)
include hcarry hscene hset

/-- A relay sets its register and enters the next scene. -/
theorem run_relay (hentry : scene.entry?.map Node.id = some ⟨⟨0⟩⟩)
    (hnew : (Session.on scene (.single y) [] es).isRepeated = false) :
    run st last (fuel + 3) (.on (.relay name literal next) (.single x) [⟨⟨0⟩⟩] es) ⟨⟨0⟩⟩ =
      (run st last fuel (.on scene (.single y) [⟨⟨0⟩⟩] (es ++ [(scene.name, .single y)]))
        ⟨⟨0⟩⟩).after
        [.ran ⟨⟨0⟩⟩, .ran ⟨⟨2⟩⟩, .ran ⟨⟨5⟩⟩, .told .sessionStopped,
          .told (.switchScene next longFade), .entered scene.name (.single y)] := by
  rw [run_of_step (Engine.step_relay_enter ..), run_of_step (Engine.step_relay_event ..), hset,
    run_of_step (Engine.step_relay_switch _ _ _ hcarry hscene |>.trans
      (congrArg _ (Engine.enterScene_on _ _ hentry hnew)))]
  rfl

/-- A relay sets its register, and the entry of the next scene is refused. -/
theorem run_relay_refused (hrep : (Session.on scene (.single y) [] es).isRepeated = true) :
    run st last (fuel + 3) (.on (.relay name literal next) (.single x) [⟨⟨0⟩⟩] es) ⟨⟨0⟩⟩ =
      ⟨⟨some (.on scene (.single y) [] es), .atNode ⟨⟨5⟩⟩, .running, last⟩,
        [.ran ⟨⟨0⟩⟩, .ran ⟨⟨2⟩⟩, .ran ⟨⟨5⟩⟩, .told .sessionStopped,
          .told (.switchScene next longFade)], .failed (.noProgress scene.name)⟩ := by
  rw [run_of_step (Engine.step_relay_enter ..), run_of_step (Engine.step_relay_event ..), hset,
    run, Engine.step_relay_switch _ _ _ hcarry hscene, Engine.enterScene, if_pos hrep]
  rfl

end Playback
end

/-- Three relays: from the first scene to the second, and then back and forth between the
    second and the third. -/
def Staging.relays : Staging where
  project := {
    name := "Relays"
    scenes := [.relay "S" "NaN" "A", .relay "A" "1" "B", .relay "B" "NaN" "A"]
    boards := .single (.ofNat 0) }
  opening := "S"
  config := { playerName := "", typewriterDelay := .ofMillis 0, carryBoards := true }

/-- What happens in a relay that passes on to a scene. -/
def Beat.relay (next : String) : List Beat :=
  [.ran ⟨⟨0⟩⟩, .ran ⟨⟨2⟩⟩, .ran ⟨⟨5⟩⟩, .told .sessionStopped, .told (.switchScene next longFade)]

theorem Playback.call_relays : call .relays 12 {} .start =
    ⟨⟨some (.on (.relay "B" "NaN" "A") (.single (.ofNat 1)) []
        [("S", .single (.ofNat 0)), ("A", .single .nan), ("B", .single (.ofNat 1)),
          ("A", .single .nan)]), .atNode ⟨⟨5⟩⟩, .running, .idle⟩,
      .entered "S" (.single (.ofNat 0)) :: Beat.relay "A" ++
        .entered "A" (.single .nan) :: Beat.relay "B" ++
        .entered "B" (.single (.ofNat 1)) :: Beat.relay "A" ++
        .entered "A" (.single .nan) :: Beat.relay "B",
      .failed (.noProgress "B")⟩ := by
  have hstart : call .relays 12 {} .start = (follow .relays .idle 12
    (Engine.enterScene (.on (.relay "S" "NaN" "A") (.single (.ofNat 0)) [] []))).after [] := rfl
  rw [hstart, Engine.enterScene_on _ _ rfl rfl, follow_run,
    run_relay .nan (.relay "A" "1" "B") rfl rfl rfl rfl rfl,
    run_relay (.ofNat 1) (.relay "B" "NaN" "A") rfl rfl rfl rfl rfl,
    run_relay .nan (.relay "A" "1" "B") rfl rfl rfl rfl rfl,
    run_relay_refused (.ofNat 1) (.relay "B" "NaN" "A") rfl rfl rfl rfl]
  rfl

/-- The second entry of the second scene is missed, that of the third is refused. -/
theorem Playback.start_relays :
    (call .relays 12 {} .start).attempts =
      [("S", .single (.ofNat 0)), ("A", .single .nan), ("B", .single (.ofNat 1)),
        ("A", .single .nan), ("B", .single (.ofNat 1))] ∧
    (call .relays 12 {} .start).entrances.length = 4 ∧
    (call .relays 12 {} .start).outcome = .failed (.noProgress "B") := by
  rw [call_relays]
  exact ⟨rfl, rfl, rfl⟩

/-- The third scene is entered with a number in the register, so its second entry is
    refused. -/
theorem Playback.refused_relays :
    Reached .relays {} [] ∧
    (call .relays 12 {} .start).attempts[2]? = some ("B", .single (.ofNat 1)) ∧
    (call .relays 12 {} .start).attempts[4]? = some ("B", .single (.ofNat 1)) ∧
    (call .relays 12 {} .start).outcome = .failed (.noProgress "B") := by
  have hi : (call .relays 12 {} .start).attempts[2]? = some ("B", .single (.ofNat 1)) := by
    rw [start_relays.1]
    rfl
  have hj : (call .relays 12 {} .start).attempts[4]? = some ("B", .single (.ofNat 1)) := by
    rw [start_relays.1]
    rfl
  have hfree : Boards.NaNFree (.single (.ofNat 1)) := by decide
  have hnew : Reached .relays {} [] := .new
  have hrefused := refused_iff hnew 12 .start (i := 2) (j := 4) (by decide) hi hj
  exact ⟨hnew, hi, hj, (hrefused.2 hfree).1⟩

/-- The second scene is entered with what is no number in the register; it is entered
    again with the same boards, and the call does not fail because of it. -/
theorem Playback.missed_relays :
    (call .relays 12 {} .start).attempts[1]? = some ("A", .single .nan) ∧
    (call .relays 12 {} .start).attempts[3]? = some ("A", .single .nan) ∧
    3 < (call .relays 12 {} .start).entrances.length ∧
    (call .relays 12 {} .start).outcome ≠ .failed (.noProgress "A") := by
  obtain ⟨hattempts, hlength, houtcome⟩ := start_relays
  rw [hattempts, hlength, houtcome]
  exact ⟨rfl, rfl, by decide, by decide⟩

end VisualNovel
