/-
  Playback in which no entry of a scene is refused.

  * `Piece.unchecked` lets a piece of playback go on where an entry was refused, and
    `Playback.runUnchecked` and `Playback.callUnchecked` do so whenever one is;
  * `Playback.callUnchecked_eq_call`: a call in which none is refused comes to the same;
  * `Engine.Leads`: what happens from one node to another in such playback, and
    `Engine.Leads.runUnchecked_eq`: a run follows it.
-/
import VisualNovel.Proofs.Playback.Effect
import VisualNovel.Proofs.Playback.History

namespace VisualNovel

/-- Enters the scene of a session, however often it was entered before. -/
def Engine.enterUnchecked (s : Session) : Piece :=
  let entered := .entered s.scene.name s.boards
  let s := s.noteEntry
  match s.scene.entry? with
  | none => ⟨[entered, .told (.chainEnded .noEntry)], .rest s .none .done⟩
  | some n => ⟨[entered], .run (s.resetVisited.visit n.id) n.id⟩

/-- A piece of playback that goes on where the entry of a scene was refused. -/
def Piece.unchecked (p : Piece) : Piece :=
  match p.turn with
  | .fail s (.noProgress _) => (Engine.enterUnchecked s).after p.beats
  | _ => p

namespace Playback
variable (st : Staging)

/-- Runs nodes from one on, and no entry of a scene is refused. -/
def runUnchecked (last : Suspension) : (fuel : Nat) → Session → NodeId → Report
  | 0, s, id => ⟨⟨s, .atNode id, .running, last⟩, [], .unfinished⟩
  | fuel + 1, s, id =>
    let piece := (Engine.step st s id).unchecked
    match piece.turn with
    | .run s' id' => (runUnchecked last fuel s' id').after piece.beats
    | .rest s' cursor suspension =>
      ⟨settle s' cursor suspension, piece.beats, .suspended suspension⟩
    | .fail s' e => ⟨⟨s', .atNode id, .running, last⟩, piece.beats, .failed e⟩

/-- What a call comes to if no entry of a scene is refused.  It runs nodes from the one on
    at which the call stands when it may run none. -/
def callUnchecked (fuel : Nat) (p : Playback) (c : Call) : Report :=
  let r := p.call st 0 c
  match r.outcome, r.playback.session, r.playback.cursor with
  | .unfinished, some s, .atNode id =>
    (runUnchecked st r.playback.suspension fuel s id).after r.beats
  | _, _, _ => r

end Playback

namespace Engine

theorem enterScene_eq (s : Session) : enterScene s =
    if s.isRepeated then { turn := .fail s (.noProgress s.scene.name) }
    else enterUnchecked s := rfl

theorem enterUnchecked_of_none {s : Session} (h : s.scene.entry? = none) : enterUnchecked s =
    ⟨[.entered s.scene.name s.boards, .told (.chainEnded .noEntry)],
      .rest (some s.noteEntry) .none .done⟩ := by
  unfold enterUnchecked
  dsimp only [Session.noteEntry]
  rw [h]

theorem enterUnchecked_of_some {s : Session} {n : Node} (h : s.scene.entry? = some n) :
    enterUnchecked s = ⟨[.entered s.scene.name s.boards],
      .run { s.noteEntry with visited := [n.id] } n.id⟩ := by
  unfold enterUnchecked
  dsimp only [Session.noteEntry]
  rw [h]
  rfl

@[simp] theorem enterUnchecked_unchecked (s : Session) :
    (enterUnchecked s).unchecked = enterUnchecked s := by
  unfold enterUnchecked
  dsimp only
  split <;> rfl

@[simp] theorem enterScene_unchecked (s : Session) :
    (enterScene s).unchecked = enterUnchecked s := by
  rw [enterScene_eq]
  split
  · simp [Piece.unchecked, Piece.after]
  · exact enterUnchecked_unchecked s

end Engine

@[simp] theorem Piece.unchecked_after (p : Piece) (told : List Beat) :
    (p.after told).unchecked = p.unchecked.after told := by
  unfold unchecked
  rw [turn_after]
  split
  · simp [after]
  · rfl

/-- Where no entry is refused, nothing is other than in playback. -/
theorem Piece.unchecked_eq {p : Piece}
    (h : ∀ s scene, p.turn ≠ .fail s (.noProgress scene)) : p.unchecked = p := by
  unfold unchecked
  split
  · rename_i s scene ht
    exact absurd ht (h s scene)
  · rfl

namespace Playback
variable {st : Staging}

theorem runUnchecked_eq_run {last : Suspension} {fuel : Nat} {s : Session} {id : NodeId}
    (h : ∀ scene, (run st last fuel s id).outcome ≠ .failed (.noProgress scene)) :
    runUnchecked st last fuel s id = run st last fuel s id := by
  induction fuel generalizing s id with
  | zero => rfl
  | succ fuel ih =>
    have hstep : (Engine.step st s id).unchecked = Engine.step st s id := by
      refine Piece.unchecked_eq fun t scene ht => h scene ?_
      rw [run, ht]
    rw [run] at h
    rw [runUnchecked, run, hstep]
    cases ht : (Engine.step st s id).turn with
    | run t i =>
      rw [ht] at h
      dsimp only
      rw [ih h]
    | rest | fail => rfl

/-- The node that is the first to be run in a call, and the session in which it is run. -/
inductive Heads (st : Staging) (p : Playback) (s : Session) (id : NodeId) : Call → Prop where
  | start {u : Session} (opened : Session.open? st.project st.opening = some u)
    (turn : (Engine.enterScene u).turn = .run s id) : Heads st p s id .start
  | resume {u : Session} {w : Wake} {piece : Piece} (session : p.session = some u)
    (accepted : p.suspension.accepts w = true) (made : wake? st u p.cursor w = some piece)
    (turn : piece.turn = .run s id) : Heads st p s id (.resume w)

/-- Playback that goes on from a piece of it runs nodes from one on, or it ends there. -/
theorem follow_cases (st : Staging) (last : Suspension) (piece : Piece) :
    (∃ s id, piece.turn = .run s id ∧
      ∀ fuel, follow st last fuel piece = (run st last fuel s id).after piece.beats) ∨
    piece.turn.outcome ≠ .unfinished ∧
      ∃ r : Report, r.outcome = piece.turn.outcome ∧ ∀ fuel, follow st last fuel piece = r := by
  unfold follow
  cases piece.turn with
  | run s id => exact .inl ⟨s, id, rfl, fun _ => rfl⟩
  | rest | fail => exact .inr ⟨by simp [Turn.outcome], _, rfl, fun _ => rfl⟩

/-- A call runs nodes from one on, or it comes to an end without one, and then it is not for
    want of progress. -/
theorem call_cases (st : Staging) (p : Playback) (c : Call) :
    (∃ s id last bs, p.Heads st s id c ∧
      ∀ fuel, p.call st fuel c = (run st last fuel s id).after bs) ∨
    ∃ r : Report, (∀ fuel, p.call st fuel c = r) ∧ r.outcome ≠ .unfinished ∧
      ∀ scene, r.outcome ≠ .failed (.noProgress scene) := by
  cases c with
  | stop => exact .inr ⟨_, fun _ => rfl, by simp, by simp⟩
  | start =>
    simp only [call]
    rcases start_cases st p with ⟨-, hstart⟩ | ⟨u, hu, hstart⟩
    · exact .inr ⟨_, hstart, by simp, by simp⟩
    · simp only [hstart]
      rcases follow_cases st p.stop.1.suspension (Engine.enterScene u) with
        ⟨s, id, hturn, hfollow⟩ | ⟨hturn, r, houtcome, hfollow⟩
      · refine .inl ⟨s, id, p.stop.1.suspension, p.stop.2 ++ (Engine.enterScene u).beats,
          .start hu hturn, fun fuel => ?_⟩
        rw [hfollow]
        simp [Report.after]
      · -- a session that is opened has no entrance on record
        obtain ⟨scene, -, rfl⟩ := Option.map_eq_some_iff.1 hu
        refine .inr ⟨r.after p.stop.2, fun fuel => by rw [hfollow], houtcome ▸ hturn,
          fun name => ?_⟩
        rw [Report.outcome_after, houtcome]
        rcases Engine.enterScene_outcome
            { scene, index := .ofScene scene, index_eq := rfl, boards := st.project.boards } with
          ⟨hrepeated, -⟩ | ⟨-, ⟨-, hrest⟩ | ⟨n, -, hrun⟩⟩
        · cases hrepeated
        · rw [hrest]
          simp [Turn.outcome]
        · rw [hrun]
          simp [Turn.outcome]
  | resume w =>
    simp only [call]
    rcases resume_cases st p w with hresume | ⟨u, piece, hu, haccepts, hpiece, hresume⟩
    · exact .inr ⟨_, hresume, by simp, by simp⟩
    · simp only [hresume]
      rcases follow_cases st p.suspension piece with
        ⟨s, id, hturn, hfollow⟩ | ⟨hturn, r, houtcome, hfollow⟩
      · exact .inl ⟨s, id, _, piece.beats, .resume hu haccepts hpiece hturn, hfollow⟩
      · refine .inr ⟨r, hfollow, houtcome ▸ hturn, fun name hname => ?_⟩
        have hstays := (wake?_calm hpiece).stays.turn
        rw [houtcome] at hname
        generalize piece.turn = turn at hstays hname
        cases hstays with
        | run | rest => cases hname
        | fail _ reason => exact reason name (Outcome.failed.inj hname)

/-- A call that runs nodes runs them without the check. -/
theorem callUnchecked_eq_run {p : Playback} {c : Call} {last : Suspension} {s : Session}
    {id : NodeId} {bs : List Beat}
    (h : ∀ fuel, p.call st fuel c = (run st last fuel s id).after bs) (fuel : Nat) :
    callUnchecked st fuel p c = (runUnchecked st last fuel s id).after bs := by
  simp [callUnchecked, h, run, Report.after]

/-- A call in which no entry is refused comes to the same without the check. -/
theorem callUnchecked_eq_call {p : Playback} {c : Call} {fuel : Nat}
    (h : ∀ scene, (p.call st fuel c).outcome ≠ .failed (.noProgress scene)) :
    callUnchecked st fuel p c = p.call st fuel c := by
  rcases call_cases st p c with ⟨s, id, last, bs, -, hrun⟩ | ⟨r, hcall, houtcome, -⟩
  · rw [hrun] at h
    rw [callUnchecked_eq_run hrun, hrun, runUnchecked_eq_run h]
  · simp only [callUnchecked, hcall]
    split
    · rename_i hunfinished _ _
      exact absurd hunfinished houtcome
    · rfl

end Playback

/-! ## From node to node -/

/-- Playback without the check leads from one node to another by running so many nodes. -/
inductive Engine.Leads (st : Staging) : Nat → Session → NodeId → List Beat → Session → NodeId →
    Prop where
  | refl (s : Session) (id : NodeId) : Leads st 0 s id [] s id
  | step {n : Nat} {s t u : Session} {id i j : NodeId} {as bs : List Beat}
    (runs : (step st s id).unchecked = ⟨as, .run t i⟩) (leads : Leads st n t i bs u j) :
    Leads st (n + 1) s id (as ++ bs) u j

namespace Engine.Leads
variable {st : Staging} {n m : Nat} {s t u : Session} {id i j : NodeId} {as bs : List Beat}

theorem trans (h : Leads st n s id as t i) (h' : Leads st m t i bs u j) :
    Leads st (n + m) s id (as ++ bs) u j := by
  induction h with
  | refl => simpa using h'
  | @step n _ _ _ _ _ _ as _ runs _ ih =>
    rw [List.append_assoc, Nat.add_right_comm]
    exact .step runs (ih h')

theorem concat (h : Leads st n s id as t i)
    (runs : (Engine.step st t i).unchecked = ⟨bs, .run u j⟩) :
    Leads st (n + 1) s id (as ++ bs) u j := by
  simpa using h.trans (.step runs (.refl u j))

/-- A run does what leads to the node that it comes to. -/
theorem runUnchecked_eq (h : Leads st n s id bs t i) (last : Suspension) (m : Nat) :
    Playback.runUnchecked st last (n + m) s id =
      (Playback.runUnchecked st last m t i).after bs := by
  induction h with
  | refl => simp [Report.after]
  | step runs _ ih =>
    rw [Nat.add_right_comm, Playback.runUnchecked, runs]
    dsimp only
    rw [ih]
    simp [Report.after]

/-- A run that may not run more nodes than lead to another one is cut short on the way. -/
theorem runUnchecked_of_le (h : Leads st n s id bs t i) (last : Suspension) (hm : m ≤ n) :
    (Playback.runUnchecked st last m s id).outcome = .unfinished ∧
      (Playback.runUnchecked st last m s id).beats <+: bs := by
  induction h generalizing m with
  | refl =>
    obtain rfl : m = 0 := by omega
    exact ⟨rfl, List.nil_prefix⟩
  | step runs _ ih =>
    cases m with
    | zero => exact ⟨rfl, List.nil_prefix⟩
    | succ m =>
      obtain ⟨houtcome, hbeats⟩ := ih (Nat.le_of_succ_le_succ hm)
      rw [Playback.runUnchecked, runs]
      exact ⟨houtcome, (List.prefix_append_right_inj _).2 hbeats⟩

end Engine.Leads

end VisualNovel
