/-
  Calls of a playback, one for all.

  * `Playback.call` is what a host calls, `Beat.entrances` lists the scenes that are
    entered on the way;
  * `Playback.start_cases` and `Playback.resume_cases`: calls go on from a piece of
    playback that does not depend on how many nodes may be run, and
    `Playback.run_of_step`: a run from what its first node does;
  * `Playback.call_mono`: a call that comes to an end does so in the same way if it may
    run more nodes, and `Playback.call_within`: if it may run fewer, it does a part of this.
-/
import VisualNovel.Playback.Engine

namespace VisualNovel

/-- What a host calls. -/
inductive Call where
  | start
  | resume (w : Wake)
  | stop
  deriving DecidableEq, Repr

/-- A scene that is entered, by its name, with the boards at that time. -/
abbrev Entrance := String × Boards

/-- The entrances among the beats. -/
def Beat.entrances (bs : List Beat) : List Entrance :=
  bs.filterMap fun
    | entered scene boards => some (scene, boards)
    | _ => none

def Piece.entrances (p : Piece) : List Entrance := Beat.entrances p.beats

def Report.entrances (r : Report) : List Entrance := Beat.entrances r.beats

@[simp] theorem Beat.entrances_append (as bs : List Beat) :
    entrances (as ++ bs) = entrances as ++ entrances bs :=
  List.filterMap_append

@[simp] theorem Beat.entrances_told (is : List Intent) : entrances (is.map .told) = [] := by
  simp [entrances]

@[simp] theorem Beat.intents_append (as bs : List Beat) :
    intents (as ++ bs) = intents as ++ intents bs := List.filterMap_append

@[simp] theorem Beat.intents_told (is : List Intent) : intents (is.map .told) = is := by
  rw [intents, List.filterMap_map]
  exact List.filterMap_some

@[simp] theorem Beat.intents_cons_told (i : Intent) (bs : List Beat) :
    intents (told i :: bs) = i :: intents bs := rfl

@[simp] theorem Beat.intents_nil : intents [] = [] := rfl

theorem Beat.mem_entrances {bs : List Beat} {e : Entrance} :
    e ∈ entrances bs ↔ entered e.1 e.2 ∈ bs := by
  simp only [entrances, List.mem_filterMap]
  constructor
  · rintro ⟨b, hb, he⟩
    split at he
    · cases he
      exact hb
    · cases he
  · exact fun h => ⟨_, h, rfl⟩

@[simp] theorem Piece.entrances_after (bs : List Beat) (p : Piece) :
    (p.after bs).entrances = Beat.entrances bs ++ p.entrances := Beat.entrances_append ..

@[simp] theorem Piece.turn_after (bs : List Beat) (p : Piece) : (p.after bs).turn = p.turn := rfl

@[simp] theorem Report.entrances_after (bs : List Beat) (r : Report) :
    (r.after bs).entrances = Beat.entrances bs ++ r.entrances := Beat.entrances_append ..

@[simp] theorem Report.outcome_after (bs : List Beat) (r : Report) :
    (r.after bs).outcome = r.outcome := rfl

@[simp] theorem Report.playback_after (bs : List Beat) (r : Report) :
    (r.after bs).playback = r.playback := rfl

namespace Playback

variable (st : Staging)

/-- What a call comes to, if it may run so many nodes. -/
def call (fuel : Nat) (p : Playback) : Call → Report
  | .start => p.start st fuel
  | .resume w => p.resume st fuel w
  | .stop => ⟨p.stop.1, p.stop.2, .suspended p.stop.1.suspension⟩

variable {st}

theorem session_stop (p : Playback) : p.stop.1.session = none := by
  unfold stop
  split
  · rfl
  · rename_i h
    exact Option.not_isSome_iff_eq_none.1 h

theorem stop_of_closed {p : Playback} (hp : p.session = none) : p.stop = (p, []) := by
  rw [stop, hp]
  rfl

theorem stop_of_open {p : Playback} (hp : p.session.isSome = true) :
    p.stop = ({}, [.told .sessionStopped]) := by
  rw [stop, if_pos hp]
  rfl

/-- A start is a stop and a start without a session. -/
theorem start_eq (st : Staging) (fuel : Nat) (p : Playback) :
    p.start st fuel = (p.stop.1.start st fuel).after p.stop.2 := by
  rw [start, start, stop_of_closed p.session_stop]
  rfl

/-- A start fails, or it goes on from the entry of the opening scene. -/
theorem start_cases (st : Staging) (p : Playback) :
    (Session.open? st.project st.opening = none ∧ ∀ fuel, p.start st fuel =
      ⟨p.stop.1, p.stop.2, .failed (.sceneNotFound st.opening)⟩) ∨
    ∃ s, Session.open? st.project st.opening = some s ∧ ∀ fuel, p.start st fuel =
      (follow st p.stop.1.suspension fuel (Engine.enterScene s)).after p.stop.2 := by
  cases hs : Session.open? st.project st.opening with
  | none =>
    refine .inl ⟨rfl, fun fuel => ?_⟩
    simp [start, hs, Report.after]
  | some s =>
    refine .inr ⟨s, rfl, fun fuel => ?_⟩
    simp [start, hs]

/-- A wake means nothing, or playback goes on from what it makes of the wait. -/
theorem resume_cases (st : Staging) (p : Playback) (w : Wake) :
    (∀ fuel, p.resume st fuel w = ⟨p, [], .suspended p.suspension⟩) ∨
    ∃ s piece, p.session = some s ∧ p.suspension.accepts w = true ∧
      wake? st s p.cursor w = some piece ∧
      ∀ fuel, p.resume st fuel w = follow st p.suspension fuel piece := by
  unfold resume
  cases hw : p.suspension.accepts w with
  | false => exact .inl fun _ => by simp
  | true =>
    cases hs : p.session with
    | none => exact .inl fun _ => by simp
    | some s =>
      cases hp : wake? st s p.cursor w with
      | none => exact .inl fun _ => by simp [hp]
      | some piece => exact .inr ⟨s, piece, rfl, rfl, hp, fun _ => by simp [hp]⟩

section
variable {last : Suspension} {fuel : Nat} {s t : Session} {id i : NodeId} {beats : List Beat}

/-- A run goes on from where its first node leads. -/
theorem run_of_step (h : Engine.step st s id = ⟨beats, .run t i⟩) :
    run st last (fuel + 1) s id = (run st last fuel t i).after beats := by
  rw [run, h]

theorem follow_run :
    follow st last fuel ⟨beats, .run s id⟩ = (run st last fuel s id).after beats := rfl

end

/-! ## Nodes enough -/

theorem run_mono {last : Suspension} {n m : Nat} (h : n ≤ m) {s : Session} {id : NodeId}
    (hn : (run st last n s id).outcome ≠ .unfinished) :
    run st last m s id = run st last n s id := by
  induction n generalizing m s id with
  | zero => exact absurd rfl hn
  | succ n ih =>
    obtain ⟨m, rfl⟩ := Nat.exists_eq_add_of_le' h
    rw [← Nat.add_assoc]
    simp only [run] at hn ⊢
    split at hn
    · rw [ih (by omega) hn]
    · rfl
    · rfl

theorem follow_mono {last : Suspension} {n m : Nat} (h : n ≤ m) {piece : Piece}
    (hn : (follow st last n piece).outcome ≠ .unfinished) :
    follow st last m piece = follow st last n piece := by
  unfold follow at *
  cases ht : piece.turn with
  | run s id =>
    rw [ht] at hn
    dsimp only
    rw [run_mono h hn]
  | rest => rfl
  | fail => rfl

theorem call_mono {n m : Nat} (h : n ≤ m) {p : Playback} {c : Call}
    (hn : (p.call st n c).outcome ≠ .unfinished) : p.call st m c = p.call st n c := by
  cases c with
  | start =>
    simp only [call] at hn ⊢
    rcases start_cases st p with ⟨-, hp⟩ | ⟨s, -, hp⟩
    · rw [hp, hp]
    · rw [hp] at hn
      rw [hp, hp, follow_mono h hn]
  | resume w =>
    simp only [call] at hn ⊢
    rcases resume_cases st p w with hp | ⟨s, piece, -, -, -, hp⟩
    · rw [hp, hp]
    · rw [hp] at hn
      rw [hp, hp, follow_mono h hn]
  | stop => rfl

theorem run_grows {last : Suspension} {n m : Nat} (h : n ≤ m) {s : Session} {id : NodeId} :
    (run st last n s id).beats <+: (run st last m s id).beats := by
  induction n generalizing m s id with
  | zero => exact List.nil_prefix
  | succ n ih =>
    obtain ⟨m, rfl⟩ := Nat.exists_eq_add_of_le' h
    rw [← Nat.add_assoc]
    simp only [run]
    split
    · exact (List.prefix_append_right_inj _).2 (ih (by omega))
    · exact List.prefix_rfl
    · exact List.prefix_rfl

theorem follow_grows {last : Suspension} {n m : Nat} (h : n ≤ m) {piece : Piece} :
    (follow st last n piece).beats <+: (follow st last m piece).beats := by
  unfold follow
  cases piece.turn with
  | run s id => exact (List.prefix_append_right_inj _).2 (run_grows h)
  | rest => exact List.prefix_rfl
  | fail => exact List.prefix_rfl

theorem call_grows {n m : Nat} (h : n ≤ m) (p : Playback) (c : Call) :
    (p.call st n c).beats <+: (p.call st m c).beats := by
  cases c with
  | start =>
    simp only [call]
    rcases start_cases st p with ⟨-, hp⟩ | ⟨s, -, hp⟩
    · simp only [hp, List.prefix_rfl]
    · rw [hp, hp]
      exact (List.prefix_append_right_inj _).2 (follow_grows h)
  | resume w =>
    simp only [call]
    rcases resume_cases st p w with hp | ⟨s, piece, -, -, -, hp⟩
    · simp only [hp, List.prefix_rfl]
    · rw [hp, hp]
      exact follow_grows h
  | stop => exact List.prefix_rfl

/-- However many nodes a call may run, it does nothing that it does not do when it comes to an
    end. -/
theorem call_within {n : Nat} {p : Playback} {c : Call}
    (hn : (p.call st n c).outcome ≠ .unfinished) (fuel : Nat) :
    (p.call st fuel c).beats <+: (p.call st n c).beats := by
  rcases Nat.le_total fuel n with hle | hle
  · exact call_grows hle p c
  · simp only [call_mono hle hn, List.prefix_rfl]

end Playback

end VisualNovel
