/-
  Calls come to an end.  Within a scene no node is visited twice; and of the scenes with
  their boards there are finitely many, none of which is entered twice between waits, as
  long as what is entered can be told from what was entered before.

  * `Session.Confined`: the sessions that playback can come to from one, as far as
    scene and boards are concerned;
  * `Engine.step_descends`: a node that leads to another enters one scene more, or visits
    one node more of the scene;
  * `Playback.returns`: a call comes to an end, if no scene is entered with a register
    that holds what is no number.
-/
import Mathlib.Data.Set.Card
import VisualNovel.Proofs.Board.Range
import VisualNovel.Proofs.Playback.Cycle

namespace VisualNovel

/-- The literals that the events of a scene write. -/
def Scene.literals (s : Scene) : List String :=
  s.nodes.filterMap fun n =>
    match n.content with
    | .event c => some c.literal
    | _ => none

theorem Scene.literal_mem_literals {s : Scene} {n : Node} (hn : n ∈ s.nodes) {c : Change}
    (hc : n.content = .event c) : c.literal ∈ s.literals :=
  List.mem_filterMap.2 ⟨n, hn, by rw [hc]⟩

section
variable (st : Staging) (s₀ : Session)

/-- The scenes that playback can come to from a session. -/
def Session.scenes : List Scene := s₀.scene :: st.project.scenes

/-- The texts that events can write from a session on. -/
def Session.texts : List String := (s₀.scenes st).flatMap Scene.literals

/-- The boards that playback can come to from a session: those of the session or of the
    project, up to changes. -/
def Session.Admits (bs : Boards) : Prop :=
  s₀.boards.Within (s₀.texts st) bs ∨ st.project.boards.Within (s₀.texts st) bs

/-- A session that playback can come to from another one. -/
structure Session.Confined (s : Session) : Prop where
  scene : s.scene ∈ s₀.scenes st
  boards : s₀.Admits st s.boards

/-- The entrances that playback can come to from a session. -/
def Session.reach : Set Entrance := {e | e.1 ∈ (s₀.scenes st).map Scene.name ∧ s₀.Admits st e.2}

theorem Session.finite_reach : (s₀.reach st).Finite := by
  have hboards : {bs | s₀.Admits st bs}.Finite :=
    (Boards.finite_within _ _).union (Boards.finite_within _ _)
  exact (List.finite_toSet _).prod hboards

end

namespace Session
variable {st : Staging} {s₀ s t : Session}

theorem Confined.refl (s : Session) : s.Confined st s := ⟨List.mem_cons_self, .inl (.refl _)⟩

theorem Confined.mem_reach (h : s₀.Confined st s) : (s.scene.name, s.boards) ∈ s₀.reach st :=
  ⟨List.mem_map_of_mem h.scene, h.boards⟩

theorem Confined.keeps (h : s₀.Confined st s) (hk : s.Keeps t) : s₀.Confined st t :=
  ⟨hk.scene ▸ h.scene, hk.boards ▸ h.boards⟩

theorem Confined.writes (h : s₀.Confined st s) {boards : Boards} (hw : Engine.Writes s boards) :
    s₀.Confined st { s with boards } := by
  refine ⟨h.scene, ?_⟩
  rcases hw with rfl | ⟨n, hn, c, hc, rfl⟩
  · exact h.boards
  · have hmem : c.literal ∈ s₀.texts st :=
      List.mem_flatMap.2 ⟨s.scene, h.scene, Scene.literal_mem_literals hn hc⟩
    exact h.boards.imp (fun hb => hb.apply hmem) fun hb => hb.apply hmem

theorem Confined.enters (h : s₀.Confined st s) (he : Engine.Enters st s t) :
    s₀.Confined st t := by
  refine ⟨?_, ?_⟩
  · rcases he.scene with hs | hs
    · exact hs ▸ h.scene
    · exact List.mem_cons_of_mem _ hs
  · rcases he.boards with hb | hb
    · exact hb ▸ h.boards
    · exact hb ▸ .inr (.refl _)

/-! ## What is left to do -/

/-- The number of entrances that were not made. -/
noncomputable def pending (st : Staging) (s₀ s : Session) : Nat :=
  (s₀.reach st \ {e | e ∈ s.entries}).ncard

/-- The number of nodes that were not visited. -/
def unvisited (s : Session) : Nat := (s.scene.nodes.filter fun n => n.id ∉ s.visited).length

/-- An entrance that is new is one less to be made. -/
theorem pending_lt {e : Entrance} (he : e ∈ s₀.reach st) (hnew : e ∉ s.entries)
    (ht : t.entries = s.entries ++ [e]) : s₀.pending st t < s₀.pending st s := by
  refine Set.ncard_lt_ncard (Set.ssubset_iff_of_subset ?_ |>.2 ⟨e, ⟨he, hnew⟩, ?_⟩)
    ((s₀.finite_reach st).sdiff)
  · rintro d ⟨hd, hdt⟩
    exact ⟨hd, fun hds => hdt (ht ▸ List.mem_append_left _ hds)⟩
  · rintro ⟨-, het⟩
    exact het (ht ▸ List.mem_append_right _ (List.mem_singleton_self e))

/-- A node that is visited is one less to be visited. -/
theorem unvisited_lt {id : NodeId} (hid : id ∈ s.scene.nodes.map Node.id)
    (hnew : id ∉ s.visited) (hscene : t.scene = s.scene)
    (ht : t.visited = s.visited ++ [id]) : t.unvisited < s.unvisited := by
  obtain ⟨n, hn, rfl⟩ := List.mem_map.1 hid
  have hfilter : (s.scene.nodes.filter fun m => m.id ∉ s.visited ++ [n.id]) =
      (s.scene.nodes.filter fun m => m.id ∉ s.visited).filter fun m => m.id ≠ n.id := by
    rw [List.filter_filter]
    exact List.filter_congr fun m _ => by simp [and_comm]
  rw [unvisited, unvisited, hscene, ht, hfilter, List.length_filter_lt_length_iff_exists]
  exact ⟨n, List.mem_filter.2 ⟨hn, by simpa using hnew⟩, by simp⟩

end Session

/-- A node that leads to another enters one scene more, or visits one node more of the
    scene. -/
theorem Engine.step_descends {st : Staging} {s₀ s t : Session} {id i : NodeId}
    (h : s₀.Confined st s) (ht : (step st s id).turn = .run t i)
    (hnan : ∀ e ∈ (step st s id).entrances, e.2.NaNFree) :
    s₀.Confined st t ∧ (s₀.pending st t < s₀.pending st s ∨
      s₀.pending st t = s₀.pending st s ∧ t.unvisited < s.unvisited) := by
  rcases step_cases st s id with ⟨boards, hw, hstay⟩ | ⟨u, told, hu, htold, hstep⟩
  · have hturn := hstay.turn
    rw [ht] at hturn
    cases hturn with
    | run kept visited new may =>
      refine ⟨(h.writes hw).keeps kept, .inr ⟨?_, ?_⟩⟩
      · rw [Session.pending, kept.entries]
        rfl
      · exact Session.unvisited_lt may new kept.scene visited
  · have hu' := h.enters hu
    rw [hstep, Piece.turn_after] at ht
    rw [hstep, Piece.entrances_after, htold, List.nil_append] at hnan
    rcases enterScene_cases u with ⟨-, hfail⟩ | ⟨hnew, hentered, hrest | ⟨n, -, hrun⟩⟩
    · rw [hfail] at ht
      cases ht
    · rw [hrest] at ht
      cases ht
    · rw [hrun] at ht
      cases ht
      refine ⟨⟨hu'.scene, hu'.boards⟩, .inl (Session.pending_lt hu'.mem_reach ?_ ?_)⟩
      · -- the boards agree with themselves, so the entry would have been refused
        intro hmem
        have hfree := hnan (u.scene.name, u.boards) (hentered ▸ List.mem_singleton_self _)
        refine Bool.eq_false_iff.1 hnew (List.any_eq_true.2 ⟨_, hu.entries ▸ hmem, ?_⟩)
        simp [Boards.agree_self.2 hfree]
      · exact congrArg (· ++ _) hu.entries

namespace Playback

/-- A run comes to an end, if no scene is entered with what is no number. -/
theorem run_returns {st : Staging} (last : Suspension) {s₀ s : Session} (id : NodeId)
    (h : s₀.Confined st s)
    (hnan : ∀ fuel, ∀ e ∈ (run st last fuel s id).entrances, e.2.NaNFree) :
    ∃ n, (run st last n s id).outcome ≠ .unfinished := by
  cases ht : (Engine.step st s id).turn with
  | rest t cursor suspension => exact ⟨1, by simp [run, ht]⟩
  | fail t e => exact ⟨1, by simp [run, ht]⟩
  | run t i =>
    have hstep : Engine.step st s id = ⟨(Engine.step st s id).beats, .run t i⟩ := by rw [← ht]
    obtain ⟨hc, hless⟩ := Engine.step_descends h ht fun e he => by
      refine hnan 1 e ?_
      rw [run_of_step hstep, Report.entrances_after]
      exact List.mem_append_left _ he
    obtain ⟨n, hn⟩ := run_returns last i hc fun fuel e he => by
      refine hnan (fuel + 1) e ?_
      rw [run_of_step hstep, Report.entrances_after]
      exact List.mem_append_right _ he
    refine ⟨n + 1, ?_⟩
    rw [run_of_step hstep]
    exact hn
termination_by (s₀.pending st s, s.unvisited)
decreasing_by
  rcases hless with hlt | ⟨heq, hlt⟩
  · exact Prod.Lex.left _ _ hlt
  · rw [heq]
    exact Prod.Lex.right _ hlt

theorem follow_returns {st : Staging} (last : Suspension) (piece : Piece)
    (hnan : ∀ fuel, ∀ e ∈ (follow st last fuel piece).entrances, e.2.NaNFree) :
    ∃ n, (follow st last n piece).outcome ≠ .unfinished := by
  cases ht : piece.turn with
  | rest s cursor suspension => exact ⟨0, by simp [follow, ht]⟩
  | fail s e => exact ⟨0, by simp [follow, ht]⟩
  | run s id =>
    have hpiece : piece = ⟨piece.beats, .run s id⟩ := by rw [← ht]
    rw [hpiece] at hnan ⊢
    simp only [follow_run, Report.entrances_after, Report.outcome_after] at hnan ⊢
    exact run_returns last id (.refl s) fun fuel e he =>
      hnan fuel e (List.mem_append_right _ he)

/-- A call comes to an end, if no scene is entered with a register that holds what is
    no number: it runs a certain number of nodes, and comes to the same whenever it may
    run as many. -/
theorem returns (st : Staging) (p : Playback) (c : Call)
    (hnan : ∀ fuel scene boards, .entered scene boards ∈ (p.call st fuel c).beats →
      boards.NaNFree) :
    ∃ n, ∀ fuel, n ≤ fuel →
      (p.call st fuel c).outcome ≠ .unfinished ∧ p.call st fuel c = p.call st n c := by
  suffices h : ∃ n, (p.call st n c).outcome ≠ .unfinished by
    obtain ⟨n, hn⟩ := h
    refine ⟨n, fun fuel hfuel => ?_⟩
    have hsame := call_mono hfuel hn
    exact ⟨hsame ▸ hn, hsame⟩
  have hnan' : ∀ fuel, ∀ e ∈ (p.call st fuel c).entrances, e.2.NaNFree :=
    fun fuel e he => hnan fuel e.1 e.2 (Beat.mem_entrances.1 he)
  cases c with
  | stop => exact ⟨0, by simp [call]⟩
  | start =>
    rcases start_cases st p with ⟨-, hp⟩ | ⟨s, -, hp⟩
    · exact ⟨0, by simp [call, hp]⟩
    · simp only [call, hp, Report.entrances_after, Report.outcome_after] at hnan' ⊢
      exact follow_returns _ _ fun fuel e he => hnan' fuel e (List.mem_append_right _ he)
  | resume w =>
    rcases resume_cases st p w with hp | ⟨s, piece, -, -, -, hp⟩
    · exact ⟨0, by simp [call, hp]⟩
    · simp only [call, hp] at hnan' ⊢
      exact follow_returns _ _ hnan'

end Playback

/-- Two relays that pass on to each other. -/
def Staging.rally : Staging where
  project := {
    name := "Rally"
    scenes := [.relay "S" "1" "A", .relay "A" "1" "S"]
    boards := .single (.ofNat 0) }
  opening := "S"
  config := { playerName := "", typewriterDelay := .ofMillis 0, carryBoards := true }

/-- The first relay is run a second time, with what the second one left in the register. -/
theorem Playback.call_rally : call .rally 9 {} .start =
    ⟨⟨some (.on (.relay "A" "1" "S") (.single (.ofNat 1)) []
        [("S", .single (.ofNat 0)), ("A", .single (.ofNat 1)), ("S", .single (.ofNat 1))]),
        .atNode ⟨⟨5⟩⟩, .running, .idle⟩,
      .entered "S" (.single (.ofNat 0)) :: Beat.relay "A" ++
        .entered "A" (.single (.ofNat 1)) :: Beat.relay "S" ++
        .entered "S" (.single (.ofNat 1)) :: Beat.relay "A",
      .failed (.noProgress "A")⟩ := by
  have hstart : call .rally 9 {} .start = (follow .rally .idle 9
    (Engine.enterScene (.on (.relay "S" "1" "A") (.single (.ofNat 0)) [] []))).after [] := rfl
  rw [hstart, Engine.enterScene_on _ _ rfl rfl, follow_run,
    run_relay (.ofNat 1) (.relay "A" "1" "S") rfl rfl rfl rfl rfl,
    run_relay (.ofNat 1) (.relay "S" "1" "A") rfl rfl rfl rfl rfl,
    run_relay_refused (.ofNat 1) (.relay "A" "1" "S") rfl rfl rfl rfl]
  rfl

/-- The relays go round, and the call comes to an end all the same: the second entry of the second
    one is refused. -/
theorem Playback.returns_rally :
    (∀ fuel scene boards, .entered scene boards ∈ (call .rally fuel {} .start).beats →
      boards.NaNFree) ∧
    (call .rally 9 {} .start).outcome = .failed (.noProgress "A") ∧
    ∃ n, ∀ fuel, n ≤ fuel → (call .rally fuel {} .start).outcome ≠ .unfinished ∧
      call .rally fuel {} .start = call .rally n {} .start := by
  have houtcome : (call .rally 9 {} .start).outcome = .failed (.noProgress "A") := by
    rw [call_rally]
  have hends : (call .rally 9 {} .start).outcome ≠ .unfinished := by
    rw [houtcome]
    simp
  have hfree : ∀ e ∈ (call .rally 9 {} .start).entrances, e.2.NaNFree := by
    rw [call_rally]
    decide
  have hnan : ∀ fuel scene boards,
      .entered scene boards ∈ (call .rally fuel {} .start).beats → boards.NaNFree := by
    intro fuel scene boards h
    have hmem := (call_within hends fuel).subset h
    exact hfree (scene, boards) (Beat.mem_entrances.2 hmem)
  exact ⟨hnan, houtcome, returns .rally {} .start hnan⟩

end VisualNovel
