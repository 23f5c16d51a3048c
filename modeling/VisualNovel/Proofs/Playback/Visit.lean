/-
  No node is run twice while a scene is visited.

  * `Beat.lately` are the nodes that were run since a scene was entered at last, and
    `Beat.Fits` says which of the nodes may be run;
  * `Turn.Visits`: a session has visited these, and the node that is to be run;
  * `Engine.step_visits` and `Playback.Answers.visits`: nodes and wakes keep to that;
  * `Turn.Closes`: the end of a chain of nodes is the end of the call;
  * `Calls.runs_once`: what comes of both for all calls.
-/
import Mathlib.Data.List.Nodup
import VisualNovel.Proofs.Playback.History

namespace VisualNovel

/-! ## Visits -/

namespace Beat

/-- The nodes that were run since a scene was entered, after one more beat. -/
def visit (ids : List NodeId) : Beat → List NodeId
  | entered .. => []
  | ran id => ids ++ [id]
  | told _ => ids

/-- The nodes that were run since a scene was entered at last. -/
def lately (bs : List Beat) : List NodeId := bs.foldl visit []

/-- The nodes that are run. -/
def rans (bs : List Beat) : List NodeId :=
  bs.filterMap fun
    | ran id => some id
    | _ => none

/-- A node that is run must be new, and one that is said to have been visited must not. -/
def Fits (ids : List NodeId) : Beat → Prop
  | ran id => id ∉ ids
  | told (.chainEnded (.revisited id)) => id ∈ ids
  | _ => True

/-- Beats each of which fits those before it. -/
abbrev Fit : List NodeId → List Beat → Prop := Guarded visit Fits

/-- As long as no scene is entered, only nodes are run that are new, and each of them
    once. -/
theorem Fit.nodup {ids : List NodeId} {bs : List Beat} (h : Fit ids bs)
    (hb : entrances bs = []) : (rans bs).Nodup ∧ ∀ id ∈ rans bs, id ∉ ids := by
  induction bs generalizing ids with
  | nil => exact ⟨.nil, fun _ => nofun⟩
  | cons b bs ih =>
    cases b with
    | entered => cases hb
    | told => exact ih h.2 hb
    | ran id =>
      obtain ⟨hnodup, hnew⟩ := ih h.2 hb
      refine ⟨List.nodup_cons.2 ⟨fun hid => ?_, hnodup⟩, fun i hi => ?_⟩
      · exact hnew id hid (List.mem_append_right _ (List.mem_singleton_self id))
      · rcases List.mem_cons.1 hi with rfl | hi
        · exact h.1
        · exact fun hids => hnew i hi (List.mem_append_left _ hids)

end Beat

/-- A turn after some nodes were run since a scene was entered: these are visited, and the
    one that is to be run, which is new. -/
inductive Turn.Visits (ids : List NodeId) : Turn → Prop where
  | run {s : Session} {id : NodeId} (visited : s.visited = ids ++ [id]) (new : id ∉ ids) :
    Visits ids (.run s id)
  | rest {s : Session} {cursor : Cursor} {suspension : Suspension} (visited : s.visited = ids)
    (waits : ∀ id, cursor ≠ .atNode id) : Visits ids (.rest (some s) cursor suspension)
  | idle : Visits ids (.rest none .none .idle)
  | fail (s : Session) (e : PlaybackError) : Visits ids (.fail s e)

/-- A piece of playback after some nodes were run since a scene was entered. -/
structure Piece.Visits (ids : List NodeId) (piece : Piece) : Prop where
  fit : Beat.Fit ids piece.beats
  turn : piece.turn.Visits (piece.beats.foldl Beat.visit ids)

theorem Piece.Visits.after {ids : List NodeId} {told : List Beat} {piece : Piece}
    (h : piece.Visits (told.foldl Beat.visit ids)) (ht : Beat.Fit ids told) :
    (piece.after told).Visits ids := by
  refine ⟨ht.append h.fit, ?_⟩
  rw [Piece.after, List.foldl_append]
  exact h.turn

/-- What happened before, and then a piece of playback. -/
theorem Piece.Visits.append {bs : List Beat} {piece : Piece} (h : piece.Visits (Beat.lately bs))
    (hb : Beat.Fit [] bs) :
    Beat.Fit [] (bs ++ piece.beats) ∧ piece.turn.Visits (Beat.lately (bs ++ piece.beats)) := by
  refine ⟨hb.append h.fit, ?_⟩
  rw [Beat.lately, List.foldl_append]
  exact h.turn

namespace Engine
variable {st : Staging} {s : Session} {ids : List NodeId}

theorem enterScene_visits (h : s.visited = []) : (enterScene s).Visits ids := by
  rcases enterScene_outcome s with ⟨-, hfail⟩ | ⟨-, ⟨-, hrest⟩ | ⟨n, -, hrun⟩⟩
  · rw [hfail]
    exact ⟨trivial, .fail ..⟩
  · rw [hrest]
    exact ⟨⟨trivial, trivial, trivial⟩, .rest h nofun⟩
  · rw [hrun]
    exact ⟨⟨trivial, trivial⟩, .run rfl List.not_mem_nil⟩

theorem leave_visits (h : s.visited = ids) (node : NodeId) (next : Option NodeId) :
    (leave s node next).Visits ids := by
  rcases leave_outcome s node next with ⟨reason, hrest, hreason⟩ | ⟨n, -, hn, hrun⟩
  · rw [hrest]
    refine ⟨⟨?_, trivial⟩, .rest h nofun⟩
    rcases hreason with ⟨-, rfl⟩ | ⟨n, hn, -, rfl⟩
    · trivial
    · exact h ▸ hn
  · rw [hrun]
    exact ⟨trivial, .run (h ▸ rfl) (h ▸ hn)⟩

theorem reveal_visits (h : s.visited = ids) (l : LineCursor) : (reveal st s l).Visits ids := by
  rcases reveal_outcome st s l with ⟨-, hshow⟩ | ⟨-, text, htype⟩
  · rw [hshow]
    exact ⟨⟨trivial, trivial⟩, .rest h nofun⟩
  · rw [htype]
    exact ⟨⟨trivial, trivial⟩, .rest h nofun⟩

/-- No node is run and none is entered with the cues of a line. -/
theorem Cues.fit {told : List Intent} (h : ∀ i ∈ told, Cues s i) (ids : List NodeId) :
    Beat.Fit ids (told.map .told) ∧ (told.map Beat.told).foldl Beat.visit ids = ids := by
  induction told with
  | nil => exact ⟨trivial, rfl⟩
  | cons i told ih =>
    obtain ⟨hfit, hids⟩ := ih fun j hj => h j (List.mem_cons_of_mem _ hj)
    refine ⟨⟨?_, hfit⟩, hids⟩
    cases h i List.mem_cons_self with
    | sprite | voice => trivial

theorem beginLine_visits (h : s.visited = ids) (node : NodeId) (d : Dialogue) (l : Line)
    (rest : List Line) (next : Option NodeId) :
    (beginLine st s node d l rest next).Visits ids := by
  obtain ⟨told, l', hcues, -, hline⟩ := beginLine_outcome st s node d l rest next
  obtain ⟨hfit, hids⟩ := Cues.fit hcues ids
  rw [hline]
  refine Piece.Visits.after ?_ hfit
  rw [hids]
  exact reveal_visits h l'

/-- What a node does before it leads on visits nothing. -/
theorem Passes.fit {t : Session} {told : List Beat} (h : Passes s told t) (ids : List NodeId) :
    Beat.Fit ids told ∧ told.foldl Beat.visit ids = ids ∧ t.visited = s.visited := by
  cases h with
  | writes => exact ⟨trivial, rfl, rfl⟩
  | hides => exact ⟨⟨trivial, trivial⟩, rfl, rfl⟩
  | shows =>
    refine ⟨⟨trivial, trivial⟩, rfl, ?_⟩
    rw [Session.showCharacter]
    split
    · rfl
    · rfl

theorem step_visits (st : Staging) {id : NodeId} (h : s.visited = ids ++ [id]) (hnew : id ∉ ids) :
    (step st s id).Visits ids := by
  obtain ⟨piece, hacts, hstep⟩ := step_acts st s id
  rw [hstep]
  refine Piece.Visits.after ?_ ⟨hnew, trivial⟩
  change piece.Visits (ids ++ [id])
  rw [← h]
  cases hacts with
  | leaves passed =>
    obtain ⟨hfit, hids, hvisited⟩ := passed.fit s.visited
    refine Piece.Visits.after ?_ hfit
    rw [hids]
    exact leave_visits hvisited ..
  | fades => exact ⟨trivial, .rest rfl nofun⟩
  | speaks => exact beginLine_visits rfl ..
  | offers => exact ⟨⟨trivial, trivial⟩, .rest rfl nofun⟩
  | fails => exact ⟨trivial, .fail ..⟩
  | restarts => exact (enterScene_visits rfl).after ⟨trivial, trivial⟩
  | ends => exact ⟨⟨trivial, trivial⟩, .idle⟩
  | switches => exact (enterScene_visits rfl).after ⟨trivial, trivial, trivial⟩
  | strays => exact ⟨⟨trivial, trivial⟩, .rest rfl nofun⟩

end Engine

namespace Playback
variable {st : Staging}

theorem Answers.visits {s : Session} {cursor : Cursor} {w : Wake} {piece : Piece}
    (h : Answers st s cursor w piece) : piece.Visits s.visited := by
  cases h with
  | appears => exact (Engine.leave_visits rfl ..).after ⟨trivial, trivial⟩
  | types | completes => exact Engine.reveal_visits rfl _
  | leaves => exact Engine.leave_visits rfl ..
  | speaks => exact Engine.beginLine_visits rfl ..
  | chooses => exact Engine.leave_visits (s := { s with choices := [] }) rfl ..

/-- A session has visited at all times what was run since a scene was entered, and no node
    was run again. -/
theorem visits_invariant (st : Staging) : Invariant st fun bs t =>
    Beat.Fit [] bs ∧ t.Visits (Beat.lately bs) where
  new := ⟨trivial, .idle⟩
  opens bs s h hs := by
    obtain ⟨scene, -, rfl⟩ := Option.map_eq_some_iff.1 hs
    exact (Engine.enterScene_visits rfl).append h.1
  steps bs s id h := by
    obtain ⟨hfit, hvisits⟩ := h
    cases hvisits with
    | run visited new => exact (Engine.step_visits st visited new).append hfit
  wakes bs s cursor reason timeout w piece h _ hpiece := by
    obtain ⟨hfit, hvisits⟩ := h
    cases hvisits with
    | rest visited waits =>
      have hpiece' : piece.Visits (Beat.lately bs) := visited ▸ (wake?_answers hpiece).visits
      exact hpiece'.append hfit
  stops bs t h _ := ⟨h.1.append ⟨trivial, trivial⟩, .idle⟩
  rests bs cursor suspension h := by
    obtain ⟨-, hvisits⟩ := h
    cases hvisits
    exact ⟨rfl, rfl⟩

end Playback

/-! ## Ends of chains -/

/-- The reasons for which chains of nodes end. -/
def Beat.chainEnds (bs : List Beat) : List ChainEnd :=
  bs.filterMap fun
    | told (.chainEnded reason) => some reason
    | _ => none

theorem Beat.chainEnds_append (as bs : List Beat) :
    chainEnds (as ++ bs) = chainEnds as ++ chainEnds bs := List.filterMap_append

/-- If a chain of nodes ends in what happens up to a turn, then that is the last of it. -/
inductive Turn.Closes : List Beat → Turn → Prop where
  | goes {bs : List Beat} (t : Turn) (on : Beat.chainEnds bs = []) : Closes bs t
  | ends (bs : List Beat) (reason : ChainEnd) (s : Session) (on : Beat.chainEnds bs = []) :
    Closes (bs ++ [.told (.chainEnded reason)]) (.rest (some s) .none .done)

theorem Turn.Closes.append {as bs : List Beat} {t : Turn} (h : t.Closes bs)
    (ha : Beat.chainEnds as = []) : t.Closes (as ++ bs) := by
  cases h with
  | goes t on => exact .goes t (by rw [Beat.chainEnds_append, ha, on]; rfl)
  | ends bs reason s on =>
    rw [← List.append_assoc]
    exact .ends (as ++ bs) reason s (by rw [Beat.chainEnds_append, ha, on]; rfl)

theorem Beat.chainEnds_ne_nil (pre post : List Beat) (reason : ChainEnd) :
    chainEnds (pre ++ told (.chainEnded reason) :: post) ≠ [] := by
  rw [chainEnds_append]
  exact List.append_ne_nil_of_right_ne_nil _ (List.cons_ne_nil _ _)

/-- Nothing comes after the end of a chain. -/
theorem Turn.Closes.eq_nil {pre post : List Beat} {reason : ChainEnd} {t : Turn}
    (h : t.Closes (pre ++ .told (.chainEnded reason) :: post)) :
    post = [] ∧ ∃ s, t = .rest (some s) .none .done := by
  generalize hbs : pre ++ .told (.chainEnded reason) :: post = bs at h
  cases h with
  | goes t on => exact absurd (hbs ▸ on) (Beat.chainEnds_ne_nil pre post reason)
  | ends bs reason' s on =>
    rcases List.eq_nil_or_concat post with rfl | ⟨post, b, rfl⟩
    · exact ⟨rfl, s, rfl⟩
    · -- otherwise a chain would have ended before
      have hsplit : (pre ++ .told (.chainEnded reason) :: post) ++ [b] =
          bs ++ [.told (.chainEnded reason')] := by simpa using hbs
      have hbefore := (List.append_inj' hsplit rfl).1
      exact absurd (hbefore ▸ on) (Beat.chainEnds_ne_nil pre post reason)

/-- If a chain of nodes ends in a piece of playback, then at its end. -/
def Piece.Closes (piece : Piece) : Prop := piece.turn.Closes piece.beats

theorem Piece.Closes.after {told : List Beat} {piece : Piece} (h : piece.Closes)
    (ht : Beat.chainEnds told = []) : (piece.after told).Closes := Turn.Closes.append h ht

namespace Engine
variable {st : Staging} {s : Session}

theorem enterScene_closes (s : Session) : (enterScene s).Closes := by
  rcases enterScene_outcome s with ⟨-, hfail⟩ | ⟨-, ⟨-, hrest⟩ | ⟨n, -, hrun⟩⟩
  · rw [hfail]
    exact .goes _ rfl
  · rw [hrest]
    exact .ends [_] .noEntry _ rfl
  · rw [hrun]
    exact .goes _ rfl

theorem leave_closes (s : Session) (node : NodeId) (next : Option NodeId) :
    (leave s node next).Closes := by
  rcases leave_outcome s node next with ⟨reason, hrest, -⟩ | ⟨n, -, -, hrun⟩
  · rw [hrest]
    exact .ends [] reason s rfl
  · rw [hrun]
    exact .goes _ rfl

theorem reveal_closes (l : LineCursor) : (reveal st s l).Closes := by
  rcases reveal_outcome st s l with ⟨-, hshow⟩ | ⟨-, text, htype⟩
  · rw [hshow]
    exact .goes _ rfl
  · rw [htype]
    exact .goes _ rfl

theorem beginLine_closes (node : NodeId) (d : Dialogue) (l : Line) (rest : List Line)
    (next : Option NodeId) : (beginLine st s node d l rest next).Closes := by
  obtain ⟨told, l', hcues, -, hline⟩ := beginLine_outcome st s node d l rest next
  rw [hline]
  refine (reveal_closes l').after ?_
  rw [Beat.chainEnds, List.filterMap_eq_nil_iff]
  intro b hb
  obtain ⟨i, hi, rfl⟩ := List.mem_map.1 hb
  cases hcues i hi with
  | sprite | voice => rfl

theorem step_closes (st : Staging) (s : Session) (id : NodeId) : (step st s id).Closes := by
  obtain ⟨piece, hacts, hstep⟩ := step_acts st s id
  rw [hstep]
  refine Piece.Closes.after ?_ rfl
  cases hacts with
  | leaves passed =>
    cases passed with
    | writes | shows | hides => exact (leave_closes ..).after rfl
  | fades | offers | fails | ends => exact .goes _ rfl
  | speaks => exact beginLine_closes ..
  | restarts | switches => exact (enterScene_closes _).after rfl
  | strays name => exact .ends [] (.missingScene name) s rfl

end Engine

namespace Playback
variable {st : Staging}

theorem Answers.closes {s : Session} {cursor : Cursor} {w : Wake} {piece : Piece}
    (h : Answers st s cursor w piece) : piece.Closes := by
  cases h with
  | appears => exact (Engine.leave_closes ..).after rfl
  | types | completes => exact Engine.reveal_closes _
  | leaves | chooses => exact Engine.leave_closes ..
  | speaks => exact Engine.beginLine_closes ..

theorem follow_closes {piece : Piece} (h : piece.Closes) (last : Suspension) (fuel : Nat) :
    ∃ t, (follow st last fuel piece).EndsIn t ∧ t.Closes (follow st last fuel piece).beats := by
  have hstep : ∀ bs s id, Turn.Closes bs (.run s id) →
      (Engine.step st s id).turn.Closes (bs ++ (Engine.step st s id).beats) := by
    intro bs s id hrun
    cases hrun with
    | goes t on => exact (Engine.step_closes st s id).append on
  have hpiece : piece.turn.Closes ([] ++ piece.beats) := h
  exact follow_endsIn hstep last fuel hpiece

theorem chainEnds_stop (p : Playback) : Beat.chainEnds p.stop.2 = [] := by
  rw [stop]
  split
  · rfl
  · rfl

/-- The end of a chain is the last that happens in a call. -/
theorem call_closes (st : Staging) (fuel : Nat) (p : Playback) (c : Call) {pre post : List Beat}
    {reason : ChainEnd} (h : (p.call st fuel c).beats = pre ++ .told (.chainEnded reason) :: post) :
    post = [] ∧ (p.call st fuel c).outcome = .suspended .done ∧
      ∃ s, (p.call st fuel c).playback = settle (some s) .none .done := by
  have hends {r : Report} {t : Turn} (he : r.EndsIn t) (hc : t.Closes r.beats)
      (hr : r.beats = pre ++ .told (.chainEnded reason) :: post) :
      post = [] ∧ r.outcome = .suspended .done ∧ ∃ s, r.playback = settle (some s) .none .done := by
    obtain ⟨hpost, s, rfl⟩ := Turn.Closes.eq_nil (hr ▸ hc)
    obtain ⟨playback, beats, outcome⟩ := r
    obtain ⟨hstands, houtcome⟩ := he
    cases hstands
    exact ⟨hpost, houtcome, s, rfl⟩
  have hnone (hb : Beat.chainEnds (p.call st fuel c).beats = []) : False :=
    Beat.chainEnds_ne_nil pre post reason (h ▸ hb)
  cases c with
  | stop => exact (hnone p.chainEnds_stop).elim
  | start =>
    rw [call] at h hnone ⊢
    rcases start_cases st p with ⟨-, hp⟩ | ⟨s, -, hp⟩
    · rw [hp] at hnone
      exact (hnone p.chainEnds_stop).elim
    · rw [hp] at h ⊢
      obtain ⟨t, he, hc⟩ := follow_closes (Engine.enterScene_closes s) p.stop.1.suspension fuel
      exact hends ⟨he.stands, he.outcome⟩ (hc.append p.chainEnds_stop) h
  | resume w =>
    rw [call] at h hnone ⊢
    rcases resume_cases st p w with hp | ⟨s, piece, -, -, hpiece, hp⟩
    · rw [hp] at hnone
      exact (hnone rfl).elim
    · rw [hp] at h ⊢
      obtain ⟨t, he, hc⟩ := follow_closes (wake?_answers hpiece).closes p.suspension fuel
      exact hends he hc h

end Playback

/-! ## Calls -/

/-- The node that is to be run. -/
def Cursor.ahead : Cursor → List NodeId
  | atNode id => [id]
  | _ => []

/-- A call that ends because a node leads to one that was visited, after something else
    happened. -/
def Report.revisiting (s : Session) (told : List Beat) (n : NodeId) : Report where
  playback := .settle (some s) .none .done
  beats := told ++ [.told (.chainEnded (.revisited n))]
  outcome := .suspended .done

namespace Playback
variable {st : Staging} {p : Playback} {s : Session} {node n : NodeId}

/-- As long as no call fails, a session has visited what was run, and what is to be run. -/
theorem StandsAt.visited {t : Turn} {ids : List NodeId} (h : p.StandsAt t) (ht : t.Visits ids)
    (hfail : ∀ e, t.outcome ≠ .failed e) (hs : p.session = some s) :
    s.visited = ids ++ p.cursor.ahead := by
  cases ht with
  | run visited new =>
    cases h
    cases hs
    exact visited
  | @rest _ cursor suspension visited waits =>
    cases h
    have hahead : cursor.ahead = [] := by
      cases cursor with
      | atNode id => exact absurd rfl (waits id)
      | none | fading | line | choosing => rfl
    rcases settle_session hs with rfl | rfl
    · rw [visited, settle, hahead, List.append_nil]
    · rw [settle, hahead, List.append_nil, ← visited]
      rfl
  | idle =>
    cases h
    cases hs
  | fail s e => exact absurd rfl (hfail e)

theorem follow_revisiting (h : n ∈ s.visited) (told : List Beat) (last : Suspension)
    (fuel : Nat) :
    follow st last fuel ((Engine.leave s node (some n)).after told) = .revisiting s told n := by
  rw [Engine.leave, if_pos (Session.hasVisited_iff.2 h)]
  rfl

theorem run_revisiting (h : n ∈ s.visited) {told : List Beat} {t : Session} {id : NodeId}
    (ht : Engine.step st t id = (Engine.leave s node (some n)).after told) (last : Suspension)
    (fuel : Nat) : run st last (fuel + 1) t id = .revisiting s told n := by
  rw [run, ht, Engine.leave, if_pos (Session.hasVisited_iff.2 h)]
  rfl

end Playback

/-- Between two entries no node is run twice.  As long as no call fails, a session has
    visited what was run since the latest entry and the node that is to be run.  A call in
    which a node is said to have been visited ends with that, and that node was run since the
    latest entry; and so ends every call in which a node or a wake leads to a node that was
    visited. -/
theorem Calls.runs_once (st : Staging) (cs : Calls) :
    (∀ pre mid post, cs.beats st = pre ++ mid ++ post → Beat.entrances mid = [] →
      (Beat.rans mid).Nodup) ∧
    (cs.Smooth st → ∀ s, (cs.playback st).session = some s →
      s.visited = Beat.lately (cs.beats st) ++ (cs.playback st).cursor.ahead) ∧
    (∀ c fuel pre n post, (report st c fuel cs).beats =
        pre ++ .told (.chainEnded (.revisited n)) :: post →
      n ∈ Beat.lately (cs.beats st ++ pre) ∧ post = [] ∧
        (report st c fuel cs).outcome = .suspended .done ∧
        ∃ s, (report st c fuel cs).playback = .settle (some s) .none .done) ∧
    ∀ s node n told, n ∈ s.visited → ∀ last fuel,
      Playback.follow st last fuel ((Engine.leave s node (some n)).after told) =
        .revisiting s told n ∧
      ∀ t id, Engine.step st t id = (Engine.leave s node (some n)).after told →
        Playback.run st last (fuel + 1) t id = .revisiting s told n := by
  refine ⟨fun pre mid post hsplit hmid => ?_, fun hsm s hs => ?_,
    fun c fuel pre n post h => ?_, fun s node n told hn last fuel => ?_⟩
  · obtain ⟨t, -, ⟨hfit, -⟩, -⟩ := (Playback.visits_invariant st).holds cs
    rw [hsplit, List.append_assoc] at hfit
    exact (Beat.Fit.nodup hfit.of_append.2.of_append.1 hmid).1
  · obtain ⟨t, hp, ⟨-, hvisits⟩, -, hfail⟩ := (Playback.visits_invariant st).holds cs
    exact hp.visited hvisits (hfail hsm) hs
  · obtain ⟨t, -, ⟨hfit, -⟩, -⟩ := (Playback.visits_invariant st).holds ((c, fuel) :: cs)
    rw [beats, h, ← List.append_assoc] at hfit
    exact ⟨hfit.allows, Playback.call_closes st fuel (cs.playback st) c h⟩
  · exact ⟨Playback.follow_revisiting hn told last fuel,
      fun t id ht => Playback.run_revisiting hn ht last fuel⟩

/-- The gate and the choice are run, and they are visited. -/
theorem Calls.runs_once_prompt :
    Smooth .prompt [(.start, 2)] ∧
    Beat.lately (beats .prompt [(.start, 2)]) = [⟨⟨0⟩⟩, ⟨⟨2⟩⟩] ∧
    ∃ s, (playback .prompt [(.start, 2)]).session = some s ∧ s.visited = [⟨⟨0⟩⟩, ⟨⟨2⟩⟩] := by
  obtain ⟨s, -, hp, hbeats⟩ := reached_prompt
  have hlately : Beat.lately (beats .prompt [(.start, 2)]) = [⟨⟨0⟩⟩, ⟨⟨2⟩⟩] := by
    rw [hbeats]
    rfl
  have hvisited := (runs_once .prompt [(.start, 2)]).2.1 smooth_prompt
  rw [hlately] at hvisited
  rw [hp] at hvisited ⊢
  exact ⟨smooth_prompt, hlately, s.noteWait, rfl, hvisited _ rfl⟩

end VisualNovel
