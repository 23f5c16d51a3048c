/-
  Playback that is refused an entry would go on for ever without the check.

  * `Engine.Leads.of_level` and `Engine.Leads.repeats`: sessions that playback cannot tell
    apart lead to the same, so what leads from one of them to another can be repeated;
  * `Session.Begins`: a session at the gate of a scene that was entered, which but for the
    boards is the same each time;
  * `Engine.Laps`: what every node keeps of a call, namely what led there from each of the
    entrances on record;
  * `Calls.runs_forever`: from the entrance that a refused one agrees with on, the nodes and
    the intents of the call are repeated without end.
-/
import VisualNovel.Proofs.Playback.Level
import VisualNovel.Proofs.Playback.Replay
import VisualNovel.Proofs.Playback.Visit
import VisualNovel.Proofs.Playback.Wait

namespace VisualNovel

/-! ## Repetition -/

theorem Piece.eq_run_of_level {p : Piece} {bs : List Beat} {s : Session} {id : NodeId}
    (h : p.level = (Piece.mk bs (.run s id)).level) :
    ∃ as t, p = ⟨as, .run t id⟩ ∧ t.level = s.level ∧ Beat.trail as = Beat.trail bs := by
  obtain ⟨as, turn⟩ := p
  simp only [level, Piece.mk.injEq] at h
  obtain ⟨hbeats, hturn⟩ := h
  have htrail : Beat.trail as = Beat.trail bs := by
    rw [← Beat.trail_map_level, hbeats, Beat.trail_map_level]
  cases turn with
  | run t i =>
    obtain ⟨hsession, rfl⟩ := Turn.run.inj hturn
    exact ⟨as, t, rfl, hsession, htrail⟩
  | rest | fail => cases hturn

namespace Engine
variable {st : Staging} {n : Nat} {s t u : Session} {id i : NodeId} {bs : List Beat}

theorem step_congr (h : s.level = t.level) (id : NodeId) :
    (step st s id).unchecked.level = (step st t id).unchecked.level := by
  rw [← step_level st s, h, step_level]

namespace Leads

/-- Sessions that playback cannot tell apart lead to the same. -/
theorem of_level (h : Leads st n s id bs u i) (hl : t.level = s.level) :
    ∃ v cs, Leads st n t id cs v i ∧ v.level = u.level ∧ Beat.trail cs = Beat.trail bs := by
  induction h generalizing t with
  | refl => exact ⟨t, [], .refl t _, hl, rfl⟩
  | @step _ s _ _ id _ _ as bs runs _ ih =>
    have hstep : (Engine.step st t id).unchecked.level = (Engine.step st s id).unchecked.level :=
      step_congr hl id
    rw [runs] at hstep
    obtain ⟨as', t', hruns, hl', htrail⟩ := Piece.eq_run_of_level hstep
    obtain ⟨v, cs, hleads, hv, htrail'⟩ := ih hl'
    exact ⟨v, as' ++ cs, .step hruns hleads, hv, by simp [htrail, htrail']⟩

/-- What leads to a session that playback cannot tell from the first can be repeated. -/
theorem repeats (h : Leads st n s id bs t id) (hl : t.level = s.level) (k : Nat) :
    ∃ u cs, Leads st (n * k) s id cs u id ∧ u.level = s.level ∧
      Beat.trail cs = (List.replicate k (Beat.trail bs)).flatten := by
  induction k with
  | zero => exact ⟨s, [], .refl s id, rfl, rfl⟩
  | succ k ih =>
    obtain ⟨u, cs, hleads, hu, htrail⟩ := ih
    obtain ⟨v, ds, hlap, hv, hds⟩ := h.of_level hu
    refine ⟨v, cs ++ ds, hleads.trans hlap, hv.trans hl, ?_⟩
    rw [List.replicate_succ', List.flatten_append, Beat.trail_append, htrail, hds]
    simp

end Leads

end Engine

/-! ## Entrances -/

/-- A session with nothing shown, on the scene that is found by its name. -/
structure Session.Fresh (p : Project) (s : Session) : Prop where
  placed : p.scene? s.scene.name = some s.scene
  characters : s.characters = []
  line : s.line = none
  choices : s.choices = []

/-- A fresh session at the gate of its scene, after some entrance. -/
structure Session.Begins (p : Project) (s : Session) (id : NodeId) (e : Entrance) : Prop
    extends s.Fresh p where
  entrance : e = (s.scene.name, s.boards)
  gate : s.scene.entry?.map Node.id = some id
  visited : s.visited = [id]

namespace Session
variable {p : Project} {s t : Session} {id i : NodeId} {d e : Entrance}

theorem level_eq_of_fields (hscene : s.scene = t.scene) (hboards : s.boards.level = t.boards.level)
    (hvisited : s.visited = t.visited) (hcharacters : s.characters = t.characters)
    (hline : s.line = t.line) (hchoices : s.choices = t.choices) : s.level = t.level := by
  have hindex : s.index = t.index := by rw [s.index_eq, t.index_eq, hscene]
  simp [level, *]

theorem Begins.scene_eq (h : s.Begins p id d) (ht : p.scene? t.scene.name = some t.scene)
    (hname : d.1 = t.scene.name) : s.scene = t.scene := by
  rw [h.entrance] at hname
  have hfound : some t.scene = some s.scene := ht.symm.trans (hname ▸ h.placed)
  exact (Option.some.inj hfound).symm

/-- Playback cannot tell sessions apart that begin with entrances that agree. -/
theorem Begins.level_eq (h : s.Begins p id d) (h' : t.Begins p i e) (hr : d.Repeats e) :
    s.level = t.level ∧ id = i := by
  obtain ⟨hname, hagree⟩ := hr
  have hscene : s.scene = t.scene :=
    h.scene_eq h'.placed (hname.trans (congrArg Prod.fst h'.entrance))
  rw [h.entrance, h'.entrance] at hagree
  have hid : id = i := by
    have hgate := h.gate
    rw [hscene, h'.gate] at hgate
    exact (Option.some.inj hgate).symm
  refine ⟨level_eq_of_fields hscene (Boards.level_eq_of_agree hagree) ?_ ?_ ?_ ?_, hid⟩
  · rw [h.visited, h'.visited, hid]
  · rw [h.characters, h'.characters]
  · rw [h.line, h'.line]
  · rw [h.choices, h'.choices]

/-- What begins with the entry of a fresh session. -/
theorem Fresh.begins (h : s.Fresh p) {n : Node} (hn : s.scene.entry? = some n) :
    Begins p { s.noteEntry with visited := [n.id] } n.id (s.scene.name, s.boards) where
  placed := h.placed
  characters := h.characters
  line := h.line
  choices := h.choices
  entrance := rfl
  gate := by
    change s.scene.entry?.map Node.id = _
    rw [hn]
    rfl
  visited := rfl

theorem Fresh.of_open? {st : Staging} (h : open? st.project st.opening = some s) :
    s.Fresh st.project := by
  obtain ⟨scene, hscene, rfl⟩ := Option.map_eq_some_iff.1 h
  exact ⟨Project.scene?_name hscene, rfl, rfl, rfl⟩

end Session

namespace Engine
variable {st : Staging} {s : Session}

/-- The entry of a fresh session that leads to a node begins with its entrance, and records
    it. -/
theorem enterScene_begins {p : Project} {s t : Session} {id : NodeId} (hs : s.Fresh p)
    (h : (enterScene s).turn = .run t id) :
    t.Begins p id (s.scene.name, s.boards) ∧
      t.entries = s.entries ++ [(s.scene.name, s.boards)] := by
  rcases enterScene_outcome s with ⟨-, hfail⟩ | ⟨-, ⟨-, hrest⟩ | ⟨n, hn, hrun⟩⟩
  · rw [hfail] at h
    cases h
  · rw [hrest] at h
    cases h
  · rw [hrun] at h
    obtain ⟨rfl, rfl⟩ := Turn.run.inj h
    exact ⟨hs.begins hn, rfl⟩

/-- A node stays in the scene and records no entrance, or it enters a scene with nothing
    shown. -/
theorem step_fresh (st : Staging) {s : Session} (id : NodeId)
    (h : st.project.scene? s.scene.name = some s.scene) :
    (∃ u, (step st s id).turn.Stays (fun _ => True) u ∧ u.scene = s.scene ∧
      u.entries = s.entries) ∨
    ∃ t told, t.Fresh st.project ∧ t.entries = s.entries ∧
      step st s id = (enterScene t).after (.ran id :: told) := by
  unfold step
  cases s.index.node? s.scene id with
  | none => exact .inl ⟨s, leave_calm.stays.turn, rfl, rfl⟩
  | some n =>
    have heffects := perform_effects st s n
    dsimp only
    generalize perform st s n = piece at heffects ⊢
    cases heffects with
    | calm content calm => exact .inl ⟨s, calm.stays.turn, rfl, rfl⟩
    | writes content calm => exact .inl ⟨_, calm.stays.turn, rfl, rfl⟩
    | restarts content =>
      exact .inr ⟨s.clearPresentation.resetVisited, [.told .sessionStopped],
        ⟨h, rfl, rfl, rfl⟩, rfl, rfl⟩
    | @switches t scene content found =>
      exact .inr ⟨s.moveTo st.project scene st.config.carryBoards,
        [.told .sessionStopped, .told (.switchScene t.scene t.fade)],
        ⟨Project.scene?_name found, rfl, rfl, rfl⟩, rfl, rfl⟩

/-! ## Laps -/

/-- What led to a node from where a call began to run nodes, and from each of the entrances
    on record. -/
structure Laps (st : Staging) (s₀ : Session) (id₀ : NodeId) (bs : List Beat) (s : Session)
    (id : NodeId) : Prop where
  placed : st.project.scene? s.scene.name = some s.scene
  led : ∃ n, Leads st n s₀ id₀ bs s id
  entries : ∀ e ∈ s.entries, ∃ t i n as k cs, t.Begins st.project i e ∧
    Leads st n s₀ id₀ as t i ∧ Leads st k t i cs s id ∧ bs = as ++ cs

/-- Something leads to a node, and something else with a node in it leads from there to the
    same again. -/
def Loops (st : Staging) (s₀ : Session) (id₀ : NodeId) (bs : List Beat) : Prop :=
  ∃ s id n as k cs t i, Leads st n s₀ id₀ as s id ∧ Leads st (k + 1) s id cs t id ∧
    t.level = s.level ∧ .ran i ∈ cs ∧ Beat.trail bs = Beat.trail (as ++ cs)

namespace Laps
variable {s₀ t : Session} {id₀ id i : NodeId} {bs cs : List Beat}

/-- What led to a node leads on to the next one. -/
theorem entries_concat (h : Laps st s₀ id₀ bs s id)
    (hruns : (Engine.step st s id).unchecked = ⟨cs, .run t i⟩) :
    ∀ e ∈ s.entries, ∃ u j n as k ds, u.Begins st.project j e ∧
      Leads st n s₀ id₀ as u j ∧ Leads st k u j ds t i ∧ bs ++ cs = as ++ ds := by
  intro e he
  obtain ⟨u, j, n, as, k, ds, hbegins, hled, hlap, rfl⟩ := h.entries e he
  exact ⟨u, j, n, as, k + 1, ds ++ cs, hbegins, hled, hlap.concat hruns, List.append_assoc ..⟩

theorem step (h : Laps st s₀ id₀ bs s id) (ht : (Engine.step st s id).turn = .run t i) :
    Laps st s₀ id₀ (bs ++ (Engine.step st s id).beats) t i := by
  have hruns : (Engine.step st s id).unchecked = ⟨(Engine.step st s id).beats, .run t i⟩ := by
    rw [Piece.unchecked_eq (by simp [ht]), ← ht]
  obtain ⟨n, hled⟩ := h.led
  have hled' := hled.concat hruns
  have hentries' := h.entries_concat hruns
  rcases step_fresh st id h.placed with
    ⟨u, hstays, hscene, hentries⟩ | ⟨u, told, hfresh, hentries, hstep⟩
  · rw [ht] at hstays
    cases hstays with
    | run kept =>
      refine ⟨?_, ⟨_, hled'⟩, ?_⟩
      · rw [kept.scene, hscene]
        exact h.placed
      · rw [kept.entries, hentries]
        exact hentries'
  · rw [hstep, Piece.turn_after] at ht
    obtain ⟨hbegins, hnoted⟩ := enterScene_begins hfresh ht
    refine ⟨hbegins.placed, ⟨_, hled'⟩, ?_⟩
    intro e he
    rw [hnoted, hentries] at he
    rcases List.mem_append.1 he with he | he
    · exact hentries' e he
    · -- the new entrance, from which nothing has led anywhere yet
      rw [List.mem_singleton.1 he]
      exact ⟨_, _, _, _, 0, [], hbegins, hled', .refl .., (List.append_nil _).symm⟩

/-- An entry that is refused would lead to where an entrance on record led. -/
theorem loops (h : Laps st s₀ id₀ bs s id) {scene : String}
    (ht : (Engine.step st s id).turn = .fail t (.noProgress scene)) :
    Loops st s₀ id₀ (bs ++ (Engine.step st s id).beats) := by
  rcases step_fresh st id h.placed with
    ⟨u, hstays, -, -⟩ | ⟨u, told, hfresh, hentries, hstep⟩
  · rw [ht] at hstays
    cases hstays with
    | fail _ reason => exact absurd rfl (reason scene)
  · rcases enterScene_outcome u with ⟨hrepeated, hfail⟩ | ⟨-, ⟨-, hrest⟩ | ⟨m, -, hrun⟩⟩
    · obtain ⟨d, hd, hrep⟩ := Session.isRepeated_iff.1 hrepeated
      obtain ⟨v, j, n, as, k, cs, hbegins, hled, hlap, rfl⟩ := h.entries d (hentries ▸ hd)
      have hscene : v.scene = u.scene := hbegins.scene_eq hfresh.placed hrep.1
      obtain ⟨m, hm, -⟩ := Option.map_eq_some_iff.1 (hscene ▸ hbegins.gate)
      obtain ⟨hlevel, rfl⟩ := hbegins.level_eq (hfresh.begins hm) hrep
      have hruns : (Engine.step st s id).unchecked =
          ⟨.ran id :: told ++ [.entered u.scene.name u.boards],
            .run { u.noteEntry with visited := [m.id] } m.id⟩ := by
        rw [hstep, Piece.unchecked_after, enterScene_unchecked, enterUnchecked_of_some hm]
        rfl
      refine ⟨v, m.id, n, as, k, _, _, id, hled, hlap.concat hruns, hlevel.symm, by simp, ?_⟩
      rw [hstep, hfail]
      simp [Piece.after, Beat.trail]
    · rw [hstep, Piece.turn_after, hrest] at ht
      cases ht
    · rw [hstep, Piece.turn_after, hrun] at ht
      cases ht

end Laps

/-- What is known of a turn that a call came to by running nodes. -/
def LapsAt (st : Staging) (s₀ : Session) (id₀ : NodeId) (bs : List Beat) : Turn → Prop
  | .run s id => Laps st s₀ id₀ bs s id
  | .fail _ (.noProgress _) => Loops st s₀ id₀ bs
  | _ => True

theorem step_lapsAt {s₀ : Session} {id₀ id : NodeId} {bs : List Beat}
    (h : Laps st s₀ id₀ bs s id) :
    LapsAt st s₀ id₀ (bs ++ (step st s id).beats) (step st s id).turn := by
  cases ht : (step st s id).turn with
  | run t i => exact h.step ht
  | rest => trivial
  | fail t e =>
    cases e with
    | noProgress scene => exact h.loops ht
    | _ => trivial

end Engine

/-! ## Calls -/

namespace Playback
variable {st : Staging} {s : Session} {id : NodeId}

/-- A session that is woken has no entrance on record. -/
theorem StandsAt.entries_eq_nil {p : Playback} {t : Turn} (h : p.StandsAt t)
    (hs : p.session = some s) {w : Wake} {piece : Piece} (ha : p.suspension.accepts w = true)
    (hp : wake? st s p.cursor w = some piece) : s.entries = [] := by
  cases h with
  | run => cases hp
  | fail _ _ _ idle =>
    rcases idle with rfl | ⟨i, rfl⟩
    · cases hp
    · cases hp
  | rest u cursor suspension =>
    cases suspension with
    | wait reason timeout =>
      obtain ⟨v, -, rfl⟩ := Option.map_eq_some_iff.1 hs
      rfl
    | done | idle => cases ha

/-- Where a call begins to run nodes, nothing led from anywhere yet. -/
theorem Heads.laps {cs : Calls} {c : Call} (h : (cs.playback st).Heads st s id c) :
    Engine.Laps st s id [] s id := by
  cases h with
  | @start u opened turn =>
    obtain ⟨hbegins, hnoted⟩ := Engine.enterScene_begins (Session.Fresh.of_open? opened) turn
    have hnone : u.entries = [] := by
      obtain ⟨scene, -, rfl⟩ := Option.map_eq_some_iff.1 opened
      rfl
    refine ⟨hbegins.placed, ⟨0, .refl ..⟩, ?_⟩
    intro e he
    rw [hnoted, hnone] at he
    rw [List.mem_singleton.1 he]
    exact ⟨_, _, 0, [], 0, [], hbegins, .refl .., .refl .., rfl⟩
  | @resume u w piece session accepted made turn =>
    obtain ⟨t, hstands, -⟩ := (awaits_invariant st).holds cs
    have hnone := hstands.entries_eq_nil session accepted made
    have hstays := (wake?_calm made).stays.turn
    rw [turn] at hstays
    cases hstays with
    | run kept =>
      refine ⟨?_, ⟨0, .refl ..⟩, ?_⟩
      · rw [kept.scene]
        exact cs.placed session
      · intro e he
        rw [kept.entries, hnone] at he
        cases he

theorem run_loops (h : Engine.Laps st s id [] s id) {last : Suspension} {fuel : Nat}
    {scene : String} (ho : (run st last fuel s id).outcome = .failed (.noProgress scene)) :
    Engine.Loops st s id (run st last fuel s id).beats := by
  have hstep : ∀ bs t i, Engine.LapsAt st s id bs (.run t i) →
      Engine.LapsAt st s id (bs ++ (Engine.step st t i).beats) (Engine.step st t i).turn :=
    fun bs t i ht => Engine.step_lapsAt ht
  have hlaps : Engine.LapsAt st s id [] (.run s id) := h
  obtain ⟨t, hends, ht⟩ := run_endsIn hstep last fuel hlaps
  rw [hends.outcome] at ho
  cases t with
  | run | rest => cases ho
  | fail u e =>
    obtain rfl := Outcome.failed.inj ho
    exact ht

end Playback

/-- A call that fails for want of progress would go on for ever without the check: after
    what leads to a cycle, it would repeat the nodes and the intents of the cycle without
    end, and no number of nodes would be enough to come to a wait, to the end of a chain of
    nodes, to the end of the session or to another error. -/
theorem Calls.runs_forever {st : Staging} {cs : Calls} {c : Call} {fuel : Nat} {scene : String}
    (h : (report st c fuel cs).outcome = .failed (.noProgress scene)) :
    ∃ lead cycle : List Beat, Beat.trail (report st c fuel cs).beats = lead ++ cycle ∧
      (∃ id, .ran id ∈ cycle) ∧ (∀ reason, .told (.chainEnded reason) ∉ lead ++ cycle) ∧
      (∀ m, (Playback.callUnchecked st m (cs.playback st) c).outcome = .unfinished ∧
        ∃ n, Beat.trail (Playback.callUnchecked st m (cs.playback st) c).beats <+:
          lead ++ (List.replicate n cycle).flatten) ∧
      ∀ n, ∃ m, Beat.trail (Playback.callUnchecked st m (cs.playback st) c).beats =
        lead ++ (List.replicate n cycle).flatten := by
  unfold report at h ⊢
  have hchain : ∀ reason, .told (.chainEnded reason) ∉
      Beat.trail ((cs.playback st).call st fuel c).beats := by
    intro reason hmem
    obtain ⟨pre, post, hbeats⟩ := List.append_of_mem (List.mem_of_mem_filter hmem)
    obtain ⟨-, hdone, -⟩ := Playback.call_closes st fuel (cs.playback st) c hbeats
    cases h.symm.trans hdone
  rcases Playback.call_cases st (cs.playback st) c with
    ⟨s, id, last, bs, hheads, hrun⟩ | ⟨r, hcall, -, hnone⟩
  · rw [hrun] at h hchain ⊢
    obtain ⟨t, i, n, as, k, ds, u, j, hled, hlap, hlevel, hran, htrail⟩ :=
      Playback.run_loops hheads.laps h
    have hbeats : Beat.trail ((Playback.run st last fuel s id).after bs).beats =
        Beat.trail (bs ++ as) ++ Beat.trail ds := by
      simp [Report.after, htrail]
    rw [hbeats] at hchain
    refine ⟨_, _, hbeats, ⟨j, ?_⟩, hchain, ?_, ?_⟩
    · exact List.mem_filter.2 ⟨hran, rfl⟩
    · intro m
      obtain ⟨v, cs, hleads, -, hcs⟩ := hlap.repeats hlevel m
      have hm : m ≤ n + (k + 1) * m :=
        (Nat.le_mul_of_pos_left m k.succ_pos).trans (Nat.le_add_left ..)
      obtain ⟨houtcome, hprefix⟩ := (hled.trans hleads).runUnchecked_of_le last hm
      rw [Playback.callUnchecked_eq_run hrun]
      refine ⟨houtcome, m, ?_⟩
      rw [← hcs, ← Beat.trail_append, List.append_assoc]
      exact Beat.trail_prefix ((List.prefix_append_right_inj bs).2 hprefix)
    · intro m
      obtain ⟨v, cs, hleads, -, hcs⟩ := hlap.repeats hlevel m
      refine ⟨n + (k + 1) * m, ?_⟩
      rw [Playback.callUnchecked_eq_run hrun]
      have hend := (hled.trans hleads).runUnchecked_eq last 0
      rw [Nat.add_zero] at hend
      rw [hend]
      simp [Playback.runUnchecked, Report.after, hcs]
  · exact absurd (hcall fuel ▸ h) (hnone scene)

/-- Relays that pass on to one another without end. -/
theorem Calls.runs_forever_relays :
    (report .relays .start 12 []).outcome = .failed (.noProgress "B") ∧
    ∃ lead cycle : List Beat,
      lead ++ cycle = Beat.relay "A" ++ Beat.relay "B" ++ Beat.relay "A" ++ Beat.relay "B" ∧
      (∃ id, .ran id ∈ cycle) ∧
      (∀ m, (Playback.callUnchecked .relays m {} .start).outcome = .unfinished) ∧
      ∀ n, ∃ m, Beat.trail (Playback.callUnchecked .relays m {} .start).beats =
        lead ++ (List.replicate n cycle).flatten := by
  have h : (report .relays .start 12 []).outcome = .failed (.noProgress "B") :=
    Playback.start_relays.2.2
  have hbeats : Beat.trail (report .relays .start 12 []).beats =
      Beat.relay "A" ++ Beat.relay "B" ++ Beat.relay "A" ++ Beat.relay "B" :=
    congrArg (fun r => Beat.trail r.beats) Playback.call_relays
  obtain ⟨lead, cycle, hsplit, hran, -, hforever, hrepeats⟩ := runs_forever h
  exact ⟨h, lead, cycle, hsplit.symm.trans hbeats, hran, fun m => (hforever m).1, hrepeats⟩

end VisualNovel
