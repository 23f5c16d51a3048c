/-
  Nodes from the time that they are run until they are left.

  * `Playback.Dwells`: a node that was run, the wakes that its waits accepted since, and what
    came of it so far;
  * `Node.exits` are the outputs through which a node is left, `Session.leads?` is where a
    session leads through some outputs;
  * `Engine.Waits` says what nodes wait with, and `Engine.Goes` what comes of a node that is
    run or woken;
  * `Playback.Dwells.goes`: a node waits with where it leads, or it was left for that;
  * `Playback.dwelt_invariant`: whenever playback waits, it does so at a node that it ran.
-/
import VisualNovel.Proofs.Playback.Step
import VisualNovel.Proofs.Playback.Wait
import VisualNovel.Proofs.Scene.Way

namespace VisualNovel

/-! ## Ways out of nodes -/

/-- The outputs through which a node is left, after the wake that ended its wait if it had
    one: for a choice the one that the choice is for, for an answer the one of that answer,
    and otherwise any. -/
def Node.exits (n : Node) (boards : Boards) (w : Option Wake) : List Connector :=
  match n.content, w with
  | .choice choices, some (.choice i) => (choices[i]?.bind fun c => n.outputs[c.output]?).toList
  | .condition c, _ =>
    match (c.answer boards).branch? with
    | some true => n.outputs[0]?.toList
    | some false => n.outputs[1]?.toList
    | none => n.outputs
  | _, _ => n.outputs

namespace Session
variable (s : Session)

/-- Where a session leads through some outputs: to the node that the first connection ends at
    which leaves any of them. -/
def leads? (outputs : List Connector) : Option NodeId :=
  (s.scene.departure? outputs).bind fun c => s.index.owner? c.target

theorem leads?_nil : s.leads? [] = none := by
  have hnone : s.scene.departure? [] = none := List.find?_eq_none.2 fun _ _ => Bool.false_ne_true
  rw [leads?, hnone, Option.bind_none]

theorem successor?_eq_leads? (n : Node) : s.index.successor? n = s.leads? n.outputs := by
  rw [leads?, s.index_eq, ConnectionIndex.successor?_ofScene]
  rfl

theorem follow?_eq_leads? (o : Connector) : s.index.follow? o.id = s.leads? [o] := by
  have hsame : (fun c : Connection => c.source == o.id) =
      fun c => [o].any fun o => decide (o.id = c.source) := by
    funext c
    rw [BEq.comm, List.any_cons, List.any_nil, Bool.or_false]
    rfl
  rw [leads?, s.index_eq, ConnectionIndex.follow?_ofScene, hsame]
  rfl

end Session

/-! ## What nodes wait with -/

/-- What happens while playback stays with a node: no chain of nodes ends, and no choices are
    shown but those of the node. -/
def Beat.Inner (st : Staging) (n : Node) : Beat → Prop
  | told (.chainEnded _) => False
  | told (.showChoices texts) => ∃ choices, n.content = .choice choices ∧
    texts = choices.map fun c => st.config.personalize c.text
  | _ => True

namespace Engine
variable {st : Staging} {s t : Session} {n : Node} {w : Option Wake}

/-- What a node waits with knows where the node leads. -/
inductive Waits (s : Session) (n : Node) : Cursor → Prop where
  | fading {b : Background} (path : String) (fade : Binary64)
    (content : n.content = .background b) :
    Waits s n (.fading n.id path fade (s.leads? n.outputs))
  | line {d : Dialogue} {l : LineCursor} (content : n.content = .dialogue d) (node : l.node = n.id)
    (next : l.next = s.leads? n.outputs) : Waits s n (.line l)
  | choosing {choices : List Choice} (content : n.content = .choice choices) :
    Waits s n (.choosing n.id (choices.map fun c => s.leads? n.outputs[c.output]?.toList))

/-- What comes of a node that is run, or of its wait after a wake: it waits, or it leads on
    through one of its exits, or it is not made as it must be. -/
inductive Goes (st : Staging) (s : Session) (n : Node) (w : Option Wake) : Piece → Prop where
  | waits {bs : List Beat} {t : Session} {cursor : Cursor} {reason : WaitReason}
    {timeout : Option Duration} (inner : ∀ b ∈ bs, b.Inner st n) (scene : t.scene = s.scene)
    (visited : t.visited = s.visited) (holds : Waits s n cursor) :
    Goes st s n w ⟨bs, .rest (some t) cursor (.wait reason timeout)⟩
  | leaves {bs : List Beat} {t : Session} (inner : ∀ b ∈ bs, b.Inner st n)
    (visited : t.visited = s.visited) :
    Goes st s n w ((leave t n.id (s.leads? (n.exits s.boards w))).after bs)
  | fails {bs : List Beat} (inner : ∀ b ∈ bs, b.Inner st n) (t : Session) (e : PlaybackError) :
    Goes st s n w ⟨bs, .fail t e⟩

theorem Goes.after {bs : List Beat} {piece : Piece} (h : Goes st s n w piece)
    (hb : ∀ b ∈ bs, b.Inner st n) : Goes st s n w (piece.after bs) := by
  cases h with
  | waits inner scene visited holds =>
    exact .waits (List.forall_mem_append.2 ⟨hb, inner⟩) scene visited holds
  | @leaves told t inner visited =>
    have happend : ∀ p : Piece, (p.after told).after bs = p.after (bs ++ told) := by
      simp [Piece.after]
    rw [happend]
    exact .leaves (List.forall_mem_append.2 ⟨hb, inner⟩) visited
  | fails inner t e => exact .fails (List.forall_mem_append.2 ⟨hb, inner⟩) t e

/-- A node that waits does so with where it leads. -/
theorem Goes.waits_with {piece : Piece} {u : Option Session} {cursor : Cursor}
    {reason : WaitReason} {timeout : Option Duration} (h : Goes st s n w piece)
    (hw : piece.turn = .rest u cursor (.wait reason timeout)) :
    (∀ b ∈ piece.beats, b.Inner st n) ∧ Waits s n cursor ∧
      ∃ t, u = some t ∧ t.scene = s.scene ∧ t.visited = s.visited := by
  cases h with
  | waits inner scene visited holds =>
    cases hw
    exact ⟨inner, holds, _, rfl, scene, visited⟩
  | @leaves _ t =>
    rcases leave_outcome t n.id (s.leads? (n.exits s.boards w)) with
      ⟨reason, hrest, -⟩ | ⟨i, -, -, hrun⟩
    · rw [Piece.turn_after, hrest] at hw
      cases hw
    · rw [Piece.turn_after, hrun] at hw
      cases hw
  | fails => cases hw

/-! ## Running a node -/

theorem reveal_goes {d : Dialogue} {l : LineCursor} (hc : n.content = .dialogue d)
    (hscene : t.scene = s.scene) (hv : t.visited = s.visited) (hnode : l.node = n.id)
    (hnext : l.next = s.leads? n.outputs) : Goes st s n w (reveal st t l) := by
  unfold reveal
  split
  · exact .waits (by simp [Beat.Inner]) hscene hv (.line hc hnode hnext)
  · exact .waits (by simp [Beat.Inner]) hscene hv (.line hc hnode hnext)

theorem beginLine_goes {d d' : Dialogue} (hc : n.content = .dialogue d)
    (hscene : t.scene = s.scene) (hv : t.visited = s.visited) (l : Line) (rest : List Line) :
    Goes st s n w (beginLine st t n.id d' l rest (s.leads? n.outputs)) := by
  unfold beginLine
  refine (reveal_goes hc hscene hv rfl rfl).after fun b hb => ?_
  obtain ⟨i, hi, rfl⟩ := List.mem_map.1 hb
  cases cues_of_mem hi with
  | sprite | voice => trivial

theorem Goes.leaves_on (hv : t.visited = s.visited) {outputs : List Connector}
    (h : outputs = n.exits s.boards w) :
    Goes st s n w (leave t n.id (s.leads? outputs)) := by
  rw [h]
  exact .leaves (List.forall_mem_nil _) hv

theorem appear_inner (st : Staging) (s : Session) (n : Node) (a : Appearance) :
    ∀ b ∈ (appear st s a).2, b.Inner st n := by
  have hpasses := appear_passes st s a
  revert hpasses
  generalize (appear st s a).1 = t, (appear st s a).2 = bs
  intro hpasses
  cases hpasses with
  | writes => exact nofun
  | shows | hides => simp [Beat.Inner]

theorem background_goes {b : Background} (hc : n.content = .background b) :
    Goes st s n none (background st s n b) := by
  unfold background
  dsimp only
  rw [s.successor?_eq_leads?]
  split
  · exact .leaves_on rfl (by simp only [Node.exits, hc])
  · exact .waits nofun rfl rfl (.fading _ _ hc)

theorem choose_goes {choices : List Choice} (hc : n.content = .choice choices) :
    Goes st s n none (choose st s n choices) := by
  unfold choose
  split
  · exact .fails (List.forall_mem_nil _) ..
  rename_i hlength
  split
  · rename_i hempty
    -- without choices there is no output through which the node could be left
    have hnone : n.outputs = [] := by simp_all
    rw [← s.leads?_nil, ← hnone]
    exact .leaves_on rfl (by simp only [Node.exits, hc])
  split
  · exact .fails (List.forall_mem_nil _) ..
  · rename_i targets ht
    have htargets : targets = choices.map fun c => s.leads? n.outputs[c.output]?.toList := by
      rw [choiceTargets_eq_map ht]
      refine List.map_congr_left fun c _ => ?_
      unfold Node.output?
      cases n.outputs[c.output]? with
      | none => exact s.leads?_nil.symm
      | some o => exact s.follow?_eq_leads? o
    rw [htargets]
    refine .waits (fun b hb => ?_) rfl rfl (.choosing hc)
    rw [List.mem_singleton.1 hb]
    exact ⟨choices, hc, rfl⟩

theorem branch_goes {c : Check} (hc : n.content = .condition c) :
    Goes st s n none (branch s n c) := by
  unfold branch
  split
  · rename_i yes no ho
    cases ha : (c.answer s.boards).branch? with
    | none =>
      rw [s.successor?_eq_leads?]
      exact .leaves_on rfl (by simp only [Node.exits, hc, ha])
    | some answer =>
      cases answer with
      | true =>
        dsimp only
        rw [s.follow?_eq_leads?]
        exact .leaves_on rfl (by simp only [Node.exits, hc, ha, ho]; rfl)
      | false =>
        dsimp only
        rw [s.follow?_eq_leads?]
        exact .leaves_on rfl (by simp only [Node.exits, hc, ha, ho]; rfl)
  · exact .fails (List.forall_mem_nil _) ..

/-- What comes of a node that is run, unless it leads out of the visit of its scene. -/
theorem perform_goes (st : Staging) (s : Session) {n : Node} (hexit : n.content ≠ .state .exit)
    (hscene : ∀ t, n.content ≠ .scene t) : Goes st s n none (perform st s n) := by
  have hsuccessor := s.successor?_eq_leads? n
  unfold perform
  split
  · rename_i hc
    exact absurd hc hexit
  · rename_i b hc
    exact background_goes hc
  · rename_i a hc
    obtain ⟨-, -, -, hv, -⟩ := (appear_passes st s a).keeps
    have hexits : n.outputs = n.exits s.boards none := by simp only [Node.exits, hc]
    rw [hsuccessor]
    exact (Goes.leaves_on hv hexits).after (appear_inner st s n a)
  · rename_i d hc
    rw [hsuccessor]
    split
    · exact .leaves_on rfl (by simp only [Node.exits, hc])
    · exact beginLine_goes hc rfl rfl ..
  · rename_i choices hc
    exact choose_goes hc
  · rename_i c hc
    have hexits : n.outputs = n.exits s.boards none := by simp only [Node.exits, hc]
    rw [hsuccessor]
    refine .leaves_on ?_ hexits
    rfl
  · rename_i c hc
    exact branch_goes hc
  · rename_i t hc
    exact absurd hc (hscene t)
  all_goals
    rename_i hc
    rw [hsuccessor]
    exact .leaves_on rfl (by simp only [Node.exits, hc])

/-- What comes of a wait of a node after a wake. -/
theorem Waits.goes {cursor : Cursor} {w : Wake} {piece : Piece} (h : Waits s n cursor)
    (hscene : t.scene = s.scene) (hv : t.visited = s.visited)
    (hp : Playback.wake? st t cursor w = some piece) : Goes st s n (some w) piece := by
  cases h with
  | fading path fade hc =>
    cases Playback.wake?_answers hp with
    | appears =>
      exact (Goes.leaves_on hv (by simp only [Node.exits, hc])).after (by simp [Beat.Inner])
  | line hc hnode hnext =>
    cases Playback.wake?_answers hp with
    | types | completes => exact reveal_goes hc hscene hv hnode hnext
    | leaves =>
      rw [hnode, hnext]
      exact .leaves_on hv (by simp only [Node.exits, hc])
    | speaks =>
      rw [hnode, hnext]
      exact beginLine_goes hc hscene hv ..
  | @choosing choices hc =>
    cases Playback.wake?_answers hp with
    | @chooses _ i next _ target =>
      rw [List.getElem?_map] at target
      obtain ⟨c, hi, rfl⟩ := Option.map_eq_some_iff.1 target
      have hexits : n.outputs[c.output]?.toList = n.exits s.boards (some (.choice i)) := by
        simp only [Node.exits, hc, hi, Option.bind_some]
      refine .leaves_on ?_ hexits
      exact hv

end Engine

/-! ## Dwelling -/

/-- A node that is run, the wakes that its waits accept from then on, and what comes of it as
    long as no other node is run. -/
inductive Playback.Dwells (st : Staging) (s : Session) (id : NodeId) : List Wake → Report → Prop
    where
  /-- The node is run, and no other. -/
  | runs (last : Suspension) : Dwells st s id [] (run st last 1 s id)
  /-- Its wait accepts a wake. -/
  | wakes {ws : List Wake} {r : Report} {reason : WaitReason} {timeout : Option Duration} (w : Wake)
    (stays : Dwells st s id ws r) (waits : r.outcome = .suspended (.wait reason timeout))
    (accepted : (Suspension.wait reason timeout).accepts w = true) :
    Dwells st s id (ws ++ [w]) ((r.playback.resume st 0 w).after r.beats)

/-- Whether a node was left: another is to be run, or the chain of nodes ended. -/
def Report.Left (r : Report) : Prop :=
  r.outcome = .unfinished ∨ r.outcome = .suspended .done

namespace Playback
variable {st : Staging} {s : Session} {id : NodeId} {ws : List Wake} {r : Report}

theorem run_one (st : Staging) (last : Suspension) (s : Session) (id : NodeId) :
    (run st last 1 s id).EndsIn (Engine.step st s id).turn ∧
      (run st last 1 s id).beats = (Engine.step st s id).beats := by
  unfold run
  dsimp only
  split
  · rename_i t i ht
    rw [ht]
    exact ⟨⟨.run t i last, rfl⟩, List.append_nil _⟩
  · rename_i t cursor suspension ht
    rw [ht]
    exact ⟨⟨.rest t cursor suspension, rfl⟩, rfl⟩
  · rename_i t e ht
    rw [ht]
    exact ⟨⟨.fail t e last (.inr ⟨id, rfl⟩), rfl⟩, rfl⟩

theorem follow_none (st : Staging) (last : Suspension) (piece : Piece) :
    (follow st last 0 piece).EndsIn piece.turn ∧ (follow st last 0 piece).beats = piece.beats := by
  unfold follow
  split
  · rename_i t i ht
    rw [ht]
    exact ⟨⟨.run t i last, rfl⟩, List.append_nil _⟩
  · rename_i t cursor suspension ht
    rw [ht]
    exact ⟨⟨.rest t cursor suspension, rfl⟩, rfl⟩
  · rename_i t e ht
    rw [ht]
    exact ⟨⟨.fail t e last (.inl rfl), rfl⟩, rfl⟩

/-- What holds of a node that is run, and after a wake that a wait accepts if it held before,
    holds of the node until it is left. -/
theorem Dwells.induction {P : List Wake → Piece → Prop} (hruns : P [] (Engine.step st s id))
    (hignores : ∀ ws w bs t cursor reason timeout,
      P ws ⟨bs, .rest t cursor (.wait reason timeout)⟩ →
      P (ws ++ [w]) ⟨bs, .rest t cursor (.wait reason timeout)⟩)
    (hwakes : ∀ ws w bs t cursor reason timeout piece,
      P ws ⟨bs, .rest (some t) cursor (.wait reason timeout)⟩ →
      (Suspension.wait reason timeout).accepts w = true →
      wake? st t.noteWait cursor w = some piece → P (ws ++ [w]) (piece.after bs))
    (h : Dwells st s id ws r) :
    ∃ piece, P ws piece ∧ r.EndsIn piece.turn ∧ r.beats = piece.beats := by
  induction h with
  | runs last =>
    obtain ⟨hends, hbeats⟩ := run_one st last s id
    exact ⟨_, hruns, hends, hbeats⟩
  | @wakes ws r reason timeout w stays waits accepted ih =>
    obtain ⟨⟨bs, turn⟩, hP, ⟨hstands, houtcome⟩, hbeats⟩ := ih
    dsimp only at hstands houtcome hbeats
    obtain ⟨t, cursor, rfl⟩ : ∃ t cursor, turn = .rest t cursor (.wait reason timeout) := by
      rw [houtcome] at waits
      cases turn with
      | run | fail => cases waits
      | rest t cursor suspension =>
        cases waits
        exact ⟨t, cursor, rfl⟩
    rcases hstands.resume_cases st w with
      hresume | ⟨t', cursor', reason', timeout', piece, heq, -, hpiece, hresume⟩
    · rw [hresume]
      refine ⟨_, hignores _ w _ _ _ _ _ hP, ⟨hstands, ?_⟩, ?_⟩
      · generalize r.playback = p at hstands
        cases hstands
        rfl
      · exact (List.append_nil _).trans hbeats
    · cases heq
      rw [hresume]
      obtain ⟨hends, hnext⟩ := follow_none st (.wait reason timeout) piece
      refine ⟨_, hwakes _ w _ _ _ _ _ piece hP accepted hpiece, ⟨hends.stands, hends.outcome⟩, ?_⟩
      rw [Report.after, Piece.after, hnext, hbeats]

/-- A node waits with where it leads, or it was left for that, or it is not made as it must
    be. -/
theorem Dwells.goes {n : Node} (hn : s.index.node? s.scene id = some n)
    (hexit : n.content ≠ .state .exit) (hscene : ∀ t, n.content ≠ .scene t)
    (h : Dwells st s id ws r) :
    ∃ piece, Engine.Goes st s n ws.getLast? piece ∧ r.EndsIn piece.turn ∧
      r.beats = piece.beats := by
  refine h.induction (P := fun ws piece => Engine.Goes st s n ws.getLast? piece) ?_ ?_ ?_
  · rw [Engine.step_eq hn]
    exact (Engine.perform_goes st s hexit hscene).after (by simp [Beat.Inner])
  · intro ws w bs t cursor reason timeout hgoes
    obtain ⟨hinner, hwaits, u, rfl, hu, hv⟩ := hgoes.waits_with rfl
    exact .waits hinner hu hv hwaits
  · intro ws w bs t cursor reason timeout piece hgoes _ hpiece
    obtain ⟨hinner, hwaits, u, ⟨⟩, hu, hv⟩ := hgoes.waits_with rfl
    rw [List.getLast?_concat]
    exact (hwaits.goes (t := t.noteWait) hu hv hpiece).after hinner

end Playback

/-- If a turn comes to rest to wait, then that is the wait of a node that was run, and all
    that happened since is of that node. -/
def Turn.Dwelt (st : Staging) (bs : List Beat) (t : Turn) : Prop :=
  ∀ reason timeout, t.outcome = .suspended (.wait reason timeout) →
    ∃ s id ws r pre, Playback.Dwells st s id ws r ∧ r.EndsIn t ∧ bs = pre ++ r.beats

/-- Whenever playback waits, it does so with a node that was run. -/
theorem Playback.dwelt_invariant (st : Staging) :
    Invariant st fun bs t => t.Awaits ∧ t.Dwelt st bs where
  new := ⟨.idle, nofun⟩
  opens bs s h hs := by
    refine ⟨(awaits_invariant st).opens bs s h.1 hs, fun reason timeout hw => ?_⟩
    rcases Engine.enterScene_outcome s with ⟨-, hfail⟩ | ⟨-, ⟨-, hrest⟩ | ⟨n, -, hrun⟩⟩
    · rw [hfail] at hw
      cases hw
    · rw [hrest] at hw
      cases hw
    · rw [hrun] at hw
      cases hw
  steps bs s id h := by
    refine ⟨(awaits_invariant st).steps bs s id h.1, fun reason timeout hw => ?_⟩
    obtain ⟨hends, hbeats⟩ := run_one st .idle s id
    exact ⟨s, id, [], _, bs, .runs .idle, hends, congrArg _ hbeats.symm⟩
  wakes bs s cursor reason timeout w piece h ha hp := by
    refine ⟨(wake?_answers hp).awaits h.1 ha, fun _ _ hw => ?_⟩
    obtain ⟨s', id, ws, r, pre, hdwells, ⟨hstands, houtcome⟩, rfl⟩ := h.2 _ _ rfl
    have hresume : r.playback.resume st 0 w = follow st (.wait reason timeout) 0 piece := by
      rw [hstands.eq_settle, resume_settle ha hp]
    obtain ⟨hends, hbeats⟩ := follow_none st (.wait reason timeout) piece
    refine ⟨s', id, _, _, pre, hdwells.wakes w houtcome ha, ?_, ?_⟩
    · rw [hresume]
      exact ⟨hends.stands, hends.outcome⟩
    · rw [hresume, Report.after, hbeats, List.append_assoc]
  stops bs t h ht := ⟨.idle, nofun⟩
  rests bs cursor suspension h := by
    cases h.1
    exact ⟨rfl, rfl⟩

end VisualNovel
