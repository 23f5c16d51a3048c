/-
  The boards of a session are what the changes that were made in it make of the boards of
  the project.

  * `Boards.replay` makes changes in order;
  * a `Ledger` is what an observer of the beats knows: which scene is played, and which
    changes were made since the session was opened and since the scene was moved to;
  * `Ledger.Fits`: the boards of a session are the replay of its ledger, which every node
    and every wake keeps;
  * `Calls.boards_eq_replay`: so it is after all calls.
-/
import VisualNovel.Proofs.Board.Range
import VisualNovel.Proofs.Playback.Cycle
import VisualNovel.Proofs.Playback.Effect
import VisualNovel.Proofs.Playback.History

namespace VisualNovel

/-! ## Boards -/

/-- Makes changes, one after the other. -/
def Boards.replay (bs : Boards) (cs : List Change) : Boards :=
  cs.foldl (fun bs c => (c.apply bs).1) bs

theorem Boards.replay_concat (bs : Boards) (cs : List Change) (c : Change) :
    bs.replay (cs ++ [c]) = (c.apply (bs.replay cs)).1 := by
  rw [replay, replay, List.foldl_append]
  rfl

/-- A board without its values: its name, its identity and the keys of its entries, kind
    by kind. -/
def Board.outline (b : Board) : String × Int32 × List (List String) :=
  (b.name, b.id, [b.strings, b.floats, b.booleans].map fun es => es.map Entry.key)

theorem List.map_eq_map_of_forall₂ {α β γ : Type} {R : α → β → Prop} {f : α → γ} {g : β → γ}
    (hR : ∀ a b, R a b → g b = f a) {as : List α} {bs : List β} (h : List.Forall₂ R as bs) :
    bs.map g = as.map f := by
  induction h with
  | nil => rfl
  | cons hab _ ih => rw [List.map_cons, List.map_cons, hR _ _ hab, ih]

theorem Board.Within.outline_eq {texts : List String} {a b : Board} (h : a.Within texts b) :
    b.outline = a.outline := by
  have keys (kind : RegisterKind) :
      (b.entries kind).map Entry.key = (a.entries kind).map Entry.key :=
    List.map_eq_map_of_forall₂ (fun _ _ he => he.key) (h.entries kind)
  have hstrings : b.strings.map Entry.key = a.strings.map Entry.key := keys .string
  have hfloats : b.floats.map Entry.key = a.floats.map Entry.key := keys .float
  have hbooleans : b.booleans.map Entry.key = a.booleans.map Entry.key := keys .boolean
  simp only [outline, h.name, h.id, List.map_cons, List.map_nil, hstrings, hfloats, hbooleans]

/-- Changes write values only. -/
theorem Boards.map_outline_replay (bs : Boards) (cs : List Change) :
    (bs.replay cs).map Board.outline = bs.map Board.outline := by
  induction cs using List.reverseRecOn with
  | nil => rfl
  | append_singleton cs c ih =>
    have hwithin : (bs.replay cs).Within [c.literal] (c.apply (bs.replay cs)).1 :=
      (Within.refl _).apply List.mem_cons_self
    rw [replay_concat, ← ih]
    exact List.map_eq_map_of_forall₂ (fun _ _ hb => hb.outline_eq) hwithin

/-! ## Ledgers -/

/-- The change that is made by a node of a scene; of nodes of one identity the last one
    counts. -/
def Scene.change? (s : Scene) (id : NodeId) : Option Change :=
  (s.nodes.reverse.find? fun n => n.id == id).bind fun n =>
    match n.content with
    | .event c => some c
    | _ => none

/-- What an observer knows of a session. -/
structure Ledger where
  /-- The scene that is played. -/
  scene : Option Scene
  /-- The changes made since the session was opened, in order. -/
  sinceOpened : List Change := []
  /-- The changes made since the session was opened or moved to another scene, whichever
      was later. -/
  sinceMoved : List Change := []

namespace Ledger

/-- The ledger of a session that is opened. -/
def opened (st : Staging) : Ledger where
  scene := st.project.scene? st.opening

/-- Takes a beat down. -/
def note (p : Project) (l : Ledger) : Beat → Ledger
  | .ran id =>
    let made := (l.scene.bind fun scene => scene.change? id).toList
    { l with sinceOpened := l.sinceOpened ++ made, sinceMoved := l.sinceMoved ++ made }
  | .told (.switchScene scene _) => { l with scene := p.scene? scene, sinceMoved := [] }
  | _ => l

/-- The changes that count for the boards. -/
def changes (c : Config) (l : Ledger) : List Change :=
  if c.carryBoards then l.sinceOpened else l.sinceMoved

/-- A session that plays the scene of a ledger with the boards that its changes make. -/
structure Fits (st : Staging) (l : Ledger) (s : Session) : Prop where
  scene : l.scene = some s.scene
  boards : s.boards = st.project.boards.replay (l.changes st.config)

end Ledger

/-- The ledger with which a call begins: a new one if it is a start. -/
def Call.ledger (st : Staging) (l : Ledger) : Call → Ledger
  | start => .opened st
  | resume _ | stop => l

/-- The ledger after all calls. -/
def Calls.ledger (st : Staging) : Calls → Ledger
  | [] => .opened st
  | (c, fuel) :: cs =>
    (report st c fuel cs).beats.foldl (Ledger.note st.project) (c.ledger st (ledger st cs))

/-- The session after a turn. -/
def Turn.session? : Turn → Option Session
  | run s _ | fail s _ => some s
  | rest s .. => s

namespace Ledger
variable {st : Staging} {l : Ledger} {s t : Session}

theorem Fits.of_keeps (h : l.Fits st s) (hk : s.Keeps t) : l.Fits st t :=
  ⟨hk.scene ▸ h.scene, hk.boards.trans h.boards⟩

theorem fits_opened (h : Session.open? st.project st.opening = some s) :
    (opened st).Fits st s := by
  obtain ⟨scene, hscene, rfl⟩ := Option.map_eq_some_iff.1 h
  refine ⟨hscene, ?_⟩
  rw [changes]
  split <;> rfl

/-- What is calm leaves a ledger as it is. -/
theorem foldl_note_of_calm (p : Project) {bs : List Beat} (h : ∀ b ∈ bs, b.isCalm = true) :
    bs.foldl (note p) l = l := by
  induction bs with
  | nil => rfl
  | cons b bs ih =>
    have hb : note p l b = l := by
      have hcalm := h b List.mem_cons_self
      cases b with
      | entered | ran => cases hcalm
      | told i =>
        cases i with
        | switchScene => cases hcalm
        | _ => rfl
    rw [List.foldl_cons, hb, ih fun c hc => h c (List.mem_cons_of_mem _ hc)]

/-- The session of a turn fits the ledger with the beats that led to it. -/
def FitsAfter (st : Staging) (l : Ledger) (bs : List Beat) (t : Turn) : Prop :=
  ∀ s, t.session? = some s → (bs.foldl (note st.project) l).Fits st s

theorem FitsAfter.append {told bs : List Beat} {t : Turn}
    (h : FitsAfter st (told.foldl (note st.project) l) bs t) :
    FitsAfter st l (told ++ bs) t := by
  intro s hs
  rw [List.foldl_append]
  exact h s hs

theorem Fits.calm (h : l.Fits st s) {p : Piece} (hp : p.Calm s) :
    FitsAfter st l p.beats p.turn := by
  intro t ht
  rw [foldl_note_of_calm _ hp.beats]
  have hturn := hp.stays.turn
  generalize p.turn = turn at hturn ht
  cases hturn with
  | run kept | fail kept => exact h.of_keeps (Option.some.inj ht ▸ kept)
  | rest kept => exact h.of_keeps (kept t ht)

theorem Fits.enterScene (h : l.Fits st s) :
    FitsAfter st l (Engine.enterScene s).beats (Engine.enterScene s).turn := by
  intro t ht
  rcases Engine.enterScene_outcome s with ⟨-, hfail⟩ | ⟨-, ⟨-, hrest⟩ | ⟨n, -, hrun⟩⟩
  · rw [hfail] at ht ⊢
    obtain rfl := Option.some.inj ht
    exact h
  · rw [hrest] at ht ⊢
    obtain rfl := Option.some.inj ht
    exact ⟨h.scene, h.boards⟩
  · rw [hrun] at ht ⊢
    obtain rfl := Option.some.inj ht
    exact ⟨h.scene, h.boards⟩

/-- A move to another scene fits a ledger that takes it down. -/
theorem Fits.moveTo (h : l.Fits st s) {scene : Scene} {name : String}
    (found : st.project.scene? name = some scene) (fade : Binary64) :
    (l.note st.project (.told (.switchScene name fade))).Fits st
      (s.moveTo st.project scene st.config.carryBoards) := by
  refine ⟨found, ?_⟩
  have hboards := h.boards
  dsimp only [Session.moveTo, note, changes] at hboards ⊢
  split
  · rename_i hcarry
    rw [if_pos hcarry] at hboards
    rw [hboards]
  · rfl

theorem change?_of_node? {id : NodeId} {n : Node} (h : s.index.node? s.scene id = some n) :
    s.scene.change? id = match n.content with
      | .event c => some c
      | _ => none := by
  rw [s.index_eq, ConnectionIndex.node?_ofScene] at h
  rw [Scene.change?, h, Option.bind_some]

theorem note_ran_of_none {id : NodeId} (h : l.Fits st s) (hc : s.scene.change? id = none) :
    l.note st.project (.ran id) = l := by
  simp only [note, h.scene, Option.bind_some, hc, Option.toList_none, List.append_nil]
  rw [← h.scene]

/-- The change of a node that is run is taken down. -/
theorem Fits.writes {id : NodeId} {c : Change} (h : l.Fits st s)
    (hc : s.scene.change? id = some c) :
    (l.note st.project (.ran id)).Fits st { s with boards := (c.apply s.boards).1 } := by
  refine ⟨h.scene, ?_⟩
  have hmade : (l.note st.project (.ran id)).changes st.config = l.changes st.config ++ [c] := by
    simp only [note, h.scene, Option.bind_some, hc, Option.toList_some, changes]
    split <;> rfl
  rw [hmade, Boards.replay_concat, ← h.boards]

/-- A node is taken down with what it does. -/
theorem Fits.step (h : l.Fits st s) (id : NodeId) :
    FitsAfter st l (Engine.step st s id).beats (Engine.step st s id).turn := by
  unfold Engine.step
  refine FitsAfter.append ?_
  rw [List.foldl_cons, List.foldl_nil]
  cases hn : s.index.node? s.scene id with
  | none =>
    have hnone : s.scene.change? id = none := by
      rw [s.index_eq, ConnectionIndex.node?_ofScene] at hn
      rw [Scene.change?, hn, Option.bind_none]
    rw [note_ran_of_none h hnone]
    exact h.calm Engine.leave_calm
  | some n =>
    have hchange := change?_of_node? hn
    have heffects := Engine.perform_effects st s n
    dsimp only
    generalize Engine.perform st s n = p at heffects ⊢
    cases heffects with
    | writes content calm =>
      rw [content] at hchange
      exact (h.writes hchange).calm calm
    | calm content calm =>
      rw [note_ran_of_none h (hchange.trans (by split <;> simp_all))]
      exact h.calm calm
    | restarts content =>
      rw [content] at hchange
      rw [note_ran_of_none h hchange]
      have hcleared : l.Fits st s.clearPresentation.resetVisited := ⟨h.scene, h.boards⟩
      exact hcleared.enterScene.append
    | @switches t scene content found =>
      rw [content] at hchange
      rw [note_ran_of_none h hchange]
      exact (h.moveTo found t.fade).enterScene.append

end Ledger

/-! ## Calls -/

namespace Playback
variable {st : Staging}

theorem StandsAt.session {p : Playback} {t : Turn} (h : p.StandsAt t) {s : Session}
    (hs : p.session = some s) : ∃ u, t.session? = some u ∧ (s = u ∨ s = u.noteWait) := by
  cases h with
  | run | fail =>
    obtain rfl := Option.some.inj hs
    exact ⟨_, rfl, .inl rfl⟩
  | rest u =>
    cases u with
    | some u => exact ⟨u, rfl, settle_session hs⟩
    | none =>
      have hnone (suspension : Suspension) (cursor : Cursor) :
          (settle none cursor suspension).session = none := by
        cases suspension <;> rfl
      rw [hnone] at hs
      cases hs

/-- The session that playback leaves after a piece of it fits the ledger with all that
    happened. -/
theorem follow_fits {l : Ledger} {piece : Piece} (h : l.FitsAfter st piece.beats piece.turn)
    (last : Suspension) (fuel : Nat) {s : Session}
    (hs : (follow st last fuel piece).playback.session = some s) :
    ((follow st last fuel piece).beats.foldl (Ledger.note st.project) l).Fits st s := by
  have hsteps : ∀ bs s id, l.FitsAfter st bs (.run s id) →
      l.FitsAfter st (bs ++ (Engine.step st s id).beats) (Engine.step st s id).turn :=
    fun bs s id hfits => ((hfits s rfl).step id).append
  have hpiece : l.FitsAfter st ([] ++ piece.beats) piece.turn := h
  obtain ⟨t, hends, hfits⟩ := follow_endsIn hsteps last fuel hpiece
  obtain ⟨u, hu, rfl | rfl⟩ := hends.stands.session hs
  · exact hfits s hu
  · exact ⟨(hfits u hu).scene, (hfits u hu).boards⟩

theorem beats_stop (p : Playback) : ∀ b ∈ p.stop.2, b.isCalm = true := by
  unfold stop
  split
  · simp [Beat.isCalm]
  · exact List.forall_mem_nil _

/-- The session that a call leaves fits the ledger after it, if that before it did so. -/
theorem call_fits {l : Ledger} {p : Playback} (h : ∀ s, p.session = some s → l.Fits st s)
    (fuel : Nat) (c : Call) {s : Session} (hs : (p.call st fuel c).playback.session = some s) :
    ((p.call st fuel c).beats.foldl (Ledger.note st.project) (c.ledger st l)).Fits st s := by
  cases c with
  | stop => cases p.session_stop.symm.trans hs
  | start =>
    rw [call] at hs ⊢
    rcases start_cases st p with ⟨-, hstart⟩ | ⟨u, hu, hstart⟩
    · rw [hstart] at hs
      cases p.session_stop.symm.trans hs
    · rw [hstart] at hs ⊢
      rw [Report.after, List.foldl_append, Ledger.foldl_note_of_calm _ p.beats_stop]
      exact follow_fits (Ledger.fits_opened hu).enterScene _ fuel hs
  | resume w =>
    rw [call] at hs ⊢
    rcases resume_cases st p w with hresume | ⟨u, piece, hu, -, hpiece, hresume⟩
    · rw [hresume] at hs ⊢
      exact h s hs
    · rw [hresume] at hs ⊢
      exact follow_fits ((h u hu).calm (wake?_calm hpiece)) _ fuel hs

end Playback

/-- The session that is left by all calls fits their ledger. -/
theorem Calls.fits_ledger {st : Staging} (cs : Calls) :
    ∀ s, (cs.playback st).session = some s → (cs.ledger st).Fits st s := by
  induction cs with
  | nil =>
    intro _ hs
    cases hs
  | cons call cs ih =>
    intro _ hs
    exact Playback.call_fits ih call.2 call.1 hs

/-- The scene of a ledger is the one that is found by its name. -/
def Ledger.Placed (p : Project) (l : Ledger) : Prop :=
  ∀ scene, l.scene = some scene → p.scene? scene.name = some scene

theorem Project.scene?_name {p : Project} {name : String} {scene : Scene}
    (h : p.scene? name = some scene) : p.scene? scene.name = some scene := by
  have hname : scene.name = name := by simpa using List.find?_some h
  rwa [hname]

theorem Ledger.placed_foldl {p : Project} (bs : List Beat) {l : Ledger} (h : l.Placed p) :
    (bs.foldl (note p) l).Placed p := by
  induction bs generalizing l with
  | nil => exact h
  | cons b bs ih =>
    refine ih fun scene hscene => ?_
    cases b with
    | entered | ran => exact h scene hscene
    | told i =>
      cases i with
      | switchScene name => exact Project.scene?_name hscene
      | _ => exact h scene hscene

theorem Calls.placed_ledger (st : Staging) (cs : Calls) : (cs.ledger st).Placed st.project := by
  have hopened : (Ledger.opened st).Placed st.project := fun _ => Project.scene?_name
  induction cs with
  | nil => exact hopened
  | cons call cs ih =>
    obtain ⟨c, fuel⟩ := call
    refine Ledger.placed_foldl _ ?_
    cases c with
    | start => exact hopened
    | resume | stop => exact ih

/-- A session plays the scene that is found by its name. -/
theorem Calls.placed {st : Staging} (cs : Calls) {s : Session}
    (hs : (cs.playback st).session = some s) : st.project.scene? s.scene.name = some s.scene :=
  placed_ledger st cs _ (fits_ledger cs s hs).scene

/-- Whether what happens in a scene is neither the run of a node that makes a change nor the
    switch to another scene. -/
def Beat.isIdle (scene : Scene) : Beat → Bool
  | ran id => (scene.change? id).isNone
  | told (.switchScene ..) => false
  | _ => true

theorem Ledger.foldl_note_of_idle {p : Project} {l : Ledger} {scene : Scene}
    (hl : l.scene = some scene) {bs : List Beat} (h : ∀ b ∈ bs, b.isIdle scene = true) :
    bs.foldl (note p) l = l := by
  induction bs with
  | nil => rfl
  | cons b bs ih =>
    have hb : note p l b = l := by
      have hidle := h b List.mem_cons_self
      cases b with
      | entered => rfl
      | ran id =>
        have hnone : scene.change? id = none := by simpa [Beat.isIdle] using hidle
        simp only [note, hl, Option.bind_some, hnone, Option.toList_none, List.append_nil]
        rw [← hl]
      | told i =>
        cases i with
        | switchScene => cases hidle
        | _ => rfl
    rw [List.foldl_cons, hb, ih fun c hc => h c (List.mem_cons_of_mem _ hc)]

/-- After all calls, the boards of a session are what the changes make of the boards of the
    project that were made since it was opened, if boards are carried over, or since the
    later of the opening and the last move to another scene, if not.  Names, identities and
    keys are those of the project, in order; and a wake after which no node is run that makes
    a change, and no scene is switched, leaves the boards as they are. -/
theorem Calls.boards_eq_replay (cs : Calls) {st : Staging} {s : Session}
    (hs : (cs.playback st).session = some s) :
    (cs.ledger st).scene = some s.scene ∧
    s.boards = st.project.boards.replay ((cs.ledger st).changes st.config) ∧
    s.boards.map Board.outline = st.project.boards.map Board.outline ∧
    ∀ w fuel t, (playback st ((.resume w, fuel) :: cs)).session = some t →
      (∀ b ∈ (report st (.resume w) fuel cs).beats, b.isIdle s.scene = true) →
      t.boards = s.boards := by
  obtain ⟨hscene, hboards⟩ := fits_ledger cs s hs
  refine ⟨hscene, hboards, ?_, ?_⟩
  · rw [hboards]
    exact Boards.map_outline_replay ..
  · intro w fuel t ht hidle
    have hledger : ledger st ((.resume w, fuel) :: cs) = cs.ledger st := by
      rw [ledger, Call.ledger, Ledger.foldl_note_of_idle hscene hidle]
    rw [(fits_ledger _ t ht).boards, hledger, hboards]

/-- Four relays run until the entry of a scene is refused, and each of them sets the register;
    the session is still open then, and a wake that comes to nothing leaves it as it is. -/
theorem Calls.boards_eq_replay_relays :
    ∃ s, (playback .relays [(.start, 12)]).session = some s ∧
      s.boards = Boards.replay (.single (.ofNat 0))
        (["NaN", "1", "NaN", "1"].map (Change.mk ⟨"Board", "x", .float⟩ .set)) ∧
      s.boards.map Board.outline = [("Board", 0, [[], ["x"], []])] ∧
      ∃ t, (playback .relays [(.resume .advance, 0), (.start, 12)]).session = some t ∧
        t.boards = s.boards := by
  have hreport := Playback.call_relays
  have hp : playback .relays [(.start, 12)] = (Playback.call .relays 12 {} .start).playback := rfl
  have hledger : (ledger .relays [(.start, 12)]).changes Staging.relays.config =
      ["NaN", "1", "NaN", "1"].map (Change.mk ⟨"Board", "x", .float⟩ .set) := by
    have hbeats : (report .relays .start 12 []).beats =
        (Playback.call .relays 12 {} .start).beats := rfl
    rw [ledger, hbeats, hreport]
    rfl
  rw [hreport] at hp
  have hs := congrArg Playback.session hp
  obtain ⟨-, hboards, houtline, hidle⟩ := boards_eq_replay [(.start, 12)] hs
  rw [hledger] at hboards
  have hresume : report .relays (.resume .advance) 0 [(.start, 12)] =
      ⟨playback .relays [(.start, 12)], [], .suspended .idle⟩ := by
    rw [report, hp]
    rfl
  have ht : (playback .relays [(.resume .advance, 0), (.start, 12)]).session =
      (playback .relays [(.start, 12)]).session :=
    congrArg (fun r => r.playback.session) hresume
  refine ⟨_, hs, hboards, houtline, _, ht.trans hs, hidle .advance 0 _ (ht.trans hs) ?_⟩
  rw [hresume]
  exact nofun

end VisualNovel
