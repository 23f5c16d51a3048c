/-
  All that nodes and wakes can do.

  * `Engine.Acts` lists what a node can do, and `Engine.step_acts` says that it does one
    of these;
  * `Turn.Plain` are the turns that most of this comes to, `Turn.Comes` all those that a node
    comes to: what is said of turns alone is proved from these lists;
  * `Playback.Answers` lists what can come of a wake, and `Playback.wake?_answers` says
    that one of these does.

  What holds of playback is proved from these lists, not from the engine.
-/
import VisualNovel.Proofs.Playback.Call
import VisualNovel.Proofs.Scene.Index
import VisualNovel.Proofs.Scene.Shape

namespace VisualNovel

theorem Session.hasVisited_iff {s : Session} {n : NodeId} :
    s.hasVisited n = true ↔ n ∈ s.visited := List.contains_iff_mem

namespace Engine

/-! ## What pieces of playback come to -/

/-- The entry of a scene is refused; or the scene has no way in, or playback goes on at
    it. -/
theorem enterScene_outcome (s : Session) :
    (s.isRepeated = true ∧ enterScene s = ⟨[], .fail s (.noProgress s.scene.name)⟩) ∨
    s.isRepeated = false ∧
      ((s.scene.entry? = none ∧ enterScene s =
        ⟨[.entered s.scene.name s.boards, .told (.chainEnded .noEntry)],
          .rest (some s.noteEntry) .none .done⟩) ∨
      ∃ n, s.scene.entry? = some n ∧ enterScene s =
        ⟨[.entered s.scene.name s.boards], .run { s.noteEntry with visited := [n.id] } n.id⟩) := by
  unfold enterScene
  cases hr : s.isRepeated with
  | true => exact .inl ⟨rfl, rfl⟩
  | false =>
    refine .inr ⟨rfl, ?_⟩
    dsimp only [Session.noteEntry]
    cases hn : s.scene.entry? with
    | none => exact .inl ⟨rfl, rfl⟩
    | some n => exact .inr ⟨n, rfl, rfl⟩

/-- A node that is left leads nowhere, or to a node that was visited, or to one that is
    visited now. -/
theorem leave_outcome (s : Session) (node : NodeId) (next : Option NodeId) :
    (∃ reason, leave s node next =
        ⟨[.told (.chainEnded reason)], .rest (some s) .none .done⟩ ∧
      (next = none ∧ reason = .deadEnd node ∨
        ∃ n ∈ s.visited, next = some n ∧ reason = .revisited n)) ∨
    ∃ n, next = some n ∧ n ∉ s.visited ∧
      leave s node next = ⟨[], .run { s with visited := s.visited ++ [n] } n⟩ := by
  cases next with
  | none => exact .inl ⟨_, rfl, .inl ⟨rfl, rfl⟩⟩
  | some n =>
    by_cases hn : n ∈ s.visited
    · refine .inl ⟨_, ?_, .inr ⟨n, hn, rfl, rfl⟩⟩
      rw [leave, if_pos (Session.hasVisited_iff.2 hn)]
    · refine .inr ⟨n, rfl, hn, ?_⟩
      have hnot : ¬s.hasVisited n = true := mt Session.hasVisited_iff.1 hn
      rw [leave, if_neg hnot, Session.visit, if_neg hnot]

/-- A line is shown to its end, or as far as it is typed. -/
theorem reveal_outcome (st : Staging) (s : Session) (l : LineCursor) :
    (l.text.length ≤ l.revealed ∧ reveal st s l =
      ⟨[.told (.showLine l.speaker l.text)],
        .rest (some { s with line := some (l.speaker, l.text) }) (.line l) (.wait .advance none)⟩) ∨
    l.revealed < l.text.length ∧ ∃ text, reveal st s l =
      ⟨[.told (.revealText l.speaker text)],
        .rest (some s) (.line l) (.wait .advance (some st.config.typewriterDelay))⟩ := by
  unfold reveal
  split
  · rename_i h
    exact .inl ⟨h, rfl⟩
  · rename_i h
    exact .inr ⟨Nat.lt_of_not_le h, _, rfl⟩

/-- What is told of a line before its text: a sprite of a speaker who is on screen, or a
    voice. -/
inductive Cues (s : Session) : Intent → Prop where
  | sprite {character : String} (path : String) (shown : s.isOnScreen character = true) :
    Cues s (.changeSprite character path)
  | voice (character path : String) : Cues s (.playVoice character path)

theorem cues_of_mem {st : Staging} {s : Session} {d : Dialogue} {l : Line} {i : Intent}
    (hi : i ∈ (spriteOf st s d l).toList ++ (voiceOf st d l).toList) : Cues s i := by
  rcases List.mem_append.1 hi with hi | hi
  · rw [spriteOf] at hi
    split at hi
    · cases hi
    · rename_i hnot
      have hshown : s.isOnScreen d.character = true := by simp_all
      obtain ⟨path, -, rfl⟩ := Option.map_eq_some_iff.1 (Option.mem_toList.1 hi)
      exact .sprite _ hshown
  · rw [voiceOf] at hi
    split at hi
    · cases hi
    · obtain ⟨path, -, rfl⟩ := Option.map_eq_some_iff.1 (Option.mem_toList.1 hi)
      exact .voice ..

/-- A line begins with its cues, and then it is shown or typed from its beginning. -/
theorem beginLine_outcome (st : Staging) (s : Session) (node : NodeId) (d : Dialogue) (l : Line)
    (rest : List Line) (next : Option NodeId) :
    ∃ (told : List Intent) (l' : LineCursor), (∀ i ∈ told, Cues s i) ∧
      l'.revealed ≤ l'.text.length ∧
      beginLine st s node d l rest next = (reveal st s l').after (told.map .told) :=
  ⟨_, _, fun _ => cues_of_mem, Nat.min_le_left _ _, rfl⟩

end Engine

/-! ## Plain turns -/

/-- A line of which no more characters are shown than it has. -/
def LineCursor.Typed (l : LineCursor) : Prop := l.revealed ≤ l.text.length

/-- The turns that playback comes to in the plain course of things: a scene is not entered again,
    a node is to be run, a chain of nodes ended, or a line is shown or typed, of which something
    holds. -/
inductive Turn.Plain (st : Staging) (lines : LineCursor → Prop) : Turn → Prop where
  | refuses (s : Session) : Plain st lines (.fail s (.noProgress s.scene.name))
  | runs (s : Session) (id : NodeId) : Plain st lines (.run s id)
  | ends (s : Session) : Plain st lines (.rest (some s) .none .done)
  | shows (s : Session) {l : LineCursor} (line : lines l) (shown : l.text.length ≤ l.revealed) :
    Plain st lines (.rest (some s) (.line l) (.wait .advance none))
  | types (s : Session) {l : LineCursor} (line : lines l) (typing : l.revealed < l.text.length) :
    Plain st lines
      (.rest (some s) (.line l) (.wait .advance (some st.config.typewriterDelay)))

namespace Engine
variable {st : Staging} {lines : LineCursor → Prop}

theorem enterScene_plain (st : Staging) (lines : LineCursor → Prop) (s : Session) :
    (enterScene s).turn.Plain st lines := by
  rcases enterScene_outcome s with ⟨-, hfail⟩ | ⟨-, ⟨-, hrest⟩ | ⟨n, -, hrun⟩⟩
  · rw [hfail]
    exact .refuses s
  · rw [hrest]
    exact .ends _
  · rw [hrun]
    exact .runs ..

theorem leave_plain (s : Session) (node : NodeId) (next : Option NodeId) :
    (leave s node next).turn.Plain st lines := by
  rcases leave_outcome s node next with ⟨reason, hrest, -⟩ | ⟨n, -, -, hrun⟩
  · rw [hrest]
    exact .ends s
  · rw [hrun]
    exact .runs ..

theorem reveal_plain (s : Session) {l : LineCursor} (h : lines l) :
    (reveal st s l).turn.Plain st lines := by
  rcases reveal_outcome st s l with ⟨hshown, hshow⟩ | ⟨htyping, text, htype⟩
  · rw [hshow]
    exact .shows _ h hshown
  · rw [htype]
    exact .types s h htyping

theorem beginLine_plain (h : ∀ l : LineCursor, l.Typed → lines l) (s : Session) (node : NodeId)
    (d : Dialogue) (l : Line) (rest : List Line) (next : Option NodeId) :
    (beginLine st s node d l rest next).turn.Plain st lines := by
  obtain ⟨told, l', -, htyped, hline⟩ := beginLine_outcome st s node d l rest next
  rw [hline]
  exact reveal_plain s (h l' htyped)

end Engine

/-! ## What nodes do -/

/-- The node that an error is about. -/
def PlaybackError.node? : PlaybackError → Option NodeId
  | choiceOutputMismatch node .. | choiceOutputMissing node .. | conditionOutputs node _ =>
    some node
  | sceneNotFound _ | noProgress _ | driver _ => none

namespace Engine

/-- A node may have written to the boards of its scene. -/
def Writes (s : Session) (boards : Boards) : Prop :=
  boards = s.boards ∨
    ∃ n ∈ s.scene.nodes, ∃ c, n.content = .event c ∧ boards = (c.apply s.boards).1

/-- What a node does before it leads on: it writes to the boards at most, or a character
    comes on, or one that is on screen goes off. -/
inductive Passes (s : Session) : List Beat → Session → Prop where
  | writes {boards : Boards} (written : Writes s boards) : Passes s [] { s with boards }
  | shows (character sprite : String) (position : UInt8) (offset : Binary32) (fade : Binary64) :
    Passes s [.told (.showCharacter character sprite position offset fade)]
      (s.showCharacter character)
  | hides {character : String} (shown : s.isOnScreen character = true) :
    Passes s [.told (.hideCharacter character)] (s.hideCharacter character)

variable (st : Staging)

/-- What a node of an identity can do in a session. -/
inductive Acts (s : Session) (id : NodeId) : Piece → Prop where
  /-- It leads on, to a node of the scene if anywhere. -/
  | leaves {told : List Beat} {t : Session} {next : Option NodeId} (passed : Passes s told t)
    (leads : ∀ i ∈ next, i ∈ s.scene.nodes.map Node.id) :
    Acts s id ((leave t id next).after told)
  /-- A background fades in. -/
  | fades (path : String) (fade : Binary64) {next : Option NodeId}
    (leads : ∀ i ∈ next, i ∈ s.scene.nodes.map Node.id) :
    Acts s id
      ⟨[], .rest (some s) (.fading id path fade next) (.wait .timer (some (.ofSeconds fade)))⟩
  | speaks (d : Dialogue) (l : Line) (rest : List Line) {next : Option NodeId}
    (leads : ∀ i ∈ next, i ∈ s.scene.nodes.map Node.id) :
    Acts s id (beginLine st s id d l rest next)
  /-- It shows choices, each with where it leads. -/
  | offers {texts : List String} {targets : List (Option NodeId)}
    (same : targets.length = texts.length)
    (leads : ∀ next ∈ targets, ∀ i ∈ next, i ∈ s.scene.nodes.map Node.id) :
    Acts s id ⟨[.told (.showChoices texts)],
      .rest (some { s with choices := texts }) (.choosing id targets) (.wait .choice none)⟩
  /-- It does not have an output for each way, which the error says of it. -/
  | fails {e : PlaybackError} (names : e.node? = some id) {n : Node} (found : n ∈ s.scene.nodes)
    (unfit : ¬n.Branched) : Acts s id ⟨[], .fail s e⟩
  /-- The scene is entered again. -/
  | restarts (restart : st.config.exitBehavior = .restart) :
    Acts s id ((enterScene s.clearPresentation.resetVisited).after [.told .sessionStopped])
  /-- The session ends. -/
  | ends (stop : st.config.exitBehavior = .stop) :
    Acts s id ⟨[.told .sessionStopped], .rest none .none .idle⟩
  /-- Another scene is entered. -/
  | switches {scene : Scene} (name : String) (fade : Binary64)
    (found : scene ∈ st.project.scenes) :
    Acts s id ((enterScene (s.moveTo st.project scene st.config.carryBoards)).after
      [.told .sessionStopped, .told (.switchScene name fade)])
  /-- There is no scene to be entered. -/
  | strays (name : String) :
    Acts s id ⟨[.told (.chainEnded (.missingScene name))], .rest (some s) .none .done⟩

variable {st} {s : Session} {id : NodeId}

theorem Passes.refl (s : Session) : Passes s [] s := .writes (.inl rfl)

theorem Acts.leads_on {next : Option NodeId} (h : ∀ i ∈ next, i ∈ s.scene.nodes.map Node.id) :
    Acts st s id (leave s id next) := .leaves (.refl s) h

theorem appear_passes (st : Staging) (s : Session) (a : Appearance) :
    Passes s (appear st s a).2 (appear st s a).1 := by
  unfold appear
  split
  · split
    · exact .refl s
    · exact .shows ..
  · split
    · rename_i h
      exact .hides h
    · exact .refl s

theorem exists_of_mapM_eq_error {ε α β : Type} {f : α → Except ε β} {as : List α} {e : ε}
    (h : as.mapM f = .error e) : ∃ a ∈ as, f a = .error e := by
  induction as with
  | nil => cases h
  | cons a as ih =>
    rw [List.mapM_cons] at h
    cases ha : f a with
    | error e' =>
      rw [ha] at h
      cases h
      exact ⟨a, List.mem_cons_self, ha⟩
    | ok b =>
      rw [ha] at h
      cases hm : as.mapM f with
      | error e' =>
        rw [hm] at h
        cases h
        obtain ⟨c, hc, hce⟩ := ih hm
        exact ⟨c, List.mem_cons_of_mem _ hc, hce⟩
      | ok bs =>
        rw [hm] at h
        cases h

theorem eq_map_of_mapM_eq_ok {ε α β : Type} {f : α → Except ε β} {g : α → β}
    (hg : ∀ a b, f a = .ok b → b = g a) {as : List α} {bs : List β}
    (h : as.mapM f = .ok bs) : bs = as.map g := by
  induction as generalizing bs with
  | nil =>
    cases h
    rfl
  | cons a as ih =>
    rw [List.mapM_cons] at h
    cases ha : f a with
    | error e =>
      rw [ha] at h
      cases h
    | ok b =>
      rw [ha] at h
      cases hm : as.mapM f with
      | error e =>
        rw [hm] at h
        cases h
      | ok bs' =>
        rw [hm] at h
        cases h
        rw [List.map_cons, hg a b ha, ih hm]

theorem choiceTargets_error {n : Node} {choices : List Choice} {e : PlaybackError}
    (h : choiceTargets s n choices = .error e) : ∃ i, ∃ c ∈ choices,
      n.output? c.output = none ∧ e = .choiceOutputMissing n.id i c.output := by
  obtain ⟨⟨c, i⟩, hmem, hc⟩ := exists_of_mapM_eq_error h
  dsimp only at hc
  split at hc
  · cases hc
  · rename_i hnone
    cases hc
    have hchoice : c ∈ choices := List.zipIdx_map_fst 0 choices ▸ List.mem_map_of_mem hmem
    exact ⟨i, c, hchoice, hnone, rfl⟩

/-- Each choice leads to where its output leads. -/
theorem choiceTargets_eq_map {n : Node} {choices : List Choice} {targets : List (Option NodeId)}
    (h : choiceTargets s n choices = .ok targets) :
    targets = choices.map fun c => (n.output? c.output).bind s.index.follow? := by
  have hall : targets = choices.zipIdx.map fun x =>
      (n.output? x.1.output).bind s.index.follow? := by
    refine eq_map_of_mapM_eq_ok ?_ h
    rintro ⟨c, i⟩ next hc
    dsimp only at hc ⊢
    split at hc
    · rename_i o ho
      cases hc
      rw [ho, Option.bind_some]
    · cases hc
  rw [← List.zipIdx_map_fst 0 choices, List.map_map]
  exact hall

theorem length_choiceTargets {n : Node} {choices : List Choice} {targets : List (Option NodeId)}
    (h : choiceTargets s n choices = .ok targets) : targets.length = choices.length := by
  rw [choiceTargets_eq_map h, List.length_map]

theorem background_acts {n : Node} {b : Background}
    (h : ∀ i ∈ s.index.successor? n, i ∈ s.scene.nodes.map Node.id) :
    Acts st s n.id (background st s n b) := by
  unfold background
  dsimp only
  split
  · exact .leads_on h
  · exact .fades _ _ h

theorem choose_acts {n : Node} (hn : n ∈ s.scene.nodes) {choices : List Choice}
    (hc : n.content = .choice choices)
    (h : ∀ o, ∀ i ∈ s.index.follow? o, i ∈ s.scene.nodes.map Node.id) :
    Acts st s n.id (choose st s n choices) := by
  unfold choose
  split
  · rename_i hlength
    refine .fails rfl hn fun hbranched => hlength ?_
    simpa using ((Node.branched_of_choice hc).1 hbranched).length_eq.symm
  split
  · exact .leads_on nofun
  split
  · rename_i e he
    obtain ⟨i, c, hmem, hnone, rfl⟩ := choiceTargets_error he
    refine .fails rfl hn fun hbranched => ?_
    have hrange := ((Node.branched_of_choice hc).1 hbranched).subset (List.mem_map_of_mem hmem)
    rw [Node.output?, List.getElem?_eq_getElem (List.mem_range.1 hrange)] at hnone
    cases hnone
  · rename_i targets ht
    refine .offers (by rw [length_choiceTargets ht, List.length_map]) fun next hnext i hi => ?_
    obtain ⟨c, -, rfl⟩ := List.mem_map.1 (choiceTargets_eq_map ht ▸ hnext)
    obtain ⟨o, -, hfollow⟩ := Option.bind_eq_some_iff.1 hi
    exact h o i hfollow

theorem branch_acts {n : Node} (hn : n ∈ s.scene.nodes) {c : Check}
    (hc : n.content = .condition c)
    (h : ∀ i ∈ s.index.successor? n, i ∈ s.scene.nodes.map Node.id)
    (h' : ∀ o, ∀ i ∈ s.index.follow? o, i ∈ s.scene.nodes.map Node.id) :
    Acts st s n.id (branch s n c) := by
  unfold branch
  split
  · refine .leads_on fun i hi => ?_
    split at hi
    · exact h' _ i hi
    · exact h' _ i hi
    · exact h i hi
  · rename_i hpair
    refine .fails rfl hn fun hbranched => ?_
    obtain ⟨yes, no, ho⟩ := List.length_eq_two.1 ((Node.branched_of_condition hc).1 hbranched)
    exact hpair yes no ho

theorem exitScene_acts : Acts st s id (exitScene st s) := by
  unfold exitScene
  split
  · rename_i h
    exact .restarts h
  · rename_i h
    exact .ends h

theorem switchScene_acts {t : SceneSwitch} : Acts st s id (switchScene st s t) := by
  unfold switchScene
  split
  · exact .strays _
  · rename_i u hu
    obtain ⟨scene, hscene, rfl⟩ := Option.map_eq_some_iff.1 hu
    exact .switches _ _ (List.mem_of_find?_eq_some hscene)

theorem step_eq {n : Node} (h : s.index.node? s.scene id = some n) :
    step st s id = (perform st s n).after [.ran id] := by
  rw [step, h]

/-- A node is run, and does what nodes can do. -/
theorem step_acts (st : Staging) (s : Session) (id : NodeId) :
    ∃ piece, Acts st s id piece ∧ step st s id = piece.after [.ran id] := by
  cases hn : s.index.node? s.scene id with
  | none => exact ⟨leave s id none, .leads_on nofun, by rw [step, hn]⟩
  | some n =>
    refine ⟨perform st s n, ?_, step_eq hn⟩
    have hsuccessor : ∀ i ∈ s.index.successor? n, i ∈ s.scene.nodes.map Node.id := by
      intro i hi
      rw [s.index_eq] at hi
      exact ConnectionIndex.mem_of_successor? hi
    have hfollow : ∀ o, ∀ i ∈ s.index.follow? o, i ∈ s.scene.nodes.map Node.id := by
      intro o i hi
      rw [s.index_eq] at hi
      exact ConnectionIndex.mem_of_follow? hi
    obtain ⟨hmem, rfl⟩ := ConnectionIndex.mem_of_node? (s.index_eq ▸ hn)
    unfold perform
    split
    · exact exitScene_acts
    · exact background_acts hsuccessor
    · exact .leaves (appear_passes st s _) hsuccessor
    · split
      · exact .leads_on hsuccessor
      · exact .speaks _ _ _ hsuccessor
    · rename_i hc
      exact choose_acts hmem hc hfollow
    · rename_i c hc
      exact .leaves (.writes (.inr ⟨n, hmem, c, hc, rfl⟩)) hsuccessor
    · rename_i hc
      exact branch_acts hmem hc hsuccessor hfollow
    · exact switchScene_acts
    all_goals exact .leads_on hsuccessor

end Engine

/-- The turns that a node comes to. -/
inductive Turn.Comes (st : Staging) (s : Session) (id : NodeId) : Turn → Prop where
  | goes {t : Turn} (plain : t.Plain st LineCursor.Typed) : Comes st s id t
  | fades (path : String) (fade : Binary64) (next : Option NodeId) :
    Comes st s id
      (.rest (some s) (.fading id path fade next) (.wait .timer (some (.ofSeconds fade))))
  | offers {texts : List String} {targets : List (Option NodeId)}
    (same : targets.length = texts.length) :
    Comes st s id
      (.rest (some { s with choices := texts }) (.choosing id targets) (.wait .choice none))
  | fails {e : PlaybackError} (names : e.node? = some id) {n : Node} (found : n ∈ s.scene.nodes)
    (unfit : ¬n.Branched) : Comes st s id (.fail s e)
  | closes : Comes st s id (.rest none .none .idle)

theorem Engine.step_comes (st : Staging) (s : Session) (id : NodeId) :
    (step st s id).turn.Comes st s id := by
  obtain ⟨piece, hacts, hstep⟩ := step_acts st s id
  rw [hstep, Piece.turn_after]
  cases hacts with
  | leaves => exact .goes (leave_plain ..)
  | fades path fade => exact .fades path fade _
  | speaks => exact .goes (beginLine_plain (fun _ typed => typed) ..)
  | offers same => exact .offers same
  | fails names found unfit => exact .fails names found unfit
  | restarts | switches => exact .goes (enterScene_plain ..)
  | ends => exact .closes
  | strays => exact .goes (.ends s)

/-! ## What wakes do -/

/-- What can come of a wake in a session, by what is waited with. -/
inductive Playback.Answers (st : Staging) (s : Session) : Cursor → Wake → Piece → Prop where
  /-- The background has faded in. -/
  | appears (node : NodeId) (path : String) (fade : Binary64) (next : Option NodeId) :
    Answers st s (.fading node path fade next) .timer
      ((Engine.leave s node next).after [.told (.showBackground path fade)])
  /-- One character more is typed. -/
  | types (l : LineCursor) :
    Answers st s (.line l) .timer (Engine.reveal st s { l with revealed := l.revealed + 1 })
  /-- The line is shown to its end. -/
  | completes {l : LineCursor} (typing : l.revealed < l.text.length) :
    Answers st s (.line l) .advance (Engine.reveal st s { l with revealed := l.text.length })
  | leaves {l : LineCursor} (shown : l.text.length ≤ l.revealed) (last : l.rest = []) :
    Answers st s (.line l) .advance (Engine.leave s l.node l.next)
  | speaks {l : LineCursor} {l' : Line} {rest : List Line} (shown : l.text.length ≤ l.revealed)
    (more : l.rest = l' :: rest) :
    Answers st s (.line l) .advance (Engine.beginLine st s l.node l.dialogue l' rest l.next)
  /-- A choice is taken. -/
  | chooses {targets : List (Option NodeId)} {i : Nat} {next : Option NodeId} (node : NodeId)
    (target : targets[i]? = some next) :
    Answers st s (.choosing node targets) (.choice i)
      (Engine.leave { s with choices := [] } node next)

theorem Playback.wake?_answers {st : Staging} {s : Session} {cursor : Cursor} {w : Wake}
    {piece : Piece} (h : wake? st s cursor w = some piece) : Answers st s cursor w piece := by
  unfold wake? at h
  split at h
  · cases h
    exact .appears ..
  · cases h
    exact .types _
  · split at h
    · rename_i typing
      cases h
      exact .completes typing
    · rename_i shown
      split at h
      · rename_i last
        cases h
        exact .leaves (Nat.le_of_not_lt shown) last
      · rename_i l' rest more
        cases h
        exact .speaks (Nat.le_of_not_lt shown) more
  · obtain ⟨next, target, rfl⟩ := Option.map_eq_some_iff.1 h
    exact .chooses _ target
  · cases h

/-- A wake leads to a plain turn.  Lines are typed as far as they may be, if a timer does not
    type more of them than there is. -/
theorem Playback.Answers.plain {st : Staging} {lines : LineCursor → Prop} {s : Session}
    {cursor : Cursor} {w : Wake} {piece : Piece} (h : Answers st s cursor w piece)
    (typed : ∀ l : LineCursor, l.Typed → lines l)
    (types : ∀ l : LineCursor, cursor = .line l → w = .timer →
      lines { l with revealed := l.revealed + 1 }) : piece.turn.Plain st lines := by
  cases h with
  | appears | leaves | chooses => exact Engine.leave_plain ..
  | types l => exact Engine.reveal_plain s (types l rfl rfl)
  | completes => exact Engine.reveal_plain s (typed _ (Nat.le_refl _))
  | speaks => exact Engine.beginLine_plain typed ..

end VisualNovel
