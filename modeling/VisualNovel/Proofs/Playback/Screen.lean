/-
  What is on screen, told from the intents alone.

  * `Screen.ofIntents` follows the intents, and `Screen.Allows` says which of them make
    sense;
  * `Session.Shows`: a session that takes the same to be on screen;
  * `Engine.step_shows` and `Playback.Answers.shows`: nodes and wakes keep session and
    screen alike;
  * `Calls.shows_screen`: so do all calls, and nothing is done to a character who is not on
    screen.
-/
import Mathlib.Data.List.Nodup
import VisualNovel.Proofs.Playback.Wait

namespace VisualNovel

/-! ## Screens -/

/-- What a host has on screen. -/
structure Screen where
  /-- The characters, in the order in which they came. -/
  characters : List String := []
  /-- The speaker and the text of the line. -/
  line : Option (String × String) := none
  /-- The choices that were shown at last. -/
  choices : List String := []
  deriving DecidableEq

namespace Screen

/-- What an intent does to the screen. -/
def tell (screen : Screen) : Intent → Screen
  | .showCharacter character .. =>
    if character ∈ screen.characters then screen
    else { screen with characters := screen.characters ++ [character] }
  | .hideCharacter character =>
    { screen with characters := screen.characters.filter fun c => c ≠ character }
  | .showLine speaker text => { screen with line := some (speaker, text) }
  | .showChoices choices => { screen with choices }
  | .sessionStopped => { screen with characters := [], line := none }
  | _ => screen

/-- The screen after some intents. -/
def after (screen : Screen) (is : List Intent) : Screen := is.foldl tell screen

/-- The screen that intents lead to from the beginning on. -/
def ofIntents (is : List Intent) : Screen := after {} is

/-- Whether an intent makes sense: a character who goes off or changes must be on screen. -/
def Allows (screen : Screen) : Intent → Prop
  | .hideCharacter character | .changeSprite character _ => character ∈ screen.characters
  | _ => True

/-- Intents that make sense one after the other. -/
abbrev Admits : Screen → List Intent → Prop := Guarded tell Allows

theorem after_append (screen : Screen) (is js : List Intent) :
    screen.after (is ++ js) = (screen.after is).after js := List.foldl_append

end Screen

/-! ## Sessions on screen -/

/-- A session that has on screen what a screen has. -/
structure Session.Shows (s : Session) (screen : Screen) : Prop where
  characters : s.characters = screen.characters
  nodup : s.characters.Nodup
  line : s.line = screen.line

namespace Session.Shows
variable {s : Session} {screen : Screen} {character : String}

theorem isOnScreen_iff (h : s.Shows screen) :
    s.isOnScreen character = true ↔ character ∈ screen.characters := by
  rw [isOnScreen, List.contains_iff_mem, h.characters]

theorem showCharacter (h : s.Shows screen) (sprite : String) (position : UInt8)
    (offset : Binary32) (fade : Binary64) :
    (s.showCharacter character).Shows
      (screen.tell (.showCharacter character sprite position offset fade)) := by
  rw [Session.showCharacter, Screen.tell]
  by_cases hc : character ∈ screen.characters
  · rw [if_pos (h.isOnScreen_iff.2 hc), if_pos hc]
    exact h
  · rw [if_neg (mt h.isOnScreen_iff.1 hc), if_neg hc]
    rw [← h.characters] at hc
    have hnodup : (s.characters ++ [character]).Nodup := by
      rw [← List.concat_eq_append]
      exact .concat hc h.nodup
    exact ⟨congrArg (· ++ _) h.characters, hnodup, h.line⟩

theorem hideCharacter (h : s.Shows screen) :
    (s.hideCharacter character).Shows (screen.tell (.hideCharacter character)) :=
  ⟨congrArg (List.filter _) h.characters, h.nodup.filter _, h.line⟩

end Session.Shows

/-- A turn whose session has on screen what a screen has: choices while one of them is to be
    taken, and nothing if there is no session. -/
inductive Turn.Shows (screen : Screen) : Turn → Prop where
  | run {s : Session} {id : NodeId} (shown : s.Shows screen) (free : s.choices = []) :
    Shows screen (.run s id)
  | choosing {s : Session} {node : NodeId} {targets : List (Option NodeId)}
    {suspension : Suspension} (shown : s.Shows screen) (same : s.choices = screen.choices) :
    Shows screen (.rest (some s) (.choosing node targets) suspension)
  | rest {s : Session} {cursor : Cursor} {suspension : Suspension} (shown : s.Shows screen)
    (free : s.choices = []) (other : ∀ node targets, cursor ≠ .choosing node targets) :
    Shows screen (.rest (some s) cursor suspension)
  | idle (empty : screen.characters = []) (silent : screen.line = none) :
    Shows screen (.rest none .none .idle)
  | fail {s : Session} {e : PlaybackError} (shown : s.Shows screen) (free : s.choices = []) :
    Shows screen (.fail s e)

/-- A piece of playback that keeps its session and a screen alike. -/
structure Piece.Shows (screen : Screen) (piece : Piece) : Prop where
  admits : screen.Admits (Beat.intents piece.beats)
  turn : piece.turn.Shows (screen.after (Beat.intents piece.beats))

theorem Piece.Shows.after {screen : Screen} {told : List Beat} {piece : Piece}
    (h : piece.Shows (screen.after (Beat.intents told)))
    (ht : screen.Admits (Beat.intents told)) : (piece.after told).Shows screen := by
  refine ⟨?_, ?_⟩
  · rw [Piece.after, Beat.intents_append]
    exact ht.append h.admits
  · rw [Piece.after, Beat.intents_append, Screen.after_append]
    exact h.turn

/-- What happened before, and then a piece of playback. -/
theorem Piece.Shows.append {bs : List Beat} {piece : Piece}
    (h : piece.Shows (.ofIntents (Beat.intents bs)))
    (ha : Screen.Admits {} (Beat.intents bs)) :
    Screen.Admits {} (Beat.intents (bs ++ piece.beats)) ∧
      piece.turn.Shows (.ofIntents (Beat.intents (bs ++ piece.beats))) := by
  obtain ⟨hadmits, hturn⟩ := h
  rw [Beat.intents_append, Screen.ofIntents, Screen.after_append]
  exact ⟨ha.append hadmits, hturn⟩

namespace Engine
variable {st : Staging} {s : Session} {screen : Screen}

theorem enterScene_shows (h : s.Shows screen) (hf : s.choices = []) :
    (enterScene s).Shows screen := by
  rcases enterScene_outcome s with ⟨-, hfail⟩ | ⟨-, ⟨-, hrest⟩ | ⟨n, -, hrun⟩⟩
  · rw [hfail]
    exact ⟨trivial, .fail h hf⟩
  · rw [hrest]
    exact ⟨⟨trivial, trivial⟩, .rest ⟨h.characters, h.nodup, h.line⟩ hf nofun⟩
  · rw [hrun]
    exact ⟨trivial, .run ⟨h.characters, h.nodup, h.line⟩ hf⟩

theorem leave_shows (h : s.Shows screen) (hf : s.choices = []) (node : NodeId)
    (next : Option NodeId) : (leave s node next).Shows screen := by
  rcases leave_outcome s node next with ⟨reason, hrest, -⟩ | ⟨n, -, -, hrun⟩
  · rw [hrest]
    exact ⟨⟨trivial, trivial⟩, .rest h hf nofun⟩
  · rw [hrun]
    exact ⟨trivial, .run ⟨h.characters, h.nodup, h.line⟩ hf⟩

theorem reveal_shows (h : s.Shows screen) (hf : s.choices = []) (l : LineCursor) :
    (reveal st s l).Shows screen := by
  rcases reveal_outcome st s l with ⟨-, hshow⟩ | ⟨-, text, htype⟩
  · rw [hshow]
    exact ⟨⟨trivial, trivial⟩, .rest ⟨h.characters, h.nodup, rfl⟩ hf nofun⟩
  · rw [htype]
    exact ⟨⟨trivial, trivial⟩, .rest h hf nofun⟩

/-- The cues of a line make sense, and they leave the screen as it is. -/
theorem Cues.admits {told : List Intent} (h : s.Shows screen) (ht : ∀ i ∈ told, Cues s i) :
    screen.Admits told ∧ screen.after told = screen := by
  induction told with
  | nil => exact ⟨trivial, rfl⟩
  | cons i is ih =>
    obtain ⟨hadmits, hafter⟩ := ih fun j hj => ht j (List.mem_cons_of_mem _ hj)
    cases ht i List.mem_cons_self with
    | sprite path shown =>
      exact ⟨⟨h.isOnScreen_iff.1 shown, hadmits⟩, hafter⟩
    | voice => exact ⟨⟨trivial, hadmits⟩, hafter⟩

theorem beginLine_shows (h : s.Shows screen) (hf : s.choices = []) (node : NodeId)
    (d : Dialogue) (l : Line) (rest : List Line) (next : Option NodeId) :
    (beginLine st s node d l rest next).Shows screen := by
  obtain ⟨told, l', hcues, -, hline⟩ := beginLine_outcome st s node d l rest next
  obtain ⟨hadmits, hafter⟩ := Cues.admits h hcues
  rw [hline]
  refine Piece.Shows.after ?_ (by rwa [Beat.intents_told])
  rw [Beat.intents_told, hafter]
  exact reveal_shows h hf l'

/-- A session and a screen stay alike when characters come on and go off. -/
theorem Passes.alike {t : Session} {told : List Beat} (h : Passes s told t)
    (hs : s.Shows screen) :
    screen.Admits (Beat.intents told) ∧ t.Shows (screen.after (Beat.intents told)) ∧
      t.choices = s.choices := by
  cases h with
  | writes => exact ⟨trivial, ⟨hs.characters, hs.nodup, hs.line⟩, rfl⟩
  | shows character sprite position offset fade =>
    refine ⟨⟨trivial, trivial⟩, hs.showCharacter sprite position offset fade, ?_⟩
    rw [Session.showCharacter]
    split
    · rfl
    · rfl
  | hides shown => exact ⟨⟨hs.isOnScreen_iff.1 shown, trivial⟩, hs.hideCharacter, rfl⟩

theorem step_shows (st : Staging) {s : Session} (h : s.Shows screen) (hf : s.choices = [])
    (id : NodeId) : (step st s id).Shows screen := by
  obtain ⟨piece, hacts, hstep⟩ := step_acts st s id
  rw [hstep]
  refine Piece.Shows.after ?_ trivial
  change piece.Shows screen
  cases hacts with
  | leaves passed =>
    obtain ⟨hadmits, hshows, hchoices⟩ := passed.alike h
    exact (leave_shows hshows (hchoices.trans hf) ..).after hadmits
  | fades => exact ⟨trivial, .rest h hf nofun⟩
  | speaks => exact beginLine_shows h hf ..
  | offers => exact ⟨⟨trivial, trivial⟩, .choosing ⟨h.characters, h.nodup, h.line⟩ rfl⟩
  | fails => exact ⟨trivial, .fail h hf⟩
  | restarts =>
    have hclear : s.clearPresentation.resetVisited.Shows (screen.after [.sessionStopped]) :=
      ⟨rfl, .nil, rfl⟩
    exact (enterScene_shows hclear rfl).after ⟨trivial, trivial⟩
  | ends => exact ⟨⟨trivial, trivial⟩, .idle rfl rfl⟩
  | @switches scene name fade =>
    have hclear : (s.moveTo st.project scene st.config.carryBoards).Shows
        (screen.after [.sessionStopped, .switchScene name fade]) := ⟨rfl, .nil, rfl⟩
    exact (enterScene_shows hclear rfl).after ⟨trivial, trivial, trivial⟩
  | strays => exact ⟨⟨trivial, trivial⟩, .rest h hf nofun⟩

end Engine
namespace Playback
variable {st : Staging} {s : Session} {screen : Screen}

/-- A wait shows choices if it is for one of them, and no wait for another reason does. -/
theorem Answers.shows {cursor : Cursor} {suspension : Suspension} {w : Wake} {piece : Piece}
    (h : Answers st s.noteWait cursor w piece)
    (hs : Turn.Shows screen (.rest (some s) cursor suspension)) : piece.Shows screen := by
  cases hs with
  | choosing shown =>
    have hs' : Session.Shows { s.noteWait with choices := [] } screen :=
      ⟨shown.characters, shown.nodup, shown.line⟩
    cases h with
    | chooses => exact Engine.leave_shows hs' rfl ..
  | rest shown free other =>
    have hs' : s.noteWait.Shows screen := ⟨shown.characters, shown.nodup, shown.line⟩
    cases h with
    | appears node path fade next =>
      have hleave : (Engine.leave s.noteWait node next).Shows
          (screen.after [.showBackground path fade]) := Engine.leave_shows hs' free node next
      exact hleave.after ⟨trivial, trivial⟩
    | types | completes => exact Engine.reveal_shows hs' free _
    | leaves => exact Engine.leave_shows hs' free ..
    | speaks => exact Engine.beginLine_shows hs' free ..
    | chooses => exact absurd rfl (other _ _)

/-- Session and screen are alike at all times, and all intents make sense. -/
theorem shows_invariant (st : Staging) : Invariant st fun bs t =>
    Screen.Admits {} (Beat.intents bs) ∧ t.Shows (.ofIntents (Beat.intents bs)) where
  new := ⟨trivial, .idle rfl rfl⟩
  opens bs s h hs := by
    obtain ⟨scene, -, rfl⟩ := Option.map_eq_some_iff.1 hs
    obtain ⟨hadmits, hshows⟩ := h
    cases hshows with
    | idle empty silent =>
      have hnew : Session.Shows
          { scene, index := .ofScene scene, index_eq := rfl, boards := st.project.boards }
          (.ofIntents (Beat.intents bs)) := ⟨empty.symm, .nil, silent.symm⟩
      exact (Engine.enterScene_shows hnew rfl).append hadmits
  steps bs s id h := by
    obtain ⟨hadmits, hshows⟩ := h
    cases hshows with
    | run shown free => exact (Engine.step_shows st shown free id).append hadmits
  wakes bs s cursor reason timeout w piece h _ hpiece :=
    ((wake?_answers hpiece).shows h.2).append h.1
  stops bs t h _ := by
    have hstop : Piece.Shows (.ofIntents (Beat.intents bs))
        ⟨[.told .sessionStopped], .rest none .none .idle⟩ := ⟨⟨trivial, trivial⟩, .idle rfl rfl⟩
    exact hstop.append h.1
  rests bs cursor suspension h := by
    obtain ⟨-, hshows⟩ := h
    cases hshows
    exact ⟨rfl, rfl⟩

theorem StandsAt.shows {p : Playback} {t : Turn} (h : p.StandsAt t) (ht : t.Shows screen)
    (hs : p.session = some s) : s.Shows screen := by
  cases ht with
  | run shown | fail shown =>
    cases h
    cases hs
    exact shown
  | choosing shown | rest shown =>
    cases h
    rcases settle_session hs with rfl | rfl
    · exact shown
    · exact ⟨shown.characters, shown.nodup, shown.line⟩
  | idle =>
    cases h
    cases hs

/-- A session shows choices exactly while one of them is waited for. -/
theorem Awaits.shows {t : Session} {cursor : Cursor} {suspension : Suspension}
    (h : Awaits (some s) cursor suspension)
    (ht : Turn.Shows screen (.rest (some s) cursor suspension))
    (hs : (settle (some s) cursor suspension).session = some t) :
    t.choices = if suspension.state = .suspended .choice then screen.choices else [] := by
  have hkept : t.choices = s.choices := by
    rcases settle_session hs with rfl | rfl
    · rfl
    · rfl
  rw [hkept]
  cases ht with
  | choosing shown same =>
    cases h
    rw [same]
    rfl
  | rest shown free other =>
    rw [free]
    cases h with
    | choice node => exact absurd rfl (other node _)
    | fade | typing | shown | done => rfl

end Playback

/-- After all calls the session has on screen what the intents lead to, and all intents make
    sense; and as long as no call fails, it has the choices that were shown at last while it
    waits for one of them, and none otherwise. -/
theorem Calls.shows_screen (st : Staging) (cs : Calls) :
    let told := Beat.intents (cs.beats st)
    (∀ s, (cs.playback st).session = some s →
      s.characters = (Screen.ofIntents told).characters ∧ s.characters.Nodup ∧
      s.line = (Screen.ofIntents told).line) ∧
    (cs.Returned st → cs.Smooth st → ∀ s, (cs.playback st).session = some s →
      s.choices = if (cs.playback st).suspension.state = .suspended .choice
        then (Screen.ofIntents told).choices else []) ∧
    ∀ pre i post, told = pre ++ i :: post → (Screen.ofIntents pre).Allows i := by
  intro told
  have hshows := Playback.shows_invariant st
  obtain ⟨t, hp, ⟨hadmits, ht⟩, -⟩ := hshows.holds cs
  refine ⟨fun s hs => ?_, fun hr hsm s hs => ?_, fun pre i post hsplit => ?_⟩
  · obtain ⟨hcharacters, hnodup, hline⟩ := hp.shows ht hs
    exact ⟨hcharacters, hnodup, hline⟩
  · obtain ⟨u, cursor, suspension, hrest, hawaits, -, hu⟩ :=
      ((Playback.awaits_invariant st).and hshows).at_rest hr hsm
    rw [hrest] at hs ⊢
    cases u with
    | none => cases hawaits; cases hs
    | some u => exact hawaits.shows hu hs
  · have hadmits' : Screen.Admits {} (pre ++ i :: post) := by
      rw [← hsplit]
      exact hadmits
    exact hadmits'.allows

/-- The choice that is waited for is the one that was shown. -/
theorem Calls.shows_screen_prompt :
    Returned .prompt [(.start, 2)] ∧ Smooth .prompt [(.start, 2)] ∧
    (Screen.ofIntents (Beat.intents (beats .prompt [(.start, 2)]))).choices = ["Go"] ∧
    ∃ s, (playback .prompt [(.start, 2)]).session = some s ∧ s.choices = ["Go"] := by
  obtain ⟨s, -, hp, hbeats⟩ := reached_prompt
  have hchoices : (Screen.ofIntents (Beat.intents (beats .prompt [(.start, 2)]))).choices =
      ["Go"] := by
    rw [hbeats]
    rfl
  have hshows := (shows_screen .prompt [(.start, 2)]).2.1 returned_prompt smooth_prompt
  rw [hchoices] at hshows
  rw [hp] at hshows ⊢
  exact ⟨returned_prompt, smooth_prompt, hchoices, s.noteWait, rfl, hshows _ rfl⟩

end VisualNovel
