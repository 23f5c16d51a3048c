/-
  Dialogues tell the same to all players, however impatient they are.

  * `Engine.spoken` is what is told of a line, with so many of its beginnings, and
    `Engine.Spoken` what is told of several lines;
  * `Engine.Speaks`: what a dialogue told up to one of its waits, or until it was left;
  * `Playback.feed` hands wakes to a playback, and `Playback.feed_ticks` and
    `Playback.feed_skip` show a line that is being typed in two ways;
  * `Playback.speech_settled`: what is told in the end does not depend on the wakes.
-/
import VisualNovel.Proofs.Playback.Dwell

namespace VisualNovel

/-- Who is said to speak a dialogue. -/
def Dialogue.speaker (c : Config) (d : Dialogue) : String :=
  if d.playerLine then c.playerName else d.character

/-- How many beginnings of a text are shown before all of it is: none if it has one character
    at most, and otherwise some, but not all of its characters. -/
def Typed (length k : Nat) : Prop := length ≤ 1 ∧ k = 0 ∨ 1 ≤ k ∧ k < length

namespace Engine

/-- The beginnings of a text with one character and with more, up to a number. -/
def typed (speaker text : String) (k : Nat) : List Intent :=
  (List.range k).map fun i => .revealText speaker (String.ofList (text.toList.take (i + 1)))

theorem typed_succ (speaker text : String) (k : Nat) : typed speaker text (k + 1) =
    typed speaker text k ++ [.revealText speaker (String.ofList (text.toList.take (k + 1)))] := by
  rw [typed, List.range_succ, List.map_append]
  rfl

section
variable (st : Staging) (s : Session) (d : Dialogue) (l : Line)

/-- The sprite and the voice that a line begins with. -/
def cues : List Intent := (spriteOf st s d l).toList ++ (voiceOf st d l).toList

/-- The whole text of a line. -/
def shown : Intent := .showLine (d.speaker st.config) (st.config.personalize l.text)

/-- What is told of a line after so many of its beginnings. -/
def spoken (k : Nat) : List Intent :=
  cues st s d l ++ typed (d.speaker st.config) (st.config.personalize l.text) k ++ [shown st d l]

/-- What is told of lines one after the other. -/
inductive Spoken : List Line → List Intent → Prop where
  | nil : Spoken [] []
  | snoc {ls : List Line} {is : List Intent} {l : Line} {k : Nat} (before : Spoken ls is)
    (typed : Typed (st.config.personalize l.text).length k) :
    Spoken (ls ++ [l]) (is ++ spoken st s d l k)

end

/-! ## Cues -/

/-- A line changes the sprite of its character if it is not the player's, names a sprite that
    the character has, and finds the character on screen. -/
theorem spriteOf_eq_some {st : Staging} {s : Session} {d : Dialogue} {l : Line} {i : Intent} :
    spriteOf st s d l = some i ↔ d.playerLine = false ∧ l.sprite ≠ "" ∧
      s.isOnScreen d.character = true ∧ ∃ c path, st.project.character? d.character = some c ∧
        c.sprites.get? l.sprite = some path ∧
        i = .changeSprite d.character (st.assets.resolve path) := by
  rw [spriteOf]
  split
  · rename_i hcue
    simp only [reduceCtorEq, false_iff]
    rintro ⟨hplayer, hsprite, hshown, -⟩
    simp_all
  · rename_i hcue
    simp only [Bool.or_eq_true, String.isEmpty_iff, Bool.not_eq_eq_eq_not, Bool.not_true,
      not_or, Bool.not_eq_true, Bool.not_eq_false] at hcue
    simp [hcue, Option.bind_eq_some_iff, eq_comm (b := i)]

/-- A line has a voice if it names a sound that its character has. -/
theorem voiceOf_eq_some {st : Staging} {d : Dialogue} {l : Line} {i : Intent} :
    voiceOf st d l = some i ↔ l.audio ≠ "" ∧
      ∃ c path, st.project.character? d.character = some c ∧ c.sounds.get? l.audio = some path ∧
        i = .playVoice d.character (st.assets.resolve path) := by
  rw [voiceOf]
  split
  · rename_i hcue
    simp only [reduceCtorEq, false_iff]
    rintro ⟨haudio, -⟩
    simp_all
  · rename_i hcue
    simp only [String.isEmpty_iff] at hcue
    simp [hcue, Option.bind_eq_some_iff, eq_comm (b := i)]

/-! ## What does not depend on the wakes -/

section
variable {st : Staging} {s : Session} {d : Dialogue}

/-- What is told of a line but for its beginnings. -/
def settled (st : Staging) (s : Session) (d : Dialogue) (l : Line) : List Intent :=
  cues st s d l ++ [shown st d l]

theorem filter_cues (l : Line) : (cues st s d l).filter (!·.isProgress) = cues st s d l := by
  refine List.filter_eq_self.2 fun i hi => ?_
  cases cues_of_mem hi with
  | sprite | voice => rfl

theorem filter_typed (speaker text : String) (k : Nat) :
    (typed speaker text k).filter (!·.isProgress) = [] := by
  refine List.filter_eq_nil_iff.2 fun i hi => ?_
  obtain ⟨j, -, rfl⟩ := List.mem_map.1 hi
  simp [Intent.isProgress]

theorem filter_spoken (l : Line) (k : Nat) :
    (spoken st s d l k).filter (!·.isProgress) = settled st s d l := by
  rw [spoken, List.filter_append, List.filter_append, filter_cues, filter_typed, List.append_nil]
  rfl

/-- What is told of several lines, but for their beginnings, is the same whatever the
    beginnings are. -/
theorem Spoken.filter {ls : List Line} {is : List Intent} (h : Spoken st s d ls is) :
    is.filter (!·.isProgress) = ls.flatMap (settled st s d) := by
  induction h with
  | nil => rfl
  | snoc before typed ih =>
    rw [List.filter_append, ih, filter_spoken, List.flatMap_append]
    simp

end

/-! ## What a dialogue tells -/

/-- A later session with the same visits and the same characters on screen. -/
structure Alike (s t : Session) : Prop where
  characters : t.characters = s.characters
  visited : t.visited = s.visited

section
variable (st : Staging) (s : Session) (n : Node) (d : Dialogue)

/-- What is waited with while a line of a dialogue is typed or shown. -/
def speech (l : Line) (rest : List Line) (revealed : Nat) : Cursor :=
  .line ⟨n.id, d, rest, d.speaker st.config, st.config.personalize l.text, revealed,
    s.index.successor? n⟩

/-- What a dialogue told up to one of its waits, or until it was left. -/
inductive Speaks (piece : Piece) : Prop where
  /-- A line is being typed. -/
  | typing {ls : List Line} {is : List Intent} {l : Line} {rest : List Line} {k : Nat}
    {t : Session} {timeout : Duration} (lines : d.lines = ls ++ l :: rest)
    (before : Spoken st s d ls is)
    (told : Beat.intents piece.beats = is ++ (cues st s d l ++
      typed (d.speaker st.config) (st.config.personalize l.text) k))
    (begun : 1 ≤ k) (more : k < (st.config.personalize l.text).length) (alike : Alike s t)
    (turn : piece.turn = .rest (some t) (speech st s n d l rest k) (.wait .advance (some timeout)))
  /-- A line is shown. -/
  | shown {ls : List Line} {is : List Intent} {l : Line} {rest : List Line} {k : Nat}
    {t : Session} (lines : d.lines = ls ++ rest) (before : Spoken st s d ls is)
    (told : Beat.intents piece.beats = is)
    (all : (st.config.personalize l.text).length ≤ k) (alike : Alike s t)
    (turn : piece.turn = .rest (some t) (speech st s n d l rest k) (.wait .advance none))
  | left {is : List Intent} {t : Session} (before : Spoken st s d d.lines is) (alike : Alike s t)
    (told : Beat.intents piece.beats =
      is ++ Beat.intents (leave t n.id (s.index.successor? n)).beats)
    (turn : piece.turn = (leave t n.id (s.index.successor? n)).turn)

end

section
variable {st : Staging} {s t : Session} {n : Node} {d : Dialogue}

theorem Alike.cues (h : Alike s t) (l : Line) : cues st t d l = cues st s d l := by
  simp only [Engine.cues, spriteOf, Session.isOnScreen, h.characters]
  rfl

theorem Alike.leave (h : Alike s t) (id : NodeId) (next : Option NodeId) :
    (leave t id next).beats = (leave s id next).beats := by
  unfold Engine.leave
  cases next with
  | none => rfl
  | some i =>
    have hsame : t.hasVisited i = s.hasVisited i := congrArg (List.contains · i) h.visited
    dsimp only
    rw [hsame]
    cases s.hasVisited i <;> rfl

/-- A line that is to be shown as far as it is typed is told that far. -/
theorem reveal_speaks {ls : List Line} {is : List Intent} {l : Line} {rest : List Line} {j k : Nat}
    {bs : List Beat} (lines : d.lines = ls ++ l :: rest) (before : Spoken st s d ls is)
    (told : Beat.intents bs = is ++ (cues st s d l ++
      typed (d.speaker st.config) (st.config.personalize l.text) j))
    (hmore : k < (st.config.personalize l.text).length → k = j + 1)
    (hall : (st.config.personalize l.text).length ≤ k →
      Typed (st.config.personalize l.text).length j) (alike : Alike s t) :
    Speaks st s n d ((reveal st t ⟨n.id, d, rest, d.speaker st.config,
      st.config.personalize l.text, k, s.index.successor? n⟩).after bs) := by
  unfold reveal
  split
  · rename_i hk
    have hspoken := before.snoc (hall hk)
    refine .shown (by simpa using lines) hspoken ?_ hk ?_ rfl
    · simp [Piece.after, told, spoken, shown]
    · exact ⟨alike.characters, alike.visited⟩
  · rename_i hk
    obtain rfl := hmore (Nat.lt_of_not_le hk)
    refine .typing lines before ?_ (Nat.le_add_left 1 j) (Nat.lt_of_not_le hk) alike rfl
    simp [Piece.after, told, typed_succ]

/-- A line that begins tells its cues, and is told from its beginning. -/
theorem beginLine_speaks {ls : List Line} {is : List Intent} {l : Line} {rest : List Line}
    {bs : List Beat} (lines : d.lines = ls ++ l :: rest) (before : Spoken st s d ls is)
    (told : Beat.intents bs = is) (alike : Alike s t) :
    Speaks st s n d ((beginLine st t n.id d l rest (s.index.successor? n)).after bs) := by
  have hafter : (beginLine st t n.id d l rest (s.index.successor? n)).after bs =
      (reveal st t ⟨n.id, d, rest, d.speaker st.config, st.config.personalize l.text,
        min (st.config.personalize l.text).length 1, s.index.successor? n⟩).after
          (bs ++ (cues st t d l).map .told) := by
    simp [beginLine, Piece.after, cues, Dialogue.speaker]
  rw [hafter]
  refine reveal_speaks (j := 0) lines before ?_ (by omega) (fun h => .inl (by omega)) alike
  rw [Beat.intents_append, Beat.intents_told, told, alike.cues]
  simp [typed]

/-- What is told is told on when a line is waited with and a wake comes. -/
theorem Speaks.wakes {piece next : Piece} {t : Session} {cursor : Cursor} {reason : WaitReason}
    {timeout : Option Duration} {w : Wake} (h : Speaks st s n d piece)
    (hturn : piece.turn = .rest (some t) cursor (.wait reason timeout))
    (ha : (Suspension.wait reason timeout).accepts w = true)
    (hp : Playback.wake? st t.noteWait cursor w = some next) :
    Speaks st s n d (next.after piece.beats) := by
  cases h with
  | @typing ls is l rest k u timeout' lines before told begun more alike turn =>
    cases hturn.symm.trans turn
    have hlength : Typed (st.config.personalize l.text).length k := .inr ⟨begun, more⟩
    have halike : Alike s t.noteWait := ⟨alike.characters, alike.visited⟩
    cases Playback.wake?_answers hp with
    | types => exact reveal_speaks lines before told (fun _ => rfl) (fun _ => hlength) halike
    | completes =>
      refine reveal_speaks lines before told (fun h => ?_) (fun _ => hlength) halike
      exact absurd h (Nat.lt_irrefl _)
    | leaves all | speaks all => exact absurd more (Nat.not_lt.2 all)
  | @shown ls is l rest k u lines before told all alike turn =>
    cases hturn.symm.trans turn
    have halike : Alike s t.noteWait := ⟨alike.characters, alike.visited⟩
    cases Playback.wake?_answers hp with
    | types => cases ha
    | completes more => exact absurd all (Nat.not_le.2 more)
    | leaves _ last =>
      have hlines : d.lines = ls := by rw [lines, show rest = [] from last, List.append_nil]
      refine .left (hlines ▸ before) halike ?_ rfl
      rw [Piece.after, Beat.intents_append, told]
    | speaks _ more =>
      refine beginLine_speaks ?_ before told halike
      rw [lines]
      exact congrArg _ more
  | @left is u before alike told turn =>
    rcases leave_outcome u n.id (s.index.successor? n) with ⟨reason, hrest, -⟩ | ⟨i, -, -, hrun⟩
    · rw [hrest] at turn
      cases hturn.symm.trans turn
    · rw [hrun] at turn
      cases hturn.symm.trans turn

/-- A dialogue that is run tells what dialogues tell. -/
theorem perform_speaks (hd : n.content = .dialogue d) {bs : List Beat}
    (hbs : Beat.intents bs = []) : Speaks st s n d ((perform st s n).after bs) := by
  unfold perform
  rw [hd]
  dsimp only
  split
  · rename_i hlines
    have hnone : Spoken st s d d.lines [] := hlines ▸ .nil
    refine .left hnone ⟨rfl, rfl⟩ ?_ rfl
    rw [Piece.after, Beat.intents_append, hbs]
  · rename_i l rest hlines
    exact beginLine_speaks hlines .nil hbs ⟨rfl, rfl⟩

end

end Engine

namespace Playback
variable {st : Staging} {s : Session} {id : NodeId} {ws : List Wake} {r : Report} {n : Node}
  {d : Dialogue}

theorem Dwells.speaks (hn : s.index.node? s.scene id = some n) (hd : n.content = .dialogue d)
    (h : Dwells st s id ws r) :
    ∃ piece, Engine.Speaks st s n d piece ∧ r.EndsIn piece.turn ∧ r.beats = piece.beats := by
  refine h.induction (P := fun _ piece => Engine.Speaks st s n d piece) ?_ ?_ ?_
  · rw [Engine.step_eq hn]
    exact Engine.perform_speaks hd rfl
  · exact fun _ _ _ _ _ _ _ hspeaks => hspeaks
  · intro ws w bs t cursor reason timeout piece hspeaks ha hp
    exact hspeaks.wakes rfl ha hp

/-- A dialogue that was left told its lines, and then where it led if that was nowhere. -/
theorem Dwells.spoken (hn : s.index.node? s.scene id = some n) (hd : n.content = .dialogue d)
    (h : Dwells st s id ws r) (hleft : r.Left) : ∃ is, Engine.Spoken st s d d.lines is ∧
      Beat.intents r.beats =
        is ++ Beat.intents (Engine.leave s id (s.index.successor? n)).beats := by
  obtain ⟨piece, hspeaks, hends, hbeats⟩ := h.speaks hn hd
  have hid : n.id = id := (ConnectionIndex.mem_of_node? (s.index_eq ▸ hn)).2
  cases hspeaks with
  | typing _ _ _ _ _ _ turn | shown _ _ _ _ _ turn =>
    rw [Report.Left, hends.outcome, turn] at hleft
    rcases hleft with hleft | hleft <;> cases hleft
  | left spoken alike told =>
    refine ⟨_, spoken, ?_⟩
    rw [hbeats, told, alike.leave, hid]

/-! ## Ticks -/

/-- Hands wakes to a playback, one after the other. -/
def feed (st : Staging) (fuel : Nat) (p : Playback) (ws : List Wake) : Playback :=
  ws.foldl (fun p w => (p.resume st fuel w).playback) p

/-- A playback that waits while a line is typed. -/
def typing (s : Session) (l : LineCursor) (timeout : Duration) : Playback :=
  settle (some s) (.line l) (.wait .advance (some timeout))

/-- A playback that waits with a line that is shown. -/
def showing (s : Session) (l : LineCursor) : Playback :=
  settle (some { s with line := some (l.speaker, l.text) })
    (.line { l with revealed := l.text.length }) (.wait .advance none)

section
variable {l : LineCursor} {timeout : Duration} (fuel : Nat)

theorem resume_advance (h : l.revealed < l.text.length) :
    ((typing s l timeout).resume st fuel .advance).playback = showing s l := by
  have hwake : wake? st s.noteWait (.line l) .advance =
      some (Engine.reveal st s.noteWait { l with revealed := l.text.length }) := by
    rw [wake?, if_pos h]
  rw [typing, resume_settle rfl hwake, Engine.reveal, if_pos (Nat.le_refl _)]
  rfl

/-- The last tick shows the line. -/
theorem resume_last (h : l.revealed + 1 = l.text.length) :
    ((typing s l timeout).resume st fuel .timer).playback = showing s l := by
  have hwake : wake? st s.noteWait (.line l) .timer =
      some (Engine.reveal st s.noteWait { l with revealed := l.revealed + 1 }) := rfl
  rw [typing, resume_settle rfl hwake, Engine.reveal, h, if_pos (Nat.le_refl _)]
  rfl

/-- Any other tick types one character more. -/
theorem resume_tick (h : l.revealed + 1 < l.text.length) :
    ((typing s l timeout).resume st fuel .timer).playback =
      typing s { l with revealed := l.revealed + 1 } st.config.typewriterDelay := by
  have hwake : wake? st s.noteWait (.line l) .timer =
      some (Engine.reveal st s.noteWait { l with revealed := l.revealed + 1 }) := rfl
  rw [typing, resume_settle rfl hwake, Engine.reveal, if_neg (Nat.not_le.2 h)]
  rfl

/-- A line that is being typed is shown when all ticks have come. -/
theorem feed_ticks {k : Nat} (h : l.revealed + (k + 1) = l.text.length) :
    (typing s l timeout).feed st fuel (.replicate (k + 1) .timer) = showing s l := by
  induction k generalizing l timeout with
  | zero => exact resume_last fuel h
  | succ k ih =>
    rw [List.replicate_succ, feed, List.foldl_cons, resume_tick fuel (by omega)]
    exact ih (by dsimp only; omega)

/-- And so it is when it is advanced before all ticks have come. -/
theorem feed_skip {k : Nat} (h : l.revealed + k < l.text.length) :
    (typing s l timeout).feed st fuel (.replicate k .timer ++ [.advance]) = showing s l := by
  induction k generalizing l timeout with
  | zero => exact resume_advance fuel h
  | succ k ih =>
    rw [List.replicate_succ, List.cons_append, feed, List.foldl_cons,
      resume_tick fuel (by omega)]
    exact ih (by dsimp only; omega)

end

end Playback

/-- A playback that waits with a part of a line is typing it. -/
theorem Calls.typing_of_line (st : Staging) {cs : Calls} {l : LineCursor}
    (hl : (cs.playback st).cursor = .line l) (h : l.revealed < l.text.length) :
    ∃ s timeout, cs.playback st = Playback.typing s l timeout := by
  obtain ⟨t, hstands, hawaits, -⟩ := (Playback.awaits_invariant st).holds cs
  generalize cs.playback st = p at hl hstands
  cases hstands with
  | run => cases hl
  | fail s e last idle =>
    rcases idle with rfl | ⟨id, rfl⟩ <;> cases hl
  | rest s cursor suspension =>
    obtain rfl : cursor = .line l := hl
    cases hawaits with
    | typing s timeout => exact ⟨s, timeout, rfl⟩
    | shown _ shown => exact absurd shown (Nat.ne_of_lt h)

/-- Whatever wakes a dialogue is given until it is left, it tells its lines in their order:
    of each its sprite, its voice, the beginnings that were typed and the whole of it.  But
    for the beginnings that is the same for all wakes.  A sprite is only changed for a
    character who is on screen, and only what is found is told.  And from any part of a line
    on, the rest of its ticks and some of them with an advance have the same effect. -/
theorem Calls.speech_settled (st : Staging) :
    (∀ s id n d, s.index.node? s.scene id = some n → n.content = .dialogue d →
      ∀ ws r, Playback.Dwells st s id ws r → r.Left →
        let ended := Beat.intents (Engine.leave s id (s.index.successor? n)).beats
        (∃ is, Engine.Spoken st s d d.lines is ∧ Beat.intents r.beats = is ++ ended) ∧
        (Beat.intents r.beats).filter (!·.isProgress) =
          d.lines.flatMap (Engine.settled st s d) ++ ended) ∧
    (∀ s d l i, Engine.spriteOf st s d l = some i ↔ d.playerLine = false ∧ l.sprite ≠ "" ∧
      s.isOnScreen d.character = true ∧ ∃ c path, st.project.character? d.character = some c ∧
        c.sprites.get? l.sprite = some path ∧
        i = .changeSprite d.character (st.assets.resolve path)) ∧
    (∀ d l i, Engine.voiceOf st d l = some i ↔ l.audio ≠ "" ∧
      ∃ c path, st.project.character? d.character = some c ∧ c.sounds.get? l.audio = some path ∧
        i = .playVoice d.character (st.assets.resolve path)) ∧
    ∀ (cs : Calls) l, (cs.playback st).cursor = .line l → l.revealed < l.text.length →
      ∃ s, (cs.playback st).session = some s ∧ ∀ fuel,
        (cs.playback st).feed st fuel (.replicate (l.text.length - l.revealed) .timer) =
          Playback.showing s l ∧
        ∀ k, l.revealed + k < l.text.length →
          (cs.playback st).feed st fuel (.replicate k .timer ++ [.advance]) =
            Playback.showing s l := by
  refine ⟨fun s id n d hn hd ws r hr hleft => ?_, fun _ _ _ _ => Engine.spriteOf_eq_some,
    fun _ _ _ => Engine.voiceOf_eq_some, fun cs l hl h => ?_⟩
  · obtain ⟨is, hspoken, htold⟩ := hr.spoken hn hd hleft
    have hended : (Beat.intents (Engine.leave s id (s.index.successor? n)).beats).filter
        (!·.isProgress) = Beat.intents (Engine.leave s id (s.index.successor? n)).beats := by
      rcases Engine.leave_outcome s id (s.index.successor? n) with
        ⟨reason, hrest, -⟩ | ⟨_, -, -, hrun⟩
      · rw [hrest]
        rfl
      · rw [hrun]
        rfl
    refine ⟨⟨is, hspoken, htold⟩, ?_⟩
    rw [htold, List.filter_append, hspoken.filter, hended]
  · obtain ⟨s, timeout, hp⟩ := typing_of_line st hl h
    rw [hp]
    refine ⟨s.noteWait, rfl, fun fuel => ⟨?_, fun k hk => Playback.feed_skip fuel hk⟩⟩
    obtain ⟨k, hk⟩ : ∃ k, l.text.length - l.revealed = k + 1 := Nat.exists_eq_add_one.2 (by omega)
    rw [hk]
    exact Playback.feed_ticks fuel (by omega)

/-! ## A greeting -/

/-- Two lines. -/
def Dialogue.greeting : Dialogue where
  character := "Ann"
  lines := [{ text := "Hi" }, { text := "!" }]

/-- A scene in which these are spoken, and that is all. -/
def Scene.greeting : Scene where
  name := "A"
  nodes := [
    { id := ⟨⟨0⟩⟩
      content := .state .enter
      outputs := [{ id := ⟨⟨1⟩⟩, flow := .output, connected := true }] },
    { id := ⟨⟨2⟩⟩
      content := .dialogue .greeting
      inputs := [{ id := ⟨⟨3⟩⟩, flow := .input, connected := true }]
      outputs := [{ id := ⟨⟨4⟩⟩, flow := .output }] }]
  connections := [⟨⟨⟨1⟩⟩, ⟨⟨3⟩⟩⟩]

/-- The story of that scene. -/
def Staging.greeting : Staging where
  project := { name := "Greeting", scenes := [.greeting] }
  opening := "A"
  config := { playerName := "", typewriterDelay := .ofMillis 0 }

/-- The first line of the two, of which one character is shown. -/
def LineCursor.greeting : LineCursor :=
  ⟨⟨⟨2⟩⟩, .greeting, [{ text := "!" }], "Ann", "Hi", 1, none⟩

/-- The gate is run, which leads to the dialogue, and one character is shown. -/
theorem Playback.greeting_steps :
    ∃ (s t : Session) (n : Node),
      (∀ fuel, call .greeting fuel {} .start =
        (run .greeting .idle fuel s ⟨⟨0⟩⟩).after [.entered "A" []]) ∧
      Engine.step .greeting s ⟨⟨0⟩⟩ = ⟨[.ran ⟨⟨0⟩⟩], .run t ⟨⟨2⟩⟩⟩ ∧
      t.index.node? t.scene ⟨⟨2⟩⟩ = some n ∧ n.content = .dialogue .greeting ∧
      t.index.successor? n = none ∧
      Engine.step .greeting t ⟨⟨2⟩⟩ = ⟨[.ran ⟨⟨2⟩⟩, .told (.revealText "Ann" "H")],
        .rest (some t) (.line .greeting) (.wait .advance (some (.ofMillis 0)))⟩ := by
  obtain ⟨a, ha, hac, hai, hab⟩ : ∃ a,
      (ConnectionIndex.ofScene .greeting).node? .greeting ⟨⟨0⟩⟩ = some a ∧
      a.content = .state .enter ∧ a.id = ⟨⟨0⟩⟩ ∧
      (ConnectionIndex.ofScene .greeting).successor? a = some ⟨⟨2⟩⟩ := by
    refine ⟨_, ConnectionIndex.node?_ofScene _ _, rfl, rfl, ?_⟩
    rw [ConnectionIndex.successor?_ofScene]
    simp only [ConnectionIndex.owner?_ofScene]
    rfl
  obtain ⟨b, hb, hbc, hbi, hbs⟩ : ∃ b,
      (ConnectionIndex.ofScene .greeting).node? .greeting ⟨⟨2⟩⟩ = some b ∧
      b.content = .dialogue .greeting ∧ b.id = ⟨⟨2⟩⟩ ∧
      (ConnectionIndex.ofScene .greeting).successor? b = none := by
    refine ⟨_, ConnectionIndex.node?_ofScene _ _, rfl, rfl, ?_⟩
    rw [ConnectionIndex.successor?_ofScene]
    rfl
  let s : Session :=
    { scene := .greeting, index := .ofScene .greeting, index_eq := rfl, boards := []
      visited := [⟨⟨0⟩⟩], entries := [("A", [])] }
  let t : Session := { s with visited := [⟨⟨0⟩⟩, ⟨⟨2⟩⟩] }
  refine ⟨s, t, b, fun _ => rfl, ?_, hb, hbc, hbs, ?_⟩
  · rw [Engine.step_eq (s := s) ha, Engine.perform, hac]
    dsimp only
    rw [hab, hai]
    rfl
  · rw [Engine.step_eq (s := t) hb, Engine.perform, hbc]
    dsimp only [Dialogue.greeting]
    rw [hbs, hbi]
    rfl

/-- Both lines are told to a player who lets the first one be typed; and an advance shows it as
    the tick does that is left. -/
theorem Calls.speech_settled_greeting :
    ∃ s n r, s.index.node? s.scene ⟨⟨2⟩⟩ = some n ∧ n.content = .dialogue .greeting ∧
      Playback.Dwells .greeting s ⟨⟨2⟩⟩ [.timer, .advance, .advance] r ∧ r.Left ∧
      (Beat.intents r.beats).filter (!·.isProgress) =
        [.showLine "Ann" "Hi", .showLine "Ann" "!", .chainEnded (.deadEnd ⟨⟨2⟩⟩)] ∧
      (playback .greeting [(.start, 2)]).cursor = .line .greeting ∧
      LineCursor.greeting.revealed < LineCursor.greeting.text.length ∧
      (playback .greeting [(.start, 2)]).feed .greeting 0 [.advance] =
        (playback .greeting [(.start, 2)]).feed .greeting 0 [.timer] := by
  obtain ⟨s, t, n, hstart, henter, hn, hd, hnext, hspeak⟩ := Playback.greeting_steps
  obtain ⟨htold, -, -, hticks⟩ := speech_settled .greeting
  have hrun : Playback.run .greeting .idle 1 t ⟨⟨2⟩⟩ =
      ⟨.typing t .greeting (.ofMillis 0), [.ran ⟨⟨2⟩⟩, .told (.revealText "Ann" "H")],
        .suspended (.wait .advance (some (.ofMillis 0)))⟩ := by
    rw [Playback.run, hspeak]
    rfl
  have hruns : Playback.Dwells .greeting t ⟨⟨2⟩⟩ [] _ := .runs .idle
  rw [hrun] at hruns
  have htyped : Playback.Dwells .greeting t ⟨⟨2⟩⟩ [.timer] ⟨.showing t .greeting,
      [.ran ⟨⟨2⟩⟩, .told (.revealText "Ann" "H"), .told (.showLine "Ann" "Hi")],
      .suspended (.wait .advance none)⟩ := hruns.wakes .timer rfl rfl
  have hadvanced : Playback.Dwells .greeting t ⟨⟨2⟩⟩ [.timer, .advance] ⟨_, _,
      .suspended (.wait .advance none)⟩ := htyped.wakes .advance rfl rfl
  have hdwells := hadvanced.wakes .advance rfl rfl
  have hplayback : playback .greeting [(.start, 2)] = .typing t .greeting (.ofMillis 0) := by
    rw [playback, playback, hstart, Playback.run_of_step henter, Playback.run, hspeak]
    rfl
  have hcursor : (playback .greeting [(.start, 2)]).cursor = .line .greeting := by
    rw [hplayback]
    rfl
  have htyping : LineCursor.greeting.revealed < LineCursor.greeting.text.length := by decide
  obtain ⟨u, -, hfeed⟩ := hticks _ _ hcursor htyping
  obtain ⟨hall, hskip⟩ := hfeed 0
  refine ⟨t, n, _, hn, hd, hdwells, .inr rfl, ?_, hcursor, htyping, ?_⟩
  · obtain ⟨-, hsettled⟩ := htold t _ n _ hn hd _ _ hdwells (.inr rfl)
    rw [hsettled, hnext]
    rfl
  · exact (hskip 0 htyping).trans hall.symm

end VisualNovel
