/-
  In which order a host is told things.

  * `Note`s are what a host can tell of calls: that a session is opened or closed, the
    intents, and that a call failed; `Calls.journal` are the notes of all calls;
  * `Standing.Next` is an automaton that reads notes, and `Engine.step_tells` and
    `Playback.Answers.tells` say that it can read those of every node and every wake;
  * `Journal.Orderly`: what comes of that for the journal, without the automaton;
  * `Calls.journal_orderly`: the journal of all calls is orderly.
-/
import VisualNovel.Proofs.Playback.History

namespace VisualNovel

/-! ## Journals -/

/-- What a host can tell of calls. -/
inductive Note where
  /-- A session is opened. -/
  | opened
  | told (i : Intent)
  /-- The session is over. -/
  | closed
  /-- A call failed. -/
  | failed (e : PlaybackError)
  deriving DecidableEq

/-- Whether a note says that the chain of nodes ended or that a call failed. -/
def Note.isLast : Note → Bool
  | told (.chainEnded _) | failed _ => true
  | _ => false

/-- Whether a session is open after a note. -/
def Note.leavesOpen (isOpen : Bool) : Note → Bool
  | opened => true
  | closed => false
  | _ => isOpen

/-- Notes in the order in which they were taken. -/
abbrev Journal := List Note

namespace Journal

/-- The intents of a journal. -/
def intents (ns : Journal) : List Intent :=
  ns.filterMap fun
    | .told i => some i
    | _ => none

/-- Whether a session was opened and not closed after that. -/
def isOpen (ns : Journal) : Bool := ns.foldl Note.leavesOpen false

end Journal

/-- The notes on what happens in playback. -/
def Beat.notes (bs : List Beat) : Journal := (intents bs).map .told

/-- The notes on a call, before which a session was open or not. -/
def Report.notes (wasOpen : Bool) (r : Report) : Journal :=
  Beat.notes r.beats ++ (if wasOpen && r.playback.session.isNone then [.closed] else []) ++
    match r.outcome with
    | .failed e => [.failed e]
    | _ => []

/-- The notes on a call.  A start is a stop, after which a session is opened if there is a
    scene for it. -/
def Playback.notes (st : Staging) (fuel : Nat) (p : Playback) : Call → Journal
  | .start =>
    let opens := (Session.open? st.project st.opening).isSome
    (p.call st fuel .stop).notes p.session.isSome ++ (if opens then [.opened] else []) ++
      (p.stop.1.call st fuel .start).notes opens
  | c => (p.call st fuel c).notes p.session.isSome

/-- The notes on all calls. -/
def Calls.journal (st : Staging) : Calls → Journal
  | [] => []
  | (c, fuel) :: cs => journal st cs ++ (playback st cs).notes st fuel c

/-! ## Standings -/

/-- How far a session has come, and if it is not closed, whether the last that was told is
    that it stopped. -/
inductive Standing where
  | closed
  | playing (stopped : Bool)
  /-- The chain of nodes ended, or a call failed. -/
  | ended (stopped : Bool)

/-- Whether an intent has its place anywhere in a session that is played. -/
def Intent.isPlain : Intent → Bool
  | sessionStopped | chainEnded _ | switchScene .. => false
  | _ => true

namespace Standing

/-- Which notes may be taken of a session that stands so. -/
inductive Next : Standing → Note → Standing → Prop where
  | opens : Next closed .opened (playing false)
  /-- There is no scene to open a session on. -/
  | misses (e : PlaybackError) : Next closed (.failed e) closed
  | tells {i : Intent} (b : Bool) (plain : i.isPlain = true) :
    Next (playing b) (.told i) (playing false)
  | stops (b : Bool) : Next (playing b) (.told .sessionStopped) (playing true)
  | switches (scene : String) (fade : Binary64) :
    Next (playing true) (.told (.switchScene scene fade)) (playing false)
  | ends (b : Bool) (reason : ChainEnd) :
    Next (playing b) (.told (.chainEnded reason)) (ended false)
  | fails (b : Bool) (e : PlaybackError) : Next (playing b) (.failed e) (ended false)
  /-- A session that is over is stopped. -/
  | leaves : Next (ended false) (.told .sessionStopped) (ended true)
  | closes : Next (playing true) .closed closed
  | quits : Next (ended true) .closed closed

/-- From one standing to another one over a journal. -/
inductive Runs : Standing → Journal → Standing → Prop where
  | nil (p : Standing) : Runs p [] p
  | cons {p q r : Standing} {n : Note} {ns : Journal} (next : Next p n q) (runs : Runs q ns r) :
    Runs p (n :: ns) r

/-- Whether a session is open. -/
def isOpen : Standing → Bool
  | closed => false
  | playing _ | ended _ => true

/-- Whether a session is open that was told to stop. -/
def isStopped : Standing → Bool
  | closed => false
  | playing stopped | ended stopped => stopped

variable {p q r : Standing} {n : Note} {ns ms : Journal}

theorem Next.runs (h : Next p n q) : Runs p [n] q := .cons h (.nil q)

theorem Runs.append (h : Runs p ns q) (h' : Runs q ms r) : Runs p (ns ++ ms) r := by
  induction h with
  | nil => exact h'
  | cons next _ ih => exact .cons next (ih h')

theorem Runs.split (h : Runs p (ns ++ ms) r) : ∃ q, Runs p ns q ∧ Runs q ms r := by
  induction ns generalizing p with
  | nil => exact ⟨p, .nil p, h⟩
  | cons n ns ih =>
    cases h with
    | cons next runs =>
      obtain ⟨q, hns, hms⟩ := ih runs
      exact ⟨q, .cons next hns, hms⟩

end Standing

/-! ## Order -/

namespace Journal

/-- A journal without intents. -/
def Quiet (ns : Journal) : Prop := ∀ i, .told i ∉ ns

/-- What is told of sessions, and when. -/
structure Orderly (ns : Journal) : Prop where
  /-- A session is opened only after the last one was closed. -/
  opens : ∀ pre post, ns = pre ++ .opened :: post → isOpen pre = false
  /-- That it stopped is the last that is told of a session. -/
  closes : ∀ pre post, ns = pre ++ .closed :: post →
    ∃ told, pre = told ++ [.told .sessionStopped]
  /-- After a session is closed nothing is told until one is opened. -/
  quiet : ∀ pre mid post, ns = pre ++ .closed :: (mid ++ post) → .opened ∉ mid → Quiet mid
  /-- After the chain of nodes ended or a call failed, nothing is told until a session is
      opened but that this one stopped, and then it is closed. -/
  ended : ∀ pre n mid post, ns = pre ++ n :: (mid ++ post) → n.isLast = true → .opened ∉ mid →
    Quiet mid ∨ ∃ rest, mid = .told .sessionStopped :: rest ∧ Quiet rest ∧
      ∀ m ∈ rest.head?, m = .closed
  /-- A scene is switched right after it is told that the session stopped. -/
  switches : ∀ pre scene fade post, ns = pre ++ .told (.switchScene scene fade) :: post →
    ∃ told, pre = told ++ [.told .sessionStopped]

end Journal

namespace Standing
variable {p q : Standing} {n : Note} {ns : Journal}

theorem Runs.foldl_leavesOpen (h : Runs p ns q) :
    ns.foldl Note.leavesOpen p.isOpen = q.isOpen := by
  induction h with
  | nil => rfl
  | cons next _ ih =>
    rw [List.foldl_cons, ← ih]
    cases next <;> rfl

/-- What a session was told at last that was told to stop is that it stopped. -/
theorem Runs.told_stopped (h : Runs closed ns p) (hp : p.isStopped = true) :
    ∃ told, ns = told ++ [.told .sessionStopped] := by
  rcases List.eq_nil_or_concat ns with rfl | ⟨told, n, rfl⟩
  · cases h
    cases hp
  · refine ⟨told, ?_⟩
    rw [List.concat_eq_append] at h ⊢
    obtain ⟨q, -, hn⟩ := h.split
    cases hn with
    | cons next runs =>
      cases runs
      cases next with
      | stops | leaves => rfl
      | opens | misses | tells | switches | ends | fails | closes | quits => cases hp

/-- Nothing is told while no session is open. -/
theorem Runs.quiet (h : Runs closed ns p) (hn : .opened ∉ ns) : Journal.Quiet ns := by
  generalize hc : closed = q at h
  induction h with
  | nil => exact fun _ => List.not_mem_nil
  | cons next _ ih =>
    subst hc
    cases next with
    | opens => exact absurd List.mem_cons_self hn
    | misses e =>
      intro i hi
      cases hi with
      | tail _ hi => exact ih (fun ho => hn (List.mem_cons_of_mem _ ho)) rfl i hi

/-- Nothing is told of a session that is over but that it stopped. -/
theorem Runs.ended (h : Runs (ended false) ns p) (hn : .opened ∉ ns) :
    ns = [] ∨ ∃ rest, ns = .told .sessionStopped :: rest ∧ Journal.Quiet rest ∧
      ∀ m ∈ rest.head?, m = .closed := by
  cases h with
  | nil => exact .inl rfl
  | cons next runs =>
    cases next with
    | leaves =>
      refine .inr ⟨_, rfl, ?_⟩
      cases runs with
      | nil => exact ⟨fun _ => List.not_mem_nil, nofun⟩
      | cons next runs =>
        cases next with
        | quits =>
          have hquiet := runs.quiet fun ho =>
            hn (List.mem_cons_of_mem _ (List.mem_cons_of_mem _ ho))
          refine ⟨fun i hi => ?_, fun m hm => (Option.some.inj hm).symm⟩
          cases hi with
          | tail _ hi => exact hquiet i hi

/-- A journal that can be read is orderly. -/
theorem Runs.orderly (h : Runs closed ns p) : ns.Orderly where
  opens := by
    rintro pre post rfl
    obtain ⟨q, hpre, hpost⟩ := h.split
    cases hpost with
    | cons next runs =>
      cases next with
      | opens => exact hpre.foldl_leavesOpen
  closes := by
    rintro pre post rfl
    obtain ⟨q, hpre, hpost⟩ := h.split
    cases hpost with
    | cons next runs => exact hpre.told_stopped (by cases next <;> rfl)
  quiet := by
    rintro pre mid post rfl hn
    obtain ⟨q, -, hpost⟩ := h.split
    cases hpost with
    | cons next runs =>
      obtain ⟨r, hmid, -⟩ := runs.split
      cases next with
      | closes | quits => exact hmid.quiet hn
  ended := by
    rintro pre n mid post rfl hlast hn
    obtain ⟨q, -, hpost⟩ := h.split
    cases hpost with
    | cons next runs =>
      obtain ⟨r, hmid, -⟩ := runs.split
      cases next with
      | misses => exact .inl (hmid.quiet hn)
      | ends | fails =>
        refine (hmid.ended hn).imp_left ?_
        rintro rfl
        exact fun _ => List.not_mem_nil
      | @tells i b plain =>
        cases i with
        | chainEnded => cases plain
        | _ => cases hlast
      | opens | stops | switches | leaves | closes | quits => cases hlast
  switches := by
    rintro pre scene fade post rfl
    obtain ⟨q, hpre, hpost⟩ := h.split
    cases hpost with
    | cons next runs =>
      cases next with
      | switches => exact hpre.told_stopped rfl
      | tells b plain => cases plain

end Standing

/-! ## Nodes and wakes -/

@[simp] theorem Beat.notes_append (as bs : List Beat) :
    notes (as ++ bs) = notes as ++ notes bs := by
  simp [notes]

@[simp] theorem Beat.notes_told (is : List Intent) : notes (is.map .told) = is.map .told := by
  rw [notes, intents_told]

/-- How a session stands at a turn, before the notes on the end of the call. -/
inductive Turn.Fits : Turn → Standing → Prop where
  | run (s : Session) (id : NodeId) (b : Bool) : Fits (.run s id) (.playing b)
  | waits (s : Session) (cursor : Cursor) (reason : WaitReason) (timeout : Option Duration)
    (b : Bool) : Fits (.rest (some s) cursor (.wait reason timeout)) (.playing b)
  | done (s : Session) : Fits (.rest (some s) .none .done) (.ended false)
  | idle : Fits (.rest none .none .idle) (.playing true)
  | fail (s : Session) (e : PlaybackError) (b : Bool) : Fits (.fail s e) (.playing b)

/-- A turn to which some beats may lead when a session stands so before them. -/
def Turn.Tells (p : Standing) (bs : List Beat) (t : Turn) : Prop :=
  ∃ q, p.Runs (Beat.notes bs) q ∧ t.Fits q

/-- A piece of playback that may come when a session stands so. -/
def Piece.Tells (p : Standing) (piece : Piece) : Prop := piece.turn.Tells p piece.beats

theorem Piece.Tells.after {p q : Standing} {told : List Beat} {piece : Piece}
    (h : piece.Tells q) (ht : p.Runs (Beat.notes told) q) : (piece.after told).Tells p := by
  obtain ⟨r, hr, hfits⟩ := h
  refine ⟨r, ?_, hfits⟩
  rw [Piece.after, Beat.notes_append]
  exact ht.append hr

namespace Engine
variable {st : Staging} {s : Session} (b : Bool)

theorem enterScene_tells (s : Session) : (enterScene s).Tells (.playing b) := by
  rcases enterScene_outcome s with ⟨-, hfail⟩ | ⟨-, ⟨-, hrest⟩ | ⟨n, -, hrun⟩⟩
  · rw [hfail]
    exact ⟨.playing b, .nil _, .fail ..⟩
  · rw [hrest]
    exact ⟨.ended false, (Standing.Next.ends b _).runs, .done _⟩
  · rw [hrun]
    exact ⟨.playing b, .nil _, .run ..⟩

theorem leave_tells (s : Session) (node : NodeId) (next : Option NodeId) :
    (leave s node next).Tells (.playing b) := by
  rcases leave_outcome s node next with ⟨reason, hrest, -⟩ | ⟨n, -, -, hrun⟩
  · rw [hrest]
    exact ⟨.ended false, (Standing.Next.ends b reason).runs, .done s⟩
  · rw [hrun]
    exact ⟨.playing b, .nil _, .run ..⟩

theorem reveal_tells (l : LineCursor) : (reveal st s l).Tells (.playing b) := by
  rcases reveal_outcome st s l with ⟨-, hshow⟩ | ⟨-, text, htype⟩
  · rw [hshow]
    exact ⟨.playing false, (Standing.Next.tells b rfl).runs, .waits ..⟩
  · rw [htype]
    exact ⟨.playing false, (Standing.Next.tells b rfl).runs, .waits ..⟩

/-- A session that is told what has its place anywhere goes on being played. -/
theorem exists_runs_told {is : List Intent} (h : ∀ i ∈ is, i.isPlain = true) :
    ∃ c, (Standing.playing b).Runs (is.map .told) (.playing c) := by
  induction is generalizing b with
  | nil => exact ⟨b, .nil _⟩
  | cons i is ih =>
    obtain ⟨c, hc⟩ := ih false fun j hj => h j (List.mem_cons_of_mem _ hj)
    exact ⟨c, .cons (.tells b (h i List.mem_cons_self)) hc⟩

theorem beginLine_tells (node : NodeId) (d : Dialogue) (l : Line) (rest : List Line)
    (next : Option NodeId) : (beginLine st s node d l rest next).Tells (.playing b) := by
  obtain ⟨told, l', hcues, -, hline⟩ := beginLine_outcome st s node d l rest next
  rw [hline]
  have hplain : ∀ i ∈ told, i.isPlain = true := by
    intro i hi
    cases hcues i hi with
    | sprite | voice => rfl
  obtain ⟨c, hc⟩ := exists_runs_told b hplain
  rw [← Beat.notes_told] at hc
  exact (reveal_tells c l').after hc

theorem step_tells (st : Staging) (s : Session) (id : NodeId) :
    (step st s id).Tells (.playing b) := by
  obtain ⟨piece, hacts, hstep⟩ := step_acts st s id
  rw [hstep]
  refine Piece.Tells.after (q := .playing b) ?_ (.nil _)
  cases hacts with
  | leaves passed =>
    cases passed with
    | writes => exact leave_tells ..
    | shows | hides => exact (leave_tells false ..).after (Standing.Next.tells b rfl).runs
  | fades => exact ⟨.playing b, .nil _, .waits ..⟩
  | speaks => exact beginLine_tells ..
  | offers => exact ⟨.playing false, (Standing.Next.tells b rfl).runs, .waits ..⟩
  | fails => exact ⟨.playing b, .nil _, .fail ..⟩
  | restarts => exact (enterScene_tells true _).after (Standing.Next.stops b).runs
  | ends => exact ⟨.playing true, (Standing.Next.stops b).runs, .idle⟩
  | switches name fade =>
    have hswitch := (Standing.Next.switches name fade).runs
    exact (enterScene_tells false _).after (.cons (.stops b) hswitch)
  | strays name => exact ⟨.ended false, (Standing.Next.ends b _).runs, .done s⟩

end Engine

theorem Playback.Answers.tells {st : Staging} {s : Session} {cursor : Cursor} {w : Wake}
    {piece : Piece} (h : Answers st s cursor w piece) (b : Bool) : piece.Tells (.playing b) := by
  cases h with
  | appears => exact (Engine.leave_tells false ..).after (Standing.Next.tells b rfl).runs
  | types | completes => exact Engine.reveal_tells b _
  | leaves | chooses => exact Engine.leave_tells ..
  | speaks => exact Engine.beginLine_tells ..

/-! ## Calls -/

/-- How a session stands after a call that ended with a turn. -/
inductive Turn.Leaves : Turn → Standing → Prop where
  | run (s : Session) (id : NodeId) (b : Bool) : Leaves (.run s id) (.playing b)
  | waits (s : Session) (cursor : Cursor) (reason : WaitReason) (timeout : Option Duration)
    (b : Bool) : Leaves (.rest (some s) cursor (.wait reason timeout)) (.playing b)
  | done (s : Session) : Leaves (.rest (some s) .none .done) (.ended false)
  | idle : Leaves (.rest none .none .idle) .closed
  | fail (s : Session) (e : PlaybackError) : Leaves (.fail s e) (.ended false)

/-- A playback that stands at a turn with a session that stands so. -/
def Playback.Stands (p : Playback) (q : Standing) : Prop := ∃ t, p.StandsAt t ∧ t.Leaves q

/-- The end of a call is noted. -/
theorem Report.EndsIn.notes {r : Report} {t : Turn} {p q : Standing} (h : r.EndsIn t)
    (ht : t.Fits q) (hr : p.Runs (Beat.notes r.beats) q) :
    ∃ q', p.Runs (r.notes true) q' ∧ r.playback.Stands q' := by
  obtain ⟨playback, beats, outcome⟩ := r
  obtain ⟨hstands, rfl⟩ := h
  cases ht with
  | run s id b =>
    refine ⟨.playing b, ?_, _, hstands, .run s id b⟩
    cases hstands
    simpa [Report.notes, Turn.outcome] using hr
  | waits s cursor reason timeout b =>
    refine ⟨.playing b, ?_, _, hstands, .waits s cursor reason timeout b⟩
    cases hstands
    simpa [Report.notes, Turn.outcome, Playback.settle, Suspension.isWaiting] using hr
  | done s =>
    refine ⟨.ended false, ?_, _, hstands, .done s⟩
    cases hstands
    simpa [Report.notes, Turn.outcome, Playback.settle, Suspension.isWaiting] using hr
  | idle =>
    refine ⟨.closed, ?_, _, hstands, .idle⟩
    cases hstands
    simpa [Report.notes, Turn.outcome, Playback.settle, Suspension.isWaiting] using
      hr.append Standing.Next.closes.runs
  | fail s e b =>
    refine ⟨.ended false, ?_, _, hstands, .fail s e⟩
    cases hstands
    simpa [Report.notes, Turn.outcome] using hr.append (Standing.Next.fails b e).runs

namespace Playback
variable {st : Staging}

/-- Playback that goes on from a piece that may come can be noted. -/
theorem follow_notes {p : Standing} {piece : Piece} (h : piece.Tells p) (last : Suspension)
    (fuel : Nat) :
    ∃ q, p.Runs ((follow st last fuel piece).notes true) q ∧
      (follow st last fuel piece).playback.Stands q := by
  have hstep : ∀ bs s id, Turn.Tells p bs (.run s id) →
      (Engine.step st s id).turn.Tells p (bs ++ (Engine.step st s id).beats) := by
    rintro bs s id ⟨q, hq, hfits⟩
    cases hfits with
    | run _ _ b =>
      obtain ⟨r, hr, hfits'⟩ := Engine.step_tells b st s id
      exact ⟨r, Beat.notes_append _ _ ▸ hq.append hr, hfits'⟩
  have hpiece : piece.turn.Tells p ([] ++ piece.beats) := h
  obtain ⟨t, hends, q, hq, hfits⟩ := follow_endsIn hstep last fuel hpiece
  exact hends.notes hfits hq

variable {p : Playback} {q : Standing} {fuel : Nat}

theorem Stands.isSome_session (h : p.Stands q) : p.session.isSome = q.isOpen := by
  obtain ⟨t, hp, ht⟩ := h
  cases ht <;> cases hp <;> rfl

/-- Without a session nothing but a start does anything. -/
theorem call_of_closed (hp : p.session = none) {c : Call} (hc : c ≠ .start) :
    p.call st fuel c = ⟨p, [], .suspended p.suspension⟩ := by
  cases c with
  | start => exact absurd rfl hc
  | stop => rw [call, stop_of_closed hp]
  | resume w =>
    rw [call, resume, hp]
    simp

/-- There is nothing to note if nothing happens. -/
theorem notes_same (p : Playback) :
    Report.notes p.session.isSome ⟨p, [], .suspended p.suspension⟩ = [] := by
  cases hs : p.session with
  | none => rfl
  | some s => simp [Report.notes, hs, Beat.notes, Beat.intents]

/-- A session that is stopped is told so, and that is all. -/
theorem Stands.stop (h : p.Stands q) (st : Staging) (fuel : Nat) : p.stop.1.Stands .closed ∧
    q.Runs ((p.call st fuel .stop).notes p.session.isSome) .closed := by
  obtain ⟨t, hp, ht⟩ := h
  cases ht with
  | run s id b | waits s cursor reason timeout b =>
    cases hp
    exact ⟨⟨_, .new, .idle⟩, .cons (.stops b) (.cons .closes (.nil _))⟩
  | done s | fail s e =>
    cases hp
    exact ⟨⟨_, .new, .idle⟩, .cons .leaves (.cons .quits (.nil _))⟩
  | idle =>
    cases hp
    exact ⟨⟨_, .new, .idle⟩, .nil _⟩

/-- A call can be noted. -/
theorem Stands.call (h : p.Stands q) (st : Staging) (fuel : Nat) (c : Call) :
    ∃ r, q.Runs (p.notes st fuel c) r ∧ (p.call st fuel c).playback.Stands r := by
  obtain ⟨hstopped, hstop⟩ := h.stop st fuel
  cases c with
  | stop => exact ⟨.closed, hstop, hstopped⟩
  | start =>
    -- the old session is closed, and then the new one goes on from its first scene
    simp only [notes, Playback.call] at hstop ⊢
    rw [start_eq st fuel p, Report.playback_after]
    rcases start_cases st p.stop.1 with ⟨hs, hp⟩ | ⟨s, hs, hp⟩
    · rw [hs, hp, stop_of_closed p.session_stop]
      exact ⟨.closed, (hstop.append (.nil _)).append (Standing.Next.misses _).runs, hstopped⟩
    · rw [hs, hp, stop_of_closed p.session_stop]
      obtain ⟨r, hr, hstands⟩ := follow_notes (Engine.enterScene_tells false s) _ fuel
      exact ⟨r, (hstop.append Standing.Next.opens.runs).append hr, hstands⟩
  | resume w =>
    obtain ⟨t, hp, ht⟩ := h
    simp only [notes, Playback.call]
    rcases hp.resume_cases st w with
      hresume | ⟨s, cursor, reason, timeout, piece, rfl, -, hpiece, hresume⟩
    · rw [hresume]
      refine ⟨q, ?_, t, hp, ht⟩
      rw [notes_same]
      exact .nil q
    · cases hp
      cases ht with
      | waits _ _ _ _ b =>
        rw [hresume]
        exact follow_notes ((wake?_answers hpiece).tells b) _ fuel

end Playback

namespace Calls
variable (st : Staging)

/-- The calls of a host can be noted. -/
theorem runs_journal (cs : Calls) :
    ∃ q, Standing.closed.Runs (cs.journal st) q ∧ (cs.playback st).Stands q := by
  induction cs with
  | nil => exact ⟨.closed, .nil _, _, .new, .idle⟩
  | cons call cs ih =>
    obtain ⟨c, fuel⟩ := call
    obtain ⟨q, hq, hstands⟩ := ih
    obtain ⟨r, hr, hstands'⟩ := hstands.call st fuel c
    exact ⟨r, hq.append hr, hstands'⟩

end Calls

/-! ## Intents -/

namespace Journal

@[simp] theorem intents_append (ns ms : Journal) : intents (ns ++ ms) = intents ns ++ intents ms :=
  List.filterMap_append

@[simp] theorem intents_notes (bs : List Beat) : intents (Beat.notes bs) = Beat.intents bs := by
  rw [intents, Beat.notes, List.filterMap_map]
  exact List.filterMap_some

end Journal

@[simp] theorem Report.intents_notes (b : Bool) (r : Report) :
    (r.notes b).intents = Beat.intents r.beats := by
  rw [notes, Journal.intents_append, Journal.intents_append, Journal.intents_notes]
  have hclosed : Journal.intents
      (if b && r.playback.session.isNone then [.closed] else []) = [] := by
    split <;> rfl
  have hfailed : Journal.intents (match r.outcome with
      | .failed e => [.failed e]
      | _ => []) = [] := by
    split <;> rfl
  rw [hclosed, hfailed, List.append_nil, List.append_nil]

/-- The intents that are noted of a call are those that are told in it. -/
theorem Playback.intents_notes (st : Staging) (fuel : Nat) (p : Playback) (c : Call) :
    (p.notes st fuel c).intents = Beat.intents (p.call st fuel c).beats := by
  cases c with
  | stop | resume => exact Report.intents_notes ..
  | start =>
    have hopened : Journal.intents
        (if (Session.open? st.project st.opening).isSome then [.opened] else []) = [] := by
      split <;> rfl
    rw [notes, Journal.intents_append, Journal.intents_append, hopened, Report.intents_notes,
      Report.intents_notes, List.append_nil, call, call, call, start_eq st fuel p, Report.after,
      Beat.intents_append]

theorem Calls.intents_journal (st : Staging) (cs : Calls) :
    (cs.journal st).intents = Beat.intents (cs.beats st) := by
  induction cs with
  | nil => rfl
  | cons call cs ih =>
    rw [journal, beats, Journal.intents_append, Beat.intents_append, ih, Playback.intents_notes]
    rfl

/-- The journal of all calls is orderly, and it is complete: it has all intents, it says
    whether a session is open, and without a session nothing but a start does anything. -/
theorem Calls.journal_orderly (st : Staging) (cs : Calls) :
    (cs.journal st).Orderly ∧ (cs.journal st).intents = Beat.intents (cs.beats st) ∧
    (cs.journal st).isOpen = (cs.playback st).session.isSome ∧
    ((cs.playback st).session = none → ∀ c fuel, c ≠ .start →
      (cs.playback st).call st fuel c =
        ⟨cs.playback st, [], .suspended (cs.playback st).suspension⟩) := by
  obtain ⟨q, hq, hstands⟩ := runs_journal st cs
  refine ⟨hq.orderly, intents_journal st cs, ?_, fun hs c fuel => Playback.call_of_closed hs⟩
  rw [hstands.isSome_session]
  exact hq.foldl_leavesOpen

/-- A choice is shown, and the session is stopped. -/
theorem Calls.journal_orderly_prompt :
    journal .prompt [(.stop, 0), (.start, 2)] =
      [.opened, .told (.showChoices ["Go"]), .told .sessionStopped, .closed] ∧
    (journal .prompt [(.stop, 0), (.start, 2)]).Orderly ∧
    (playback .prompt [(.stop, 0), (.start, 2)]).session = none := by
  obtain ⟨s, -, hstart⟩ := Playback.start_prompt
  have hp : playback .prompt [(.start, 2)] = _ := congrArg Report.playback hstart
  have hjournal : journal .prompt [(.stop, 0), (.start, 2)] =
      [.opened, .told (.showChoices ["Go"]), .told .sessionStopped, .closed] := by
    have hstarted : journal .prompt [(.start, 2)] =
        .opened :: (Playback.call .prompt 2 {} .start).notes true := rfl
    rw [journal, hstarted, hstart, hp]
    rfl
  obtain ⟨horderly, -, hopen, -⟩ := journal_orderly .prompt [(.stop, 0), (.start, 2)]
  refine ⟨hjournal, horderly, ?_⟩
  rw [hjournal] at hopen
  exact Option.isNone_iff_eq_none.1 (Option.isSome_eq_false_iff.1 hopen.symm)

end VisualNovel
