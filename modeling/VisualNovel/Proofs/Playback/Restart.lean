/-
  What is left of a session once another one is started: nothing.

  * `Calls.stop_playback`: after any calls, a stop leads to where playback began;
  * `Calls.restart_forgets`: so a start comes to what it comes to at the beginning, and so
    does all that is called after it.
-/
import VisualNovel.Proofs.Playback.Wait

namespace VisualNovel

/-- What the host is told when a session is stopped, if there is one. -/
def Playback.farewell (p : Playback) : List Intent :=
  if p.session.isSome then [.sessionStopped] else []

namespace Calls
variable (st : Staging) (cs : Calls)

/-- A stop leads to where playback began.  Nothing stays behind where a session ended by
    itself, nor where a call failed or was cut short. -/
theorem stop_playback :
    (cs.playback st).stop = ({}, (cs.playback st).farewell.map .told) := by
  obtain ⟨t, hp, h, -⟩ := (Playback.awaits_invariant st).holds cs
  obtain ⟨hnew, -⟩ := @Invariant.stop st _ (Playback.awaits_invariant st) (cs.beats st) _ t h hp
  cases hs : (cs.playback st).session with
  | none =>
    rw [Playback.stop_of_closed hs] at hnew ⊢
    rw [Playback.farewell, hs]
    exact congrArg (·, []) hnew
  | some s =>
    rw [Playback.stop_of_open (by rw [hs]; rfl), Playback.farewell, hs]
    rfl

/-- A start after calls is a start at the beginning, before which the open session is
    stopped. -/
theorem start_playback (fuel : Nat) :
    (cs.playback st).start st fuel =
      (Playback.start st fuel {}).after ((cs.playback st).farewell.map .told) := by
  rw [Playback.start_eq, stop_playback]

variable {st}

/-- Calls go on from where earlier ones led to, however that was reached. -/
theorem playback_append_congr {as bs : Calls} (h : as.playback st = bs.playback st)
    (cs : Calls) : playback st (cs ++ as) = playback st (cs ++ bs) := by
  induction cs with
  | nil => exact h
  | cons c cs ih => simp only [List.cons_append, playback, ih]

/-- A start comes to the same, and leads to the same session, cursor, state and suspension,
    whatever was called before; and the host is told the same, after it was told the end of
    the session that was open.  So does all that is called after it. -/
theorem restart_forgets (st : Staging) (cs : Calls) (fuel : Nat) :
    ((cs.playback st).start st fuel).outcome = (Playback.start st fuel {}).outcome ∧
    ((cs.playback st).start st fuel).playback = (Playback.start st fuel {}).playback ∧
    Beat.intents ((cs.playback st).start st fuel).beats =
      (cs.playback st).farewell ++ Beat.intents (Playback.start st fuel {}).beats ∧
    ∀ later c n, report st c n (later ++ (.start, fuel) :: cs) =
      report st c n (later ++ [(.start, fuel)]) := by
  rw [start_playback]
  refine ⟨rfl, rfl, ?_, fun later c n => ?_⟩
  · rw [Report.after, Beat.intents_append, Beat.intents_told]
  · have hstart : playback st ((.start, fuel) :: cs) = playback st [(.start, fuel)] := by
      simp only [playback, Playback.call, start_playback, Report.playback_after]
    rw [report, report, playback_append_congr hstart later]

end Calls

end VisualNovel
