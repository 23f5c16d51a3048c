/-
  How long backgrounds fade in.

  * `Turn.Timed`: a fade is waited for as long as it takes;
  * `Calls.fading_suspension`: it is at all times;
  * `Calls.fades_le_iff`: of two fades the longer one is not waited for less, unless it takes
    2^64 seconds or more, when it is not waited for at all.
-/
import VisualNovel.Proofs.Number.Duration
import VisualNovel.Proofs.Playback.Wait

namespace VisualNovel

/-- What waits for a fade waits for as long as the fade takes. -/
def Turn.Timed : Turn → Prop
  | rest _ (.fading _ _ fade _) suspension => suspension = .wait .timer (some (.ofSeconds fade))
  | _ => True

theorem Turn.Plain.timed {st : Staging} {lines : LineCursor → Prop} {t : Turn}
    (h : t.Plain st lines) : t.Timed := by
  cases h with
  | refuses | runs | ends | shows | types => trivial

theorem Turn.Comes.timed {st : Staging} {s : Session} {id : NodeId} {t : Turn}
    (h : t.Comes st s id) : t.Timed := by
  cases h with
  | goes plain => exact plain.timed
  | fades => rfl
  | offers | fails | closes => trivial

namespace Playback

/-- Every fade is waited for as long as it takes. -/
theorem timed_invariant (st : Staging) : Invariant st fun _ t => t.Awaits ∧ t.Timed where
  new := ⟨(awaits_invariant st).new, trivial⟩
  opens bs s h hs :=
    ⟨(awaits_invariant st).opens bs s h.1 hs, (Engine.enterScene_plain st LineCursor.Typed s).timed⟩
  steps bs s id h := ⟨(awaits_invariant st).steps bs s id h.1, (Engine.step_comes st s id).timed⟩
  wakes bs s cursor reason timeout w piece h ha hp :=
    ⟨(awaits_invariant st).wakes bs s cursor reason timeout w piece h.1 ha hp,
      ((wake?_answers hp).plain (fun _ _ => trivial) fun _ _ _ => trivial).timed⟩
  stops bs t h ht := ⟨(awaits_invariant st).stops bs t h.1 ht, trivial⟩
  rests bs cursor suspension h := (awaits_invariant st).rests bs cursor suspension h.1

end Playback

/-- While a background fades in, what is waited for is as long as its fade. -/
theorem Calls.fading_suspension (st : Staging) (cs : Calls) {node : NodeId} {path : String}
    {fade : Binary64} {next : Option NodeId}
    (h : (cs.playback st).cursor = .fading node path fade next) :
    (cs.playback st).suspension = .wait .timer (some (.ofSeconds fade)) := by
  obtain ⟨t, hp, ⟨-, htimed⟩, -⟩ := (Playback.timed_invariant st).holds cs
  generalize cs.playback st = p at hp h ⊢
  cases hp with
  | run => cases h
  | fail s e last idle =>
    rcases idle with rfl | ⟨id, rfl⟩
    · cases h
    · cases h
  | rest s cursor suspension =>
    cases h
    exact htimed

/-- Of two fades the longer one is not waited for less exactly if it takes fewer than 2^64
    seconds or the other one is not waited for at all.  That is so with a fade of half a
    nanosecond or less, and with one of 2^64 seconds or more; and a background that fades in is
    waited for as long as its fade takes. -/
theorem Calls.fades_le_iff {a b : Binary64} (ha : a.isFinite = true) (hb : b.isFinite = true)
    (hab : b.less a = false) :
    ((Duration.ofSeconds a).nanos ≤ (Duration.ofSeconds b).nanos ↔
      b.value < UInt64.size ∨ Duration.ofSeconds a = .zero) ∧
    (Duration.ofSeconds a = .zero ↔
      a.value ≤ 1 / 2000000000 ∨ (UInt64.size : ℚ) ≤ a.value) ∧
    ∀ (st : Staging) (cs : Calls) (node : NodeId) (path : String) (next : Option NodeId),
      (cs.playback st).cursor = .fading node path a next →
        (cs.playback st).suspension = .wait .timer (some (.ofSeconds a)) := by
  have hle : a.value ≤ b.value := by
    by_contra hlt
    have hless := (Binary.less_iff (Binary.ne_nan_of_isFinite hb)
      (Binary.ne_nan_of_isFinite ha)).2 (not_le.1 hlt)
    rw [hless] at hab
    cases hab
  refine ⟨⟨fun h => ?_, ?_⟩, Duration.ofSeconds_eq_zero_iff ha,
    fun st cs node path next => fading_suspension st cs⟩
  · by_cases hlong : (UInt64.size : ℚ) ≤ b.value
    · rw [Duration.ofSeconds_of_long hb hlong] at h
      exact .inr (congrArg Duration.mk (Nat.le_zero.1 h))
    · exact .inl (not_le.1 hlong)
  · rintro (hlt | hzero)
    · exact Duration.ofSeconds_le_ofSeconds ha hb hle hlt
    · rw [hzero]
      exact Nat.zero_le _

/-! ## A sunset -/

/-- A scene that begins with a background. -/
def Scene.sunset (fade : Binary64) : Scene where
  name := "A"
  nodes := [
    { id := ⟨⟨0⟩⟩
      content := .state .enter
      outputs := [{ id := ⟨⟨1⟩⟩, flow := .output, connected := true }] },
    { id := ⟨⟨2⟩⟩
      content := .background { key := "sky", fade := fade }
      inputs := [{ id := ⟨⟨3⟩⟩, flow := .input, connected := true }] }]
  connections := [⟨⟨⟨1⟩⟩, ⟨⟨3⟩⟩⟩]
  backgrounds := Table.empty.insert "sky" "sky.png"

/-- The story of that scene. -/
def Staging.sunset (fade : Binary64) : Staging where
  project := { name := "Sunset", scenes := [.sunset fade] }
  opening := "A"
  config := { playerName := "", typewriterDelay := .ofMillis 0 }

/-- The background fades in. -/
theorem Playback.start_sunset (fade : Binary64) :
    ∃ s, call (.sunset fade) 2 {} .start =
      ⟨settle (some s) (.fading ⟨⟨2⟩⟩ "sky.png" fade none) (.wait .timer (some (.ofSeconds fade))),
        [.entered "A" [], .ran ⟨⟨0⟩⟩, .ran ⟨⟨2⟩⟩],
        .suspended (.wait .timer (some (.ofSeconds fade)))⟩ := by
  let index := ConnectionIndex.ofScene (.sunset fade)
  obtain ⟨a, ha, hai, hac, hab⟩ : ∃ a, index.node? (.sunset fade) ⟨⟨0⟩⟩ = some a ∧
      a.id = ⟨⟨0⟩⟩ ∧ a.content = .state .enter ∧ index.successor? a = some ⟨⟨2⟩⟩ := by
    refine ⟨_, ConnectionIndex.node?_ofScene _ _, rfl, rfl, ?_⟩
    simp only [index, ConnectionIndex.successor?, ConnectionIndex.first?,
      ConnectionIndex.leaving_ofScene, ConnectionIndex.owner?_ofScene]
    rfl
  obtain ⟨b, hb, hbi, hbc, hbn⟩ : ∃ b, index.node? (.sunset fade) ⟨⟨2⟩⟩ = some b ∧
      b.id = ⟨⟨2⟩⟩ ∧ b.content = .background { key := "sky", fade := fade } ∧
      index.successor? b = none := by
    refine ⟨_, ConnectionIndex.node?_ofScene _ _, rfl, rfl, ?_⟩
    simp only [index, ConnectionIndex.successor?, ConnectionIndex.first?,
      ConnectionIndex.leaving_ofScene, ConnectionIndex.owner?_ofScene]
    rfl
  let s : Session :=
    { scene := .sunset fade, index, index_eq := rfl, boards := []
      visited := [⟨⟨0⟩⟩], entries := [("A", [])] }
  let t : Session := { s with visited := [⟨⟨0⟩⟩, ⟨⟨2⟩⟩] }
  have henter : Engine.step (.sunset fade) s ⟨⟨0⟩⟩ = ⟨[.ran ⟨⟨0⟩⟩], .run t ⟨⟨2⟩⟩⟩ := by
    rw [Engine.step_eq (s := s) ha, Engine.perform, hac]
    dsimp only
    rw [hab, hai]
    rfl
  have hfade : Engine.step (.sunset fade) t ⟨⟨2⟩⟩ = ⟨[.ran ⟨⟨2⟩⟩], .rest (some t)
      (.fading ⟨⟨2⟩⟩ "sky.png" fade none) (.wait .timer (some (.ofSeconds fade)))⟩ := by
    rw [Engine.step_eq (s := t) hb, Engine.perform, hbc]
    dsimp only
    rw [Engine.background, hbn, hbi]
    rfl
  have hstart : call (.sunset fade) 2 {} .start =
      (run (.sunset fade) .idle 2 s ⟨⟨0⟩⟩).after [.entered "A" []] := rfl
  refine ⟨t, ?_⟩
  rw [hstart, run_of_step henter, run, hfade]
  rfl

theorem Calls.cursor_sunset (fade : Binary64) :
    (playback (.sunset fade) [(.start, 2)]).cursor = .fading ⟨⟨2⟩⟩ "sky.png" fade none := by
  obtain ⟨s, hstart⟩ := Playback.start_sunset fade
  have hplayback : playback (.sunset fade) [(.start, 2)] =
      (Playback.call (.sunset fade) 2 {} .start).playback := rfl
  rw [hplayback, hstart]
  rfl

/-- The longest fade below 2^64 seconds. -/
def Binary64.longest : Binary64 := .ofCode false (1087 * 2 ^ 52 - 1)

/-- It is not waited for less than one second, for which the sun sets. -/
theorem Calls.fades_le_iff_sunset :
    longFade.isFinite = true ∧ Binary64.longest.isFinite = true ∧
    Binary64.longest.less longFade = false ∧
    (Duration.ofSeconds longFade).nanos ≤ (Duration.ofSeconds .longest).nanos ∧
    (playback (.sunset longFade) [(.start, 2)]).suspension =
      .wait .timer (some (.ofSeconds longFade)) := by
  have ha : longFade.isFinite = true := by decide
  have hb : Binary64.longest.isFinite = true := by decide
  have hab : Binary64.longest.less longFade = false := by decide
  have hshort : Binary64.longest.value < UInt64.size := by
    have hsplit : Format.double.split (1087 * 2 ^ 52 - 1) = (2 ^ 53 - 1, 11) := by decide
    have hvalue : Binary64.longest.value = Format.double.magnitude (1087 * 2 ^ 52 - 1) := rfl
    rw [hvalue, Format.magnitude, hsplit]
    norm_num [UInt64.size]
  obtain ⟨hle, -, hwaits⟩ := fades_le_iff ha hb hab
  exact ⟨ha, hb, hab, hle.2 (.inl hshort), hwaits _ _ _ _ _ (cursor_sunset longFade)⟩

/-- A fade of 2^64 seconds is not waited for at all, though one of a second is: the background is
    shown at once. -/
theorem Calls.overlong_at_once :
    let overlong : Binary64 := .ofNat UInt64.size
    longFade.isFinite = true ∧ overlong.isFinite = true ∧ overlong.less longFade = false ∧
    (Duration.ofSeconds overlong).nanos < (Duration.ofSeconds longFade).nanos ∧
    (playback (.sunset overlong) [(.start, 2)]).suspension = .wait .timer (some .zero) := by
  refine ⟨by decide, by decide, by decide, by decide, ?_⟩
  rw [fading_suspension _ _ (cursor_sunset _)]
  decide

end VisualNovel
