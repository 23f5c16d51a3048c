/-
  Playback does not fail for want of outputs, where all nodes have an output for each way.

  * `Turn.Laid`: playback did not fail, or for a reason that is about no node;
  * `Playback.laid_invariant`: so it is at all times;
  * `Calls.laid_out`: what this says of stories whose scenes were made by blueprints and by
    editing.
-/
import VisualNovel.Proofs.Playback.Confine
import VisualNovel.Proofs.Scene.Layout

namespace VisualNovel

/-- If playback failed, then not at a node. -/
def Turn.Laid : Turn → Prop
  | fail _ e => e.node? = none
  | _ => True

theorem Turn.Plain.laid {st : Staging} {lines : LineCursor → Prop} {t : Turn}
    (h : t.Plain st lines) : t.Laid := by
  cases h with
  | refuses => rfl
  | runs | ends | shows | types => trivial

/-- A node of a scene whose nodes have their outputs does not fail. -/
theorem Turn.Comes.laid {st : Staging} {s : Session} {id : NodeId} {t : Turn}
    (h : t.Comes st s id) (hs : s.scene.Branched) : t.Laid := by
  cases h with
  | goes plain => exact plain.laid
  | fails names found unfit => exact absurd (hs _ found) unfit
  | fades | offers | closes => trivial

namespace Playback
variable {st : Staging}

/-- In a story whose nodes have their outputs, playback never fails at one of them. -/
theorem laid_invariant (hst : ∀ s ∈ st.project.scenes, s.Branched) :
    Invariant st fun bs t =>
      ((∀ b ∈ bs, ∀ id ∈ b.node?, st.project.Has id) ∧ t.Confined st.project) ∧ t.Laid where
  new := ⟨(confined_invariant st).new, trivial⟩
  opens bs s h hs :=
    ⟨(confined_invariant st).opens bs s h.1 hs,
      (Engine.enterScene_plain st LineCursor.Typed s).laid⟩
  steps bs s id h := by
    refine ⟨(confined_invariant st).steps bs s id h.1, ?_⟩
    cases h.1.2 with
    | run scene => exact (Engine.step_comes st s id).laid (hst _ scene)
  wakes bs s cursor reason timeout w piece h ha hp :=
    ⟨(confined_invariant st).wakes bs s cursor reason timeout w piece h.1 ha hp,
      ((wake?_answers hp).plain (fun _ _ => trivial) fun _ _ _ => trivial).laid⟩
  stops bs t h ht := ⟨(confined_invariant st).stops bs t h.1 ht, trivial⟩
  rests bs cursor suspension h := (confined_invariant st).rests bs cursor suspension h.1

end Playback

/-- In a story whose scenes were made by blueprints and by editing, no call fails for a choice
    without an output, nor for outputs of a condition or a choice that are not as many as its
    ways. -/
theorem Calls.laid_out {st : Staging} (hst : ∀ s ∈ st.project.scenes, s.Crafted) (cs : Calls)
    (c : Call) (fuel : Nat) :
    (∀ node choices outputs,
      (report st c fuel cs).outcome ≠ .failed (.choiceOutputMismatch node choices outputs)) ∧
    (∀ node choice output,
      (report st c fuel cs).outcome ≠ .failed (.choiceOutputMissing node choice output)) ∧
    ∀ node outputs, (report st c fuel cs).outcome ≠ .failed (.conditionOutputs node outputs) := by
  have hinvariant := Playback.laid_invariant fun s hs => (hst s hs).branched
  have hnode : ∀ e, (report st c fuel cs).outcome = .failed e → e.node? = none := by
    intro e he
    rcases hinvariant.fails cs c fuel he with rfl | ⟨s, -, hlaid⟩
    · rfl
    · exact hlaid
  refine ⟨fun node choices outputs h => ?_, fun node choice output h => ?_,
    fun node outputs h => ?_⟩
  all_goals cases hnode _ h

/-- A scene whose two choices become one and then two again; one that is not there is asked
    to go. -/
def Scene.fork : Scene :=
  (((((({ name := "A" } : Scene).edit (.addNode (.state .enter) ⟨⟨0⟩⟩ fun _ => ⟨⟨1⟩⟩)).edit
    (.addNode (.choice [{ text := "Left" }, { text := "Right" }]) ⟨⟨2⟩⟩
      fun i => ⟨⟨.ofNat 128 (3 + i)⟩⟩)).edit
    (.connect ⟨⟨1⟩⟩ ⟨⟨3⟩⟩)).edit (.removeChoice ⟨⟨2⟩⟩ 0)).edit (.removeChoice ⟨⟨2⟩⟩ 7)).edit
    (.addChoice ⟨⟨2⟩⟩ "Back" ⟨⟨6⟩⟩)

theorem Scene.crafted_fork : Scene.fork.Crafted :=
  (((((Crafted.empty "A").edit _).edit _).edit _).edit _).edit _ |>.edit _

/-- The story of that scene. -/
def Staging.fork : Staging where
  project := { name := "Fork", scenes := [.fork] }
  opening := "A"
  config := { playerName := "", typewriterDelay := .ofMillis 0 }

/-- The choices that are left are all there when it is started. -/
theorem Calls.laid_out_fork :
    (∀ s ∈ Staging.fork.project.scenes, s.Crafted) ∧
    (∀ node choices outputs, (report .fork .start 2 []).outcome ≠
      .failed (.choiceOutputMismatch node choices outputs)) ∧
    (∀ node choice output, (report .fork .start 2 []).outcome ≠
      .failed (.choiceOutputMissing node choice output)) ∧
    ∀ node outputs, (report .fork .start 2 []).outcome ≠
      .failed (.conditionOutputs node outputs) := by
  have hcrafted : ∀ s ∈ Staging.fork.project.scenes, s.Crafted := by
    intro s hs
    rw [List.mem_singleton.1 hs]
    exact Scene.crafted_fork
  exact ⟨hcrafted, laid_out hcrafted [] .start 2⟩

end VisualNovel
