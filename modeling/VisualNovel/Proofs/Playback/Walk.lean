/-
  Playback walks the graph that the connections of a scene draw.

  * `Scene.onward?` is where a scene leads from some outputs, read off its connections;
  * `Report.LeftFor`: a node was left for another one, or the chain of nodes ended there;
  * `Calls.walks`: a node that is run and left was left for the node that its scene leads to
    from its exits.
-/
import VisualNovel.Proofs.Playback.Confine
import VisualNovel.Proofs.Playback.Dwell
import VisualNovel.Proofs.Playback.Visit

namespace VisualNovel

namespace Beat
variable {st : Staging} {n : Node} {bs : List Beat}

theorem choices_of_inner (h : ∀ b ∈ bs, b.Inner st n) {texts : List String}
    (ht : .showChoices texts ∈ intents bs) : ∃ choices, n.content = .choice choices ∧
      texts = choices.map fun c => st.config.personalize c.text := by
  obtain ⟨b, hb, hi⟩ := List.mem_filterMap.1 ht
  have hinner := h b hb
  cases b with
  | told i =>
    cases hi
    exact hinner
  | _ => cases hi

end Beat

namespace Engine
variable {st : Staging} {s : Session} {n : Node} {w : Option Wake} {piece : Piece} {r : Report}

theorem Goes.choices (h : Goes st s n w piece) {texts : List String}
    (ht : .showChoices texts ∈ Beat.intents piece.beats) : ∃ choices,
      n.content = .choice choices ∧ texts = choices.map fun c => st.config.personalize c.text := by
  cases h with
  | waits inner | fails inner => exact Beat.choices_of_inner inner ht
  | @leaves _ t inner =>
    rw [Piece.after, Beat.intents_append, List.mem_append] at ht
    rcases ht with ht | ht
    · exact Beat.choices_of_inner inner ht
    -- no choices are shown when a node is left
    · rcases leave_outcome t n.id (s.leads? (n.exits s.boards w)) with
        ⟨reason, hrest, -⟩ | ⟨m, -, -, hrun⟩
      · rw [hrest] at ht
        simp [Beat.intents] at ht
      · rw [hrun] at ht
        cases ht

end Engine

end VisualNovel
