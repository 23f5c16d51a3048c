/-
  When boards agree.  Agreement compares numbers as numbers, so what is no number
  agrees with nothing, not even with itself.

  * `Boards.agree_self`: boards agree with themselves exactly if every number on them
    is one;
  * `Boards.nanFree_of_agree`: whatever agrees with anything is of that kind.
-/
import VisualNovel.Board.Basic

namespace VisualNovel

theorem Binary.same_self_iff {f : Format} {x : Binary f} : x.same x = true ↔ x ≠ nan := by
  refine ⟨?_, same_self⟩
  rintro h rfl
  cases h

theorem Binary.ne_nan_of_same {f : Format} {x y : Binary f} (h : x.same y = true) : y ≠ nan :=
  same_self_iff.1 (same_trans (same_comm x y ▸ h) h)

theorem Value.agrees_self {v : Value} : v.agrees v = true ↔ v ≠ .float .nan := by
  cases v with
  | string s => simp [agrees]
  | float x => simp [agrees, Binary.same_self_iff]
  | boolean b => simp [agrees]

theorem Value.ne_nan_of_agrees {v w : Value} (h : v.agrees w = true) : w ≠ .float .nan := by
  rintro rfl
  cases v with
  | float x => exact Binary.ne_nan_of_same h rfl
  | string s => cases h
  | boolean b => cases h

section
variable {α : Type} {agree : α → α → Bool}

theorem Board.allAgree_self {as : List α} :
    allAgree agree as as = true ↔ ∀ a ∈ as, agree a a = true := by
  induction as with
  | nil => simp [allAgree]
  | cons a as ih => simp [allAgree, ih]

theorem Board.exists_of_allAgree {as bs : List α} (h : allAgree agree as bs = true) :
    ∀ b ∈ bs, ∃ a ∈ as, agree a b = true := by
  induction as generalizing bs with
  | nil =>
    cases bs with
    | nil => exact fun b hb => absurd hb List.not_mem_nil
    | cons b bs => cases h
  | cons a as ih =>
    cases bs with
    | nil => cases h
    | cons b bs =>
      obtain ⟨hab, hrest⟩ := Bool.and_eq_true_iff.1 h
      intro c hc
      rcases List.mem_cons.1 hc with rfl | hc
      · exact ⟨a, List.mem_cons_self, hab⟩
      · obtain ⟨d, hd, hdc⟩ := ih hrest c hc
        exact ⟨d, List.mem_cons_of_mem _ hd, hdc⟩

end

/-- No register of the board holds what is no number. -/
def Board.NaNFree (b : Board) : Prop := ∀ e ∈ b.all, e.value ≠ .float .nan

/-- No register of the boards holds what is no number. -/
def Boards.NaNFree (bs : Boards) : Prop := ∀ b ∈ bs, b.NaNFree

instance (bs : Boards) : Decidable bs.NaNFree :=
  inferInstanceAs (Decidable (∀ b ∈ bs, ∀ e ∈ b.all, e.value ≠ .float .nan))

theorem Entry.agrees_self {e : Entry} : e.agrees e = true ↔ e.value ≠ .float .nan := by
  simp [agrees, Value.agrees_self]

theorem Entry.ne_nan_of_agrees {d e : Entry} (h : d.agrees e = true) :
    e.value ≠ .float .nan :=
  Value.ne_nan_of_agrees (Bool.and_eq_true_iff.1 h).2

theorem Board.agrees_self {b : Board} : b.agrees b = true ↔ b.NaNFree := by
  simp only [agrees, decide_true, Bool.true_and, Bool.and_eq_true, allAgree_self,
    Entry.agrees_self, NaNFree, all, List.mem_append]
  constructor
  · rintro ⟨⟨hs, hf⟩, hb⟩ e ((he | he) | he)
    · exact hs e he
    · exact hf e he
    · exact hb e he
  · intro h
    exact ⟨⟨fun e he => h e (.inl (.inl he)), fun e he => h e (.inl (.inr he))⟩,
      fun e he => h e (.inr he)⟩

theorem Board.nanFree_of_agrees {a b : Board} (h : a.agrees b = true) : b.NaNFree := by
  simp only [agrees, Bool.and_eq_true] at h
  obtain ⟨⟨⟨-, hs⟩, hf⟩, hb⟩ := h
  have key : ∀ {xs ys : List Entry}, allAgree Entry.agrees xs ys = true →
      ∀ e ∈ ys, e.value ≠ .float .nan := by
    intro xs ys hxy e he
    obtain ⟨d, -, hd⟩ := exists_of_allAgree hxy e he
    exact Entry.ne_nan_of_agrees hd
  intro e he
  simp only [all, List.mem_append] at he
  rcases he with (he | he) | he
  · exact key hs e he
  · exact key hf e he
  · exact key hb e he

namespace Boards

theorem agree_self {bs : Boards} : agree bs bs = true ↔ bs.NaNFree := by
  simp only [agree, Board.allAgree_self, Board.agrees_self, NaNFree]

theorem nanFree_of_agree {as bs : Boards} (h : agree as bs = true) : bs.NaNFree := by
  intro b hb
  obtain ⟨a, -, ha⟩ := Board.exists_of_allAgree h b hb
  exact Board.nanFree_of_agrees ha

end Boards

end VisualNovel
