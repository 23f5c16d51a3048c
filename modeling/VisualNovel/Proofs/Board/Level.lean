/-
  Numbers, values and boards without the sign of zero.  The comparisons do not tell the two
  zeros apart, so nothing that a story can ask of its boards depends on that sign.

  * `Binary.level` takes the sign of zero away, and so do `Value.level` and `Boards.level`
    of what numbers are in;
  * `Boards.level_eq_of_agree`: boards that agree are the same up to that sign;
  * `Change.apply_level`, `Check.answer_level`: changes keep boards the same up to that
    sign, and the answers of checks do not depend on it.
-/
import VisualNovel.Proofs.Board.Agreement
import VisualNovel.Board.Rule

namespace VisualNovel

/-! ## Numbers -/

namespace Binary
variable {f : Format} {x y : Binary f}

/-- The number without the sign of zero. -/
def level : Binary f → Binary f
  | nan => nan
  | number negative code => number (negative && decide (code.val ≠ 0)) code

@[simp] theorem level_level (x : Binary f) : x.level.level = x.level := by
  cases x with
  | nan => rfl
  | number => simp [level]

@[simp] theorem rank?_level (x : Binary f) : x.level.rank? = x.rank? := by
  cases x with
  | nan => rfl
  | number negative code => by_cases hc : code.val = 0 <;> simp [level, rank?, hc]

/-- Only the zeros have one position in the order of all numbers. -/
theorem level_eq_of_rank? (h : x.rank? = y.rank?) : x.level = y.level := by
  cases x with
  | nan =>
    cases y with
    | nan => rfl
    | number => cases h
  | number s a =>
    cases y with
    | nan => cases h
    | number t b =>
      simp only [rank?, Option.some.injEq] at h
      have hcode : a = b := by
        refine Fin.ext ?_
        split at h <;> split at h <;> omega
      subst hcode
      by_cases ha : a.val = 0
      · simp [level, ha]
      · have hsign : s = t := by
          split at h <;> split at h <;> rename_i hs ht
          · exact hs.trans ht.symm
          · omega
          · omega
          · exact (eq_false_of_ne_true hs).trans (eq_false_of_ne_true ht).symm
        rw [hsign]

theorem level_eq_of_same (h : x.same y = true) : x.level = y.level := by
  refine level_eq_of_rank? ?_
  unfold same at h
  split at h
  · rename_i hx hy
    rw [hx, hy, of_decide_eq_true h]
  · cases h

theorem level_neg (x : Binary f) : x.level.neg.level = x.neg.level := by
  cases x with
  | nan => rfl
  | number negative code => by_cases hc : code.val = 0 <;> simp [level, neg, hc]

/-- A zero stands for the same integer whatever its sign is. -/
theorem signed_level (s : Bool) (a : Nat) :
    signed f (s && decide (a ≠ 0)) a = signed f s a := by
  by_cases ha : a = 0
  · subst ha
    have hzero : (f.split 0).1 = 0 := by simp [Format.split]
    simp [signed, hzero]
  · simp [ha]

theorem add_level (hf : f.infinity ≠ 0) (x y : Binary f) :
    (x.level.add y.level).level = (x.add y).level := by
  cases x with
  | nan => cases y <;> rfl
  | number s a =>
    cases y with
    | nan => rfl
    | number t b =>
      change (add (number (s && decide (a.val ≠ 0)) a)
        (number (t && decide (b.val ≠ 0)) b)).level = _
      simp only [add, signed_level]
      by_cases ha : a.val = f.infinity
      · by_cases hb : b.val = f.infinity
        · by_cases hst : s = t <;> simp [ha, hb, hf, hst]
        · simp [ha, hb, hf]
      · by_cases hb : b.val = f.infinity
        · simp [ha, hb, hf]
        · simp only [ha, hb, if_false]
          split
          · simp [ofCode, level]
          · rfl

theorem sub_level (hf : f.infinity ≠ 0) (x y : Binary f) :
    (x.level.sub y.level).level = (x.sub y).level := by
  rw [sub, sub, ← add_level hf x.level, level_level, level_neg, add_level hf]

end Binary

theorem Format.infinity_single : single.infinity ≠ 0 := by decide

theorem Operation.apply_level (o : Operation) (x y : Binary32) :
    (o.apply x.level y.level).level = (o.apply x y).level := by
  cases o with
  | set => exact Binary.level_level y
  | increase => exact Binary.add_level Format.infinity_single x y
  | decrease => exact Binary.sub_level Format.infinity_single x y

/-- A comparison does not depend on the sign of zero. -/
theorem Comparison.numbers_level {f : Format} (c : Comparison) (x y : Binary f) :
    c.numbers x.level y = c.numbers x y := by
  cases c <;> simp [numbers, holds, Binary.same, Binary.less]

/-! ## Values and boards -/

/-- The value without the sign of zero. -/
def Value.level : Value → Value
  | float x => float x.level
  | v => v

def Entry.level (e : Entry) : Entry := { e with value := e.value.level }

def Board.level (b : Board) : Board :=
  { b with
    strings := b.strings.map Entry.level
    floats := b.floats.map Entry.level
    booleans := b.booleans.map Entry.level }

def Boards.level (bs : Boards) : Boards := bs.map Board.level

/-! ## Agreement -/

theorem Value.level_eq_of_agrees {v w : Value} (h : v.agrees w = true) : v.level = w.level := by
  cases v with
  | string s =>
    cases w with
    | string t => rw [of_decide_eq_true h]
    | float | boolean => cases h
  | float x =>
    cases w with
    | float y => rw [level, level, Binary.level_eq_of_same h]
    | string | boolean => cases h
  | boolean a =>
    cases w with
    | boolean b => rw [eq_of_beq h]
    | string | float => cases h

theorem Entry.level_eq_of_agrees {d e : Entry} (h : d.agrees e = true) : d.level = e.level := by
  obtain ⟨hkey, hvalue⟩ := Bool.and_eq_true_iff.1 h
  rw [level, level, of_decide_eq_true hkey, Value.level_eq_of_agrees hvalue]

theorem Board.map_eq_of_allAgree {α β : Type} {agree : α → α → Bool} {f : α → β}
    (hf : ∀ a b, agree a b = true → f a = f b) {as bs : List α}
    (h : allAgree agree as bs = true) : as.map f = bs.map f := by
  induction as generalizing bs with
  | nil =>
    cases bs with
    | nil => rfl
    | cons => cases h
  | cons a as ih =>
    cases bs with
    | nil => cases h
    | cons b bs =>
      obtain ⟨hab, hrest⟩ := Bool.and_eq_true_iff.1 h
      rw [List.map_cons, List.map_cons, hf a b hab, ih hrest]

theorem Board.level_eq_of_agrees {a b : Board} (h : a.agrees b = true) : a.level = b.level := by
  simp only [agrees, Bool.and_eq_true, decide_eq_true_eq] at h
  obtain ⟨⟨⟨⟨hname, hid⟩, hstrings⟩, hfloats⟩, hbooleans⟩ := h
  have hentries := fun d e => @Entry.level_eq_of_agrees d e
  simp only [level, hname, hid, map_eq_of_allAgree hentries hstrings,
    map_eq_of_allAgree hentries hfloats, map_eq_of_allAgree hentries hbooleans]

/-- Boards that agree are the same up to the sign of zero. -/
theorem Boards.level_eq_of_agree {as bs : Boards} (h : agree as bs = true) :
    as.level = bs.level :=
  Board.map_eq_of_allAgree (fun a b => @Board.level_eq_of_agrees a b) h

/-! ## Registers -/

@[simp] theorem Value.level_level (v : Value) : v.level.level = v.level := by
  cases v <;> simp [level]

@[simp] theorem Entry.level_level (e : Entry) : e.level.level = e.level := by
  simp [level]

@[simp] theorem Board.level_level (b : Board) : b.level.level = b.level := by
  simp [level]

@[simp] theorem Boards.level_level (bs : Boards) : bs.level.level = bs.level := by
  simp [level]

theorem Entry.lookup_level (key : String) (es : List Entry) :
    lookup key (es.map level) = (lookup key es).map Value.level := by
  induction es with
  | nil => rfl
  | cons e es ih =>
    simp only [List.map_cons, lookup]
    split
    · rename_i h
      rw [if_pos (by exact h)]
      rfl
    · rename_i h
      rw [if_neg (by exact h), ih]

theorem Entry.replace_level (key : String) (value : Value) (es : List Entry) :
    (replace key value es).map level = replace key value.level (es.map level) := by
  induction es with
  | nil => rfl
  | cons e es ih =>
    simp only [List.map_cons, replace]
    split
    · rename_i h
      rw [if_pos (by exact h)]
      rfl
    · rename_i h
      rw [if_neg (by exact h), List.map_cons, ih]

theorem Board.entries_level (b : Board) (kind : RegisterKind) :
    b.level.entries kind = (b.entries kind).map Entry.level := by
  cases kind <;> rfl

theorem Board.withEntries_level (b : Board) (kind : RegisterKind) (es : List Entry) :
    (b.withEntries kind es).level = b.level.withEntries kind (es.map Entry.level) := by
  cases kind <;> rfl

theorem Board.get?_level (b : Board) (key : String) (kind : RegisterKind) :
    b.level.get? key kind = (b.get? key kind).map Value.level := by
  rw [get?, entries_level, Entry.lookup_level]
  rfl

theorem Board.set?_level (b : Board) (key : String) (kind : RegisterKind) (value : Value) :
    (b.set? key kind value).map level = b.level.set? key kind value.level := by
  unfold set?
  rw [get?_level, Option.isSome_map]
  split
  · rw [Option.map_some, withEntries_level, Entry.replace_level, entries_level]
  · rfl

theorem Boards.get?_level (bs : Boards) (t : Target) :
    bs.level.get? t = (bs.get? t).map Value.level := by
  induction bs with
  | nil => rfl
  | cons b bs ih =>
    change get? (b.level :: level bs) t = _
    rw [get?, get?, Board.get?_level, ih]
    change (if b.name = t.board then _ else _) = _
    split
    · cases b.get? t.key t.kind <;> rfl
    · rfl

theorem Boards.set?_level (bs : Boards) (t : Target) (value : Value) :
    (set? bs t value).map level = bs.level.set? t value.level := by
  induction bs with
  | nil => rfl
  | cons b bs ih =>
    have htail : ((set? bs t value).map (b :: ·)).map level =
        ((set? bs t value).map level).map (b.level :: ·) := by
      cases set? bs t value <;> rfl
    change _ = set? (b.level :: level bs) t value.level
    by_cases hn : b.name = t.board
    · have hn' : b.level.name = t.board := hn
      rw [set?, set?, if_pos hn, if_pos hn', ← Board.set?_level, ← ih]
      cases b.set? t.key t.kind value with
      | none => exact htail
      | some b' => rfl
    · have hn' : ¬b.level.name = t.board := hn
      rw [set?, set?, if_neg hn, if_neg hn', ← ih]
      exact htail

/-! ## Changes and checks -/

theorem Change.result_level (c : Change) (old operand : Value) :
    (c.result old.level operand).level = (c.result old operand).level := by
  cases old with
  | float x =>
    cases operand with
    | float y =>
      change Value.float (c.operation.apply x.level y).level = .float (c.operation.apply x y).level
      rw [← Operation.apply_level, Binary.level_level, Operation.apply_level]
    | string | boolean => rfl
  | string | boolean => cases operand <;> rfl

/-- A change keeps boards the same up to the sign of zero. -/
theorem Change.apply_level (c : Change) (bs : Boards) :
    (c.apply bs.level).1.level = (c.apply bs).1.level := by
  unfold apply
  rw [Boards.get?_level]
  cases bs.get? c.target with
  | none => exact Boards.level_level bs
  | some old =>
    rw [Option.map_some]
    cases Value.parse? c.target.kind c.literal with
    | none => exact Boards.level_level bs
    | some operand =>
      dsimp only
      have hset : (bs.level.set? c.target (c.result old.level operand)).map Boards.level =
          (bs.set? c.target (c.result old operand)).map Boards.level := by
        rw [Boards.set?_level, Boards.set?_level, Boards.level_level, result_level]
      cases hs : bs.set? c.target (c.result old operand) with
      | none =>
        rw [hs, Option.map_none, Option.map_eq_none_iff] at hset
        rw [hset]
        exact Boards.level_level bs
      | some bs' =>
        rw [hs, Option.map_some] at hset
        obtain ⟨cs, hcs, hlevel⟩ := Option.map_eq_some_iff.1 hset
        rw [hcs]
        exact hlevel

theorem Check.holds_level (c : Check) (v w : Value) : c.holds v.level w = c.holds v w := by
  cases v with
  | float x =>
    cases w with
    | float y => exact c.comparison.numbers_level x y
    | string | boolean => rfl
  | string | boolean => rfl

/-- The answer of a check does not depend on the sign of zero. -/
theorem Check.answer_level (c : Check) (bs : Boards) : c.answer bs.level = c.answer bs := by
  unfold answer
  rw [Boards.get?_level]
  cases bs.get? c.target with
  | none => rfl
  | some v =>
    rw [Option.map_some]
    cases Value.parse? c.target.kind c.literal with
    | none => rfl
    | some w =>
      dsimp only
      rw [holds_level]

end VisualNovel
