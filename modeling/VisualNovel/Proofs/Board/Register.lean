/-
  The register that a target names among boards, and what a change does to it.

  * `Surroundings`: boards with one register left out, `Surroundings.fill` the boards with a
    value in it;
  * `Surroundings.Leads`: nothing before the register is what a target names;
  * `Boards.exists_fill`, `Surroundings.Leads.get?_fill`, `Surroundings.Leads.set?_fill`: a
    register is read and written where its target leads;
  * `Change.apply_fills`: a change fills one register anew, and a check of the target reads it.
-/
import VisualNovel.Board.Rule
import VisualNovel.Proofs.Board.Agreement

namespace VisualNovel

namespace Entry

theorem lookup_eq_none_iff {key : String} {es : List Entry} :
    lookup key es = none ↔ ∀ e ∈ es, e.key ≠ key := by
  induction es with
  | nil => simp [lookup]
  | cons e es ih =>
    rw [lookup, List.forall_mem_cons, ← ih]
    split
    · rename_i hkey
      simp [hkey]
    · rename_i hkey
      simp [hkey]

/-- What is found under a key is the first of its entries. -/
theorem exists_of_lookup {key : String} {es : List Entry} {v : Value}
    (h : lookup key es = some v) :
    ∃ above below, es = above ++ ⟨key, v⟩ :: below ∧ ∀ e ∈ above, e.key ≠ key := by
  induction es with
  | nil => cases h
  | cons e es ih =>
    rw [lookup] at h
    split at h
    · rename_i hkey
      cases e
      cases h
      cases hkey
      exact ⟨[], es, rfl, List.forall_mem_nil _⟩
    · rename_i hkey
      obtain ⟨above, below, rfl, habove⟩ := ih h
      exact ⟨e :: above, below, rfl, List.forall_mem_cons.2 ⟨hkey, habove⟩⟩

section
variable {key : String} {above : List Entry} (h : ∀ e ∈ above, e.key ≠ key)
include h

theorem lookup_first (v : Value) (below : List Entry) :
    lookup key (above ++ ⟨key, v⟩ :: below) = some v := by
  rw [lookup_append, lookup_eq_none_iff.2 h, lookup, if_pos rfl, Option.none_or]

theorem replace_first (v w : Value) (below : List Entry) :
    replace key w (above ++ ⟨key, v⟩ :: below) = above ++ ⟨key, w⟩ :: below := by
  induction above with
  | nil => rw [List.nil_append, replace, if_pos rfl, List.nil_append]
  | cons e es ih =>
    obtain ⟨he, hes⟩ := List.forall_mem_cons.1 h
    rw [List.cons_append, replace, if_neg he, ih hes, List.cons_append]

end

end Entry

namespace Board

theorem withEntries_entries (b : Board) (kind : RegisterKind) :
    b.withEntries kind (b.entries kind) = b := by
  cases kind <;> rfl

theorem withEntries_withEntries (b : Board) (kind : RegisterKind) (es fs : List Entry) :
    (b.withEntries kind es).withEntries kind fs = b.withEntries kind fs := by
  cases kind <;> rfl

end Board

/-- Boards around a register: those before the board that it is on and those after, that board,
    and the entries of its kind before the register and after. -/
structure Surroundings where
  before : List Board
  board : Board
  after : List Board
  above : List Entry
  below : List Entry

namespace Surroundings

/-- The board with a value in the register of a key and kind. -/
def filled (x : Surroundings) (t : Target) (v : Value) : Board :=
  x.board.withEntries t.kind (x.above ++ ⟨t.key, v⟩ :: x.below)

/-- The boards with a value in the register of a key and kind. -/
def fill (x : Surroundings) (t : Target) (v : Value) : Boards :=
  x.before ++ x.filled t v :: x.after

/-- A target leads to the register: it is on a board of the name, no board of the name before
    that has an entry of the key and kind, and neither has that board before the register. -/
structure Leads (x : Surroundings) (t : Target) : Prop where
  name : x.board.name = t.board
  boards : ∀ b ∈ x.before, b.name = t.board → ∀ e ∈ b.entries t.kind, e.key ≠ t.key
  entries : ∀ e ∈ x.above, e.key ≠ t.key

namespace Leads
variable {x : Surroundings} {t : Target} (h : x.Leads t)
include h

theorem get?_filled (v : Value) : (x.filled t v).get? t.key t.kind = some v := by
  rw [Board.get?, filled, Board.entries_withEntries, if_pos rfl, Entry.lookup_first h.entries]

theorem set?_filled (v w : Value) :
    (x.filled t v).set? t.key t.kind w = some (x.filled t w) := by
  rw [Board.set?, h.get?_filled, Option.isSome_some, if_pos rfl]
  simp only [filled, Board.entries_withEntries, Board.withEntries_withEntries, if_true,
    Entry.replace_first h.entries]

end Leads

end Surroundings

namespace Boards

/-- Boards on which a target is found are the surroundings of its register. -/
theorem exists_fill {bs : Boards} {t : Target} {v : Value} (h : bs.get? t = some v) :
    ∃ x : Surroundings, x.Leads t ∧ bs = x.fill t v := by
  induction bs with
  | nil => cases h
  | cons b bs ih =>
    by_cases hfirst : b.name = t.board ∧ b.get? t.key t.kind = some v
    · obtain ⟨hname, hget⟩ := hfirst
      obtain ⟨above, below, hes, habove⟩ := Entry.exists_of_lookup hget
      refine ⟨⟨[], b, bs, above, below⟩, ⟨hname, List.forall_mem_nil _, habove⟩, ?_⟩
      rw [Surroundings.fill, Surroundings.filled, ← hes, Board.withEntries_entries,
        List.nil_append]
    · -- the register is on a later board, and this one is passed over
      have hpassed : (b.name = t.board → b.get? t.key t.kind = none) ∧ get? bs t = some v := by
        rw [get?] at h
        split at h
        · rename_i hname
          cases hget : b.get? t.key t.kind with
          | none => exact ⟨fun _ => rfl, by rwa [hget, Option.none_or] at h⟩
          | some w =>
            rw [hget, Option.some_or] at h
            exact absurd ⟨hname, hget.trans h⟩ hfirst
        · rename_i hname
          exact ⟨fun hname' => absurd hname' hname, h⟩
      obtain ⟨x, hx, rfl⟩ := ih hpassed.2
      refine ⟨{ x with before := b :: x.before }, ⟨hx.name, ?_, hx.entries⟩, rfl⟩
      exact List.forall_mem_cons.2
        ⟨fun hname => Entry.lookup_eq_none_iff.1 (hpassed.1 hname), hx.boards⟩

section
variable {before : List Board} {t : Target}
  (h : ∀ b ∈ before, b.name = t.board → b.get? t.key t.kind = none)
include h

theorem get?_append (bs : Boards) : get? (before ++ bs) t = get? bs t := by
  induction before with
  | nil => rfl
  | cons b before ih =>
    obtain ⟨hb, hbefore⟩ := List.forall_mem_cons.1 h
    rw [List.cons_append, get?, ih hbefore]
    split
    · rename_i hname
      rw [hb hname, Option.none_or]
    · rfl

theorem set?_append (bs : Boards) (w : Value) :
    set? (before ++ bs) t w = (set? bs t w).map (before ++ ·) := by
  induction before with
  | nil => simp
  | cons b before ih =>
    obtain ⟨hb, hbefore⟩ := List.forall_mem_cons.1 h
    have hpassed : (if b.name = t.board then b.set? t.key t.kind w else none) = none := by
      split
      · rename_i hname
        simp [Board.set?, hb hname]
      · rfl
    rw [List.cons_append, set?, hpassed, ih hbefore, Option.map_map]
    rfl

end

end Boards

namespace Surroundings.Leads
variable {x : Surroundings} {t : Target} (h : x.Leads t)
include h

/-- The boards before that of the register are passed over. -/
theorem passed : ∀ b ∈ x.before, b.name = t.board → b.get? t.key t.kind = none :=
  fun b hb hname => Entry.lookup_eq_none_iff.2 (h.boards b hb hname)

theorem name_filled (v : Value) : (x.filled t v).name = t.board :=
  (Board.name_withEntries ..).trans h.name

/-- A register is read where its target leads. -/
theorem get?_fill (v : Value) : (x.fill t v).get? t = some v := by
  rw [fill, Boards.get?_append h.passed, Boards.get?, if_pos (h.name_filled v), h.get?_filled,
    Option.some_or]

/-- A register is written where its target leads, and nothing else is. -/
theorem set?_fill (v w : Value) : (x.fill t v).set? t w = some (x.fill t w) := by
  rw [fill, Boards.set?_append h.passed, Boards.set?, if_pos (h.name_filled v), h.set?_filled]
  rfl

end Surroundings.Leads

/-! ## Changes -/

namespace Change

/-- What the three outcomes of a change stand for. -/
theorem apply_cases (c : Change) (bs : Boards) :
    (bs.get? c.target = none ∧ c.apply bs = (bs, .missingEntry)) ∨
    (∃ v, bs.get? c.target = some v ∧ Value.parse? c.target.kind c.literal = none ∧
      c.apply bs = (bs, .invalidLiteral)) ∨
    ∃ (x : Surroundings) (v operand : Value), x.Leads c.target ∧ bs = x.fill c.target v ∧
      Value.parse? c.target.kind c.literal = some operand ∧
      c.apply bs = (x.fill c.target (c.result v operand), .applied v (c.result v operand)) := by
  unfold apply
  cases hget : bs.get? c.target with
  | none => exact .inl ⟨rfl, rfl⟩
  | some v =>
    cases hparse : Value.parse? c.target.kind c.literal with
    | none => exact .inr (.inl ⟨v, rfl, rfl, rfl⟩)
    | some operand =>
      obtain ⟨x, hx, rfl⟩ := Boards.exists_fill hget
      refine .inr (.inr ⟨x, v, operand, hx, rfl, rfl, ?_⟩)
      dsimp only
      rw [hx.set?_fill]
      rfl

/-- A value that was set is what its literal denotes. -/
theorem result_of_set {c : Change} (hset : c.operation = .set) (v operand : Value) :
    c.result v operand = operand := by
  cases v <;> cases operand <;> simp [result, hset, Operation.apply]

end Change

namespace Check

/-- Whether a value is equal to itself is asked of numbers as of all else. -/
theorem holds_self {c : Check} (hequal : c.comparison = .equalTo) (v : Value) :
    c.holds v v = decide (v ≠ .float .nan) := by
  have hagrees : c.holds v v = v.agrees v := by
    cases v <;> simp [holds, hequal, Comparison.numbers, Comparison.holds, Value.agrees]
  rw [hagrees, Bool.eq_iff_iff, Value.agrees_self, decide_eq_true_iff]

end Check

/-- A change finds no entry exactly if its target is none, it finds no value in its literal
    exactly if there is an entry but the literal denotes nothing of the kind, and both times
    leaves the boards alone.  Any other change fills the one register that its target leads to,
    and tells what was read there before and what is after; all around the register stays.  If
    it sets the register, a check of the same target and literal finds them equal, unless the
    literal is not a number. -/
theorem Change.apply_fills (c : Change) (bs : Boards) :
    ((c.apply bs).2 = .missingEntry ↔ bs.get? c.target = none) ∧
    ((c.apply bs).2 = .invalidLiteral ↔
      (∃ v, bs.get? c.target = some v) ∧ Value.parse? c.target.kind c.literal = none) ∧
    ((c.apply bs).2 = .missingEntry ∨ (c.apply bs).2 = .invalidLiteral → (c.apply bs).1 = bs) ∧
    ∀ previous current, (c.apply bs).2 = .applied previous current →
      bs.get? c.target = some previous ∧ (c.apply bs).1.get? c.target = some current ∧
      (∃ operand, Value.parse? c.target.kind c.literal = some operand ∧
        current = c.result previous operand) ∧
      (∃ x : Surroundings, x.Leads c.target ∧ bs = x.fill c.target previous ∧
        (c.apply bs).1 = x.fill c.target current) ∧
      (c.operation = .set →
        ({ target := c.target, comparison := .equalTo, literal := c.literal } : Check).answer
            (c.apply bs).1 =
          .decided (decide (Value.parse? c.target.kind c.literal ≠ some (.float .nan)))) := by
  rcases c.apply_cases bs with ⟨hget, happly⟩ | ⟨v, hget, hparse, happly⟩ |
    ⟨x, v, operand, hx, rfl, hparse, happly⟩
  · simp [happly, hget]
  · simp [happly, hget, hparse]
  · simp only [happly, hx.get?_fill, hparse]
    refine ⟨by simp, by simp, by simp, ?_⟩
    rintro previous current ⟨⟩
    refine ⟨rfl, rfl, ⟨operand, rfl, rfl⟩, ⟨x, hx, rfl, rfl⟩, fun hset => ?_⟩
    rw [result_of_set hset]
    simp [Check.answer, hx.get?_fill, hparse, Check.holds_self]

/-- Boards that share a name.  The second of them has a key twice, and under it no number
    where one is asked for. -/
def Boards.shared : Boards :=
  [{ name := "Board", floats := [⟨"y", .float (.ofNat 7)⟩] },
    { name := "Board",
      floats := [⟨"y", .float (.ofNat 8)⟩, ⟨"x", .string "1"⟩, ⟨"x", .boolean true⟩] },
    { name := "Board", floats := [⟨"x", .float (.ofNat 9)⟩] }]

/-- The text in place of a number is what is replaced, and what a check finds to be right then. -/
theorem Change.apply_fills_shared :
    ∃ x bs, ({ target := ⟨"Board", "x", .float⟩, operation := .set, literal := " 2 " } :
          Change).apply .shared = (bs, .applied (.string "1") (.float (.ofNat 2))) ∧
      Surroundings.Leads x ⟨"Board", "x", .float⟩ ∧
      Boards.shared = x.fill ⟨"Board", "x", .float⟩ (.string "1") ∧
      bs = x.fill ⟨"Board", "x", .float⟩ (.float (.ofNat 2)) ∧
      ({ target := ⟨"Board", "x", .float⟩, comparison := .equalTo, literal := " 2 " } :
        Check).answer bs = .decided true := by
  obtain ⟨-, -, -, h⟩ := Change.apply_fills
    { target := ⟨"Board", "x", .float⟩, operation := .set, literal := " 2 " } .shared
  obtain ⟨-, -, -, ⟨x, hx, hold, hnew⟩, hset⟩ := h (.string "1") (.float (.ofNat 2)) rfl
  exact ⟨x, _, rfl, hx, hold, hnew, (hset rfl).trans rfl⟩

end VisualNovel
