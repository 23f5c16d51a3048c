/-
  Number literals as they are written, and what is read from them.

  * `NumberLiteral.chars` writes the parts of a literal, `NumberLiteral.WellFormed` says which
    parts are those of one;
  * `NumberLiteral.WellFormed.tokens`: a written literal is read as one token, whatever
    follows it that does not go on with a number;
  * `Number.chars_eq`: the text of every finite number is a literal.
-/
import VisualNovel.Json.Printer
import VisualNovel.Json.Token

namespace VisualNovel

namespace Json

/-! ## Literals -/

def NumberLiteral.fractionChars : Option (List Char) → List Char
  | none => []
  | some ds => '.' :: ds

def NumberLiteral.exponentChars : Option (Bool × List Char) → List Char
  | none => []
  | some (down, ds) => 'e' :: (if down then '-' else '+') :: ds

/-- The characters of a literal after its sign. -/
def NumberLiteral.magnitudeChars (l : NumberLiteral) : List Char :=
  l.whole ++ (fractionChars l.fraction ++ exponentChars l.exponent)

/-- The characters of the parts of a literal. -/
def NumberLiteral.chars (l : NumberLiteral) : List Char :=
  (if l.negative then ['-'] else []) ++ l.magnitudeChars

/-- At least one digit, and nothing else. -/
def IsDigits (ds : List Char) : Prop := ds ≠ [] ∧ ∀ c ∈ ds, isDigit c = true

/-- The parts of a literal.  No zero stands before other digits of the whole part. -/
structure NumberLiteral.WellFormed (l : NumberLiteral) : Prop where
  whole : IsDigits l.whole
  leading : l.whole = ['0'] ∨ l.whole.head? ≠ some '0'
  fraction : ∀ ds, l.fraction = some ds → IsDigits ds
  exponent : ∀ down ds, l.exponent = some (down, ds) → IsDigits ds

/-- Whether a number may go on with a character. -/
def continues (c : Char) : Bool := isDigit c || c = '.' || c = 'e' || c = 'E'

/-- A text that does not go on with a number. -/
def Stops (rest : List Char) : Prop := ∀ c ∈ rest.head?, continues c = false

theorem stops_nil : Stops [] := nofun

theorem stops_cons {c : Char} {rest : List Char} (h : continues c = false) : Stops (c :: rest) := by
  intro d hd
  cases hd
  exact h

theorem Stops.not_digit {rest : List Char} (h : Stops rest) :
    ∀ c ∈ rest.head?, isDigit c = false := by
  intro c hc
  have := h c hc
  simp only [continues, Bool.or_eq_false_iff] at this
  exact this.1.1.1

theorem takeWhile_append {ds rest : List Char} (hd : ∀ c ∈ ds, isDigit c = true)
    (hrest : ∀ c ∈ rest.head?, isDigit c = false) :
    (ds ++ rest).takeWhile isDigit = ds ∧ (ds ++ rest).dropWhile isDigit = rest := by
  rw [List.takeWhile_append_of_pos hd, List.dropWhile_append_of_pos hd]
  cases rest with
  | nil => simp
  | cons c rest => simp [hrest c rfl]

namespace NumberLiteral

theorem scanExponent_chars (negative : Bool) (whole : List Char) (fraction : Option (List Char))
    {exponent : Option (Bool × List Char)}
    (he : ∀ down ds, exponent = some (down, ds) → IsDigits ds) {rest : List Char}
    (hrest : Stops rest) :
    scanExponent negative whole fraction (exponentChars exponent ++ rest) =
      (literal ⟨negative, whole, fraction, exponent⟩, rest) := by
  cases exponent with
  | none =>
    cases rest with
    | nil => rfl
    | cons c rest =>
      have hc := hrest c rfl
      simp only [continues, Bool.or_eq_false_iff, decide_eq_false_iff_not] at hc
      simp [exponentChars, scanExponent, hc.1.2, hc.2]
  | some e =>
    obtain ⟨down, ds⟩ := e
    obtain ⟨hne, hd⟩ := he down ds rfl
    obtain ⟨htake, hdrop⟩ := takeWhile_append hd hrest.not_digit
    cases down <;> simp [exponentChars, scanExponent, Literal.sign, htake, hdrop, hne]

/-- An exponent, or what follows a literal, does not begin with a digit or a point. -/
theorem head_exponentChars {exponent : Option (Bool × List Char)} {rest : List Char}
    (hrest : Stops rest) :
    ∀ c ∈ (exponentChars exponent ++ rest).head?, isDigit c = false ∧ c ≠ '.' := by
  intro c hc
  cases exponent with
  | none =>
    have := hrest c hc
    simp only [continues, Bool.or_eq_false_iff, decide_eq_false_iff_not] at this
    exact ⟨this.1.1.1, this.1.1.2⟩
  | some e =>
    cases hc
    decide

variable {l : NumberLiteral} (h : l.WellFormed)
include h

theorem WellFormed.scanFraction {rest : List Char} (hrest : Stops rest) :
    scanFraction l.negative l.whole
        (fractionChars l.fraction ++ (exponentChars l.exponent ++ rest)) =
      (literal l, rest) := by
  have hexponent := @head_exponentChars l.exponent rest hrest
  obtain ⟨negative, whole, fraction, exponent⟩ := l
  cases fraction with
  | none =>
    rw [fractionChars, List.nil_append, Json.scanFraction]
    · exact scanExponent_chars negative whole none h.exponent hrest
    · intro rest' hpoint
      rw [hpoint] at hexponent
      exact absurd rfl (hexponent '.' rfl).2
  | some ds =>
    obtain ⟨hne, hd⟩ := h.fraction ds rfl
    obtain ⟨htake, hdrop⟩ := takeWhile_append hd fun c hc => (hexponent c hc).1
    simp only [fractionChars, List.cons_append, Json.scanFraction, htake, hdrop]
    rw [if_neg (by simpa using hne)]
    exact scanExponent_chars negative whole (some ds) h.exponent hrest

theorem WellFormed.scanNumber {rest : List Char} (hrest : Stops rest) :
    scanNumber l.negative (l.whole ++ (fractionChars l.fraction ++
        (exponentChars l.exponent ++ rest))) = (literal l, rest) := by
  have hfraction :
      ∀ c ∈ (fractionChars l.fraction ++ (exponentChars l.exponent ++ rest)).head?,
        isDigit c = false := by
    intro c hc
    cases hf : l.fraction with
    | none =>
      rw [hf] at hc
      exact (head_exponentChars hrest c hc).1
    | some ds =>
      rw [hf] at hc
      cases hc
      decide
  obtain ⟨hne, hd⟩ := h.whole
  obtain ⟨htake, hdrop⟩ := takeWhile_append hd hfraction
  rw [Json.scanNumber]
  simp only [htake, hdrop]
  split
  · contradiction
  · rename_i hzeros
    rcases h.leading with hzero | hhead
    · rw [hzero] at hzeros
      cases hzeros
    · rw [hzeros] at hhead
      exact absurd rfl hhead
  · exact h.scanFraction hrest

omit h in
/-- What begins with a digit is a number. -/
theorem tokens_digit {c : Char} (hc : isDigit c = true) (rest : List Char) :
    Json.tokens (c :: rest) =
      .scalar (Json.scanNumber false (c :: rest)).1 ::
        Json.tokens (Json.scanNumber false (c :: rest)).2 := by
  have hne (d : Char) (hd : isDigit d = false) : c ≠ d := by
    rintro rfl
    rw [hc] at hd
    cases hd
  have hscan : scanScalar c rest = Json.scanNumber false (c :: rest) := by
    simp [scanScalar, hc, hne 'n' rfl, hne 't' rfl, hne 'f' rfl, hne '-' rfl]
  have hmark : mark? c = none := by
    simp [mark?, hne '[' rfl, hne ']' rfl, hne '{' rfl, hne '}' rfl, hne ',' rfl, hne ':' rfl]
  have hspace : isSpace c = false := by
    simp [isSpace, hne ' ' rfl, hne '\n' rfl, hne '\t' rfl, hne '\r' rfl]
  rw [Json.tokens, hspace, hmark, if_neg Bool.false_ne_true]
  simp only [if_neg (hne '"' rfl), hscan]

/-- A written literal is one token. -/
theorem WellFormed.tokens {rest : List Char} (hrest : Stops rest) :
    tokens (l.chars ++ rest) = .scalar (literal l) :: tokens rest := by
  have hscan := h.scanNumber hrest
  obtain ⟨hne, hd⟩ := h.whole
  cases hn : l.negative with
  | true =>
    rw [hn] at hscan
    simp only [chars, magnitudeChars, hn, if_true, List.cons_append, List.nil_append,
      List.append_assoc]
    rw [Json.tokens]
    simp [isSpace, mark?, scanScalar, hscan]
  | false =>
    rw [hn] at hscan
    cases hw : l.whole with
    | nil => exact absurd hw hne
    | cons c cs =>
      rw [hw] at hscan
      have hc : isDigit c = true := hd c (by simp [hw])
      simp only [chars, magnitudeChars, hn, hw, List.cons_append, List.nil_append,
        List.append_assoc, Bool.false_eq_true, if_false]
      rw [tokens_digit hc, ← List.cons_append, hscan]

end NumberLiteral

/-! ## Digits -/

theorem isDigits_toDigits (n : Nat) : IsDigits (Nat.toDigits 10 n) :=
  ⟨Nat.toDigits_ne_nil, fun _ hc => Nat.isDigit_of_mem_toDigits (by decide) (by decide) hc⟩

theorem IsDigits.append {ds es : List Char} (hd : ∀ c ∈ ds, isDigit c = true) (he : IsDigits es) :
    IsDigits (ds ++ es) := by
  refine ⟨by simp [he.1], fun c hc => ?_⟩
  rcases List.mem_append.1 hc with hc | hc
  · exact hd c hc
  · exact he.2 c hc

theorem IsDigits.head_append {ds : List Char} (hd : IsDigits ds) (es : List Char) :
    (ds ++ es).head? = ds.head? := by
  cases ds with
  | nil => exact absurd rfl hd.1
  | cons => rfl

theorem isDigits_of_all {ds : List Char} (h : (!ds.isEmpty && ds.all isDigit) = true) :
    IsDigits ds := by
  rw [Bool.and_eq_true, Bool.not_eq_true', List.isEmpty_eq_false_iff, List.all_eq_true] at h
  exact h

theorem isDigits_zero : IsDigits ['0'] := isDigits_of_all rfl

theorem isDigit_replicate (k : Nat) : ∀ c ∈ List.replicate k '0', isDigit c = true := by
  intro c hc
  rw [List.eq_of_mem_replicate hc]
  decide

/-- The first digit of a positive number is not zero. -/
theorem head_toDigits {n : Nat} (hn : n ≠ 0) : (Nat.toDigits 10 n).head? ≠ some '0' := by
  induction n using Nat.strongRecOn with
  | ind n ih =>
    rcases Nat.lt_or_ge n 10 with hlt | hge
    · rw [Nat.toDigits_of_lt_base hlt]
      have : ∀ m : Fin 10, m.val ≠ 0 → [Nat.digitChar m.val].head? ≠ some '0' := by decide
      exact this ⟨n, hlt⟩ hn
    · rw [Nat.toDigits_of_base_le (by decide) hge, (isDigits_toDigits _).head_append]
      exact ih (n / 10) (by omega) (by omega)

theorem leading_toDigits (n : Nat) :
    Nat.toDigits 10 n = ['0'] ∨ (Nat.toDigits 10 n).head? ≠ some '0' := by
  by_cases hn : n = 0
  · exact .inl (by rw [hn, Nat.toDigits_zero])
  · exact .inr (head_toDigits hn)

end Json

/-! ## Printed numbers -/

attribute [local simp] Json.NumberLiteral.magnitudeChars Json.NumberLiteral.fractionChars
  Json.NumberLiteral.exponentChars

namespace Format

variable {f : Format} {tie : Tie} {code : Nat}

theorem nearestDecimal_neighbour {n d drop : Nat} {x : Int}
    (h : f.neighbour tie code n x drop = some d) : f.nearestDecimal d (x + drop) = code := by
  unfold neighbour at h
  dsimp only at h
  split at h
  · rename_i hbelow habove
    rw [beq_iff_eq] at hbelow habove
    have hchoice (upper : Bool) :
        f.nearestDecimal (if upper then n / 10 ^ drop + 1 else n / 10 ^ drop) (x + drop) =
          code := by
      cases upper
      · exact hbelow
      · exact habove
    cases h
    exact hchoice _
  · rename_i hbelow _
    cases h
    exact beq_iff_eq.1 hbelow
  · rename_i habove
    cases h
    exact beq_iff_eq.1 habove
  · cases h

theorem search_ne_zero (hcode : code ≠ 0) {n : Nat} (hn : n ≠ 0) (x : Int) (drop : Nat) :
    (f.search tie code n x drop).1 ≠ 0 := by
  induction drop with
  | zero => exact hn
  | succ drop ih =>
    rw [search]
    split
    · rename_i d h
      rintro rfl
      have hback := nearestDecimal_neighbour h
      rw [nearestDecimal, if_pos rfl] at hback
      exact hcode hback.symm
    · exact ih

theorem split_ne_zero (hcode : code ≠ 0) : (f.split code).1 ≠ 0 := by
  unfold split
  split
  · exact hcode
  · exact Nat.ne_of_gt (Nat.lt_of_lt_of_le (Nat.two_pow_pos _) (Nat.le_add_right _ _))

theorem exactDecimal_ne_zero {m : Nat} (hm : m ≠ 0) (e : Int) : (exactDecimal m e).1 ≠ 0 := by
  unfold exactDecimal
  split <;> exact Nat.mul_ne_zero hm (Nat.ne_of_gt (Nat.pow_pos (by decide)))

/-- Only zero has the digit zero. -/
theorem shortest_eq_zero (h : (f.shortest tie code).1 = 0) : (f.shortest tie code).2 = 0 := by
  by_cases hcode : code = 0
  · rw [shortest, if_pos hcode]
  · rw [shortest, if_neg hcode] at h
    dsimp only at h
    split at h
    · cases h
    · have hdigits := exactDecimal_ne_zero (split_ne_zero (f := f) hcode) (f.split code).2
      exact absurd h (search_ne_zero hcode hdigits _ _)

end Format

namespace Numeral

open Json

/-- The digits before and after the point are those of a literal. -/
theorem positionalText_eq {ds : List Char} (hds : IsDigits ds) {point : Int}
    (hlead : ds.head? ≠ some '0' ∨ ds = ['0'] ∧ point = 1) :
    ∃ l : NumberLiteral, l.WellFormed ∧ positionalText ".0" ds point = l.magnitudeChars := by
  unfold positionalText
  split
  · refine ⟨⟨false, ['0'], some (List.replicate (-point).toNat '0' ++ ds), none⟩,
      ⟨isDigits_zero, .inl rfl, ?_, nofun⟩, ?_⟩
    · rintro _ ⟨⟩
      exact hds.append (isDigit_replicate _)
    · simp
  · rename_i hpoint
    split
    · refine ⟨⟨false, ds ++ List.replicate (point.toNat - ds.length) '0', some ['0'], none⟩,
        ⟨⟨?_, ?_⟩, ?_, ?_, nofun⟩, ?_⟩
      · simp [hds.1]
      · intro c hc
        rcases List.mem_append.1 hc with hc | hc
        · exact hds.2 c hc
        · exact isDigit_replicate _ c hc
      · rcases hlead with hhead | ⟨rfl, rfl⟩
        · exact .inr (by rwa [hds.head_append])
        · exact .inl rfl
      · rintro _ ⟨⟩
        exact isDigits_zero
      · simp
    · rename_i hlength
      refine ⟨⟨false, ds.take point.toNat, some (ds.drop point.toNat), none⟩,
        ⟨⟨?_, fun c hc => hds.2 c (List.mem_of_mem_take hc)⟩, .inr ?_, ?_, nofun⟩, ?_⟩
      · simp only [ne_eq, List.take_eq_nil_iff, hds.1, or_false]
        omega
      · rcases hlead with hhead | ⟨rfl, rfl⟩
        · rwa [List.head?_take, if_neg (by omega)]
        · exact absurd (Int.le_refl 1) hlength
      · rintro _ ⟨⟩
        refine ⟨?_, fun c hc => hds.2 c (List.mem_of_mem_drop hc)⟩
        simp only [ne_eq, List.drop_eq_nil_iff]
        omega
      · simp

theorem scientificText_eq {ds : List Char} (hds : IsDigits ds) (exponent : Int) :
    ∃ l : NumberLiteral, l.WellFormed ∧ scientificText ds exponent = l.magnitudeChars := by
  have hexponent : IsDigits (Nat.toDigits 10 exponent.natAbs) := isDigits_toDigits _
  match ds, hds with
  | [], hds => exact absurd rfl hds.1
  | d :: ds, hds =>
    have hfirst : IsDigits [d] := by simpa [IsDigits] using hds.2 d (List.mem_cons_self)
    have hlead : [d] = ['0'] ∨ [d].head? ≠ some '0' := by
      by_cases hd : d = '0'
      · exact .inl (by rw [hd])
      · exact .inr (by simpa using hd)
    refine ⟨⟨false, [d], if ds = [] then none else some ds,
        some (decide (exponent < 0), Nat.toDigits 10 exponent.natAbs)⟩,
      ⟨hfirst, hlead, ?_, ?_⟩, ?_⟩
    · intro es hes
      dsimp only at hes
      split at hes
      · cases hes
      · rename_i hne
        cases hes
        exact ⟨hne, fun c hc => hds.2 c (List.mem_cons_of_mem _ hc)⟩
    · rintro _ _ ⟨⟩
      exact hexponent
    · cases ds <;> simp [scientificText]

/-- A style of files: whole numbers keep a point, and zero is written out. -/
structure Stored (style : Numeral) : Prop where
  whole : style.whole = ".0"
  range : ∃ low high, style.positional = some (low, high) ∧ low ≤ 0 ∧ 0 ≤ high

theorem stored_storedDouble : Stored storedDouble := ⟨rfl, -5, 15, rfl, by decide, by decide⟩

theorem stored_storedSingle : Stored storedSingle := ⟨rfl, -6, 12, rfl, by decide, by decide⟩

theorem magnitudeText_eq {style : Numeral} (hstyle : style.Stored) (f : Format) (code : Nat) :
    ∃ l : NumberLiteral, l.WellFormed ∧ style.magnitudeText f code = l.magnitudeChars := by
  obtain ⟨low, high, hrange, hlow, hhigh⟩ := hstyle.range
  simp only [magnitudeText, hrange, hstyle.whole]
  split
  · refine positionalText_eq (isDigits_toDigits _) ?_
    by_cases hd : (f.shortest style.tie code).1 = 0
    · refine .inr ?_
      rw [Format.shortest_eq_zero hd, hd, Nat.toDigits_zero]
      exact ⟨rfl, rfl⟩
    · exact .inl (head_toDigits hd)
  · exact scientificText_eq (isDigits_toDigits _) _

/-- The text of a finite number in a file is a literal. -/
theorem text_eq {style : Numeral} (hstyle : style.Stored) {f : Format} {x : Binary f}
    (hx : x.isFinite = true) :
    ∃ l : NumberLiteral, l.WellFormed ∧ (style.text x).toList = l.chars := by
  cases x with
  | nan => cases hx
  | number negative code =>
    have hcode : code.val ≠ f.infinity := by simpa [Binary.isFinite] using hx
    obtain ⟨l, hl, htext⟩ := magnitudeText_eq hstyle f code
    refine ⟨{ l with negative }, ⟨hl.whole, hl.leading, hl.fraction, hl.exponent⟩, ?_⟩
    simp [text, hcode, htext, NumberLiteral.chars]

end Numeral

namespace Json

/-- Whether a number has a finite value. -/
def Number.isFinite : Number → Bool
  | natural _ | negative _ => true
  | double x => x.isFinite
  | single x => x.isFinite

/-- An integer as a literal. -/
def NumberLiteral.ofDigits (negative : Bool) (n : Nat) : NumberLiteral :=
  ⟨negative, Nat.toDigits 10 n, none, none⟩

theorem NumberLiteral.wellFormed_ofDigits (negative : Bool) (n : Nat) :
    (ofDigits negative n).WellFormed :=
  ⟨isDigits_toDigits n, leading_toDigits n, nofun, nofun⟩

theorem Number.chars_natural (n : Nat) :
    (natural n).chars = (NumberLiteral.ofDigits false n).chars := by
  simp [chars, NumberLiteral.ofDigits, NumberLiteral.chars]

theorem Number.chars_negative (n : Nat) :
    (negative n).chars = (NumberLiteral.ofDigits true n).chars := by
  simp [chars, NumberLiteral.ofDigits, NumberLiteral.chars]

/-- The text of a finite number is a literal. -/
theorem Number.chars_eq {n : Number} (hn : n.isFinite = true) :
    ∃ l : NumberLiteral, l.WellFormed ∧ n.chars = l.chars := by
  cases n with
  | natural n => exact ⟨_, NumberLiteral.wellFormed_ofDigits false n, chars_natural n⟩
  | negative n => exact ⟨_, NumberLiteral.wellFormed_ofDigits true n, chars_negative n⟩
  | double x =>
    rw [chars, if_pos (show Binary.isFinite x = true from hn)]
    exact Numeral.text_eq Numeral.stored_storedDouble hn
  | single x =>
    rw [chars, if_pos (show Binary.isFinite x = true from hn)]
    exact Numeral.text_eq Numeral.stored_storedSingle hn

/-! ## Integers -/

theorem Number.gather_eq {ds : List Char} {n : Nat}
    (h : ds.foldl (fun n c => 10 * n + (c.toNat - 48)) n ≤ capacity) :
    gather n ds = (ds.foldl (fun n c => 10 * n + (c.toNat - 48)) n, []) := by
  induction ds generalizing n with
  | nil => rfl
  | cons c ds ih =>
    have hmono (ds : List Char) (n : Nat) :
        n ≤ ds.foldl (fun n c => 10 * n + (c.toNat - 48)) n := by
      induction ds generalizing n with
      | nil => exact Nat.le_refl n
      | cons c ds ih =>
        have hstep : n ≤ 10 * n + (c.toNat - 48) := by omega
        exact Nat.le_trans hstep (ih _)
    rw [gather, if_pos (Nat.le_trans (hmono ds _) h)]
    exact ih h

theorem Number.gather_toDigits {n : Nat} (hn : n ≤ capacity) :
    gather 0 (Nat.toDigits 10 n) = (n, []) := by
  have hfold : (Nat.toDigits 10 n).foldl (fun n c => 10 * n + (c.toNat - 48)) 0 = n := by
    simpa [Nat.ofDigitChars_eq_foldl] using
      @Nat.ofDigitChars_toDigits 10 n (by decide) (by decide)
  rw [gather_eq (by rwa [hfold]), hfold]

/-- An integer that fits is read as itself. -/
theorem Number.ofLiteral?_natural {n : Nat} (hn : n ≤ capacity) :
    ofLiteral? (.ofDigits false n) = some (.natural n) := by
  simp [ofLiteral?, NumberLiteral.ofDigits, gather_toDigits hn]

theorem Number.ofLiteral?_negative {n : Nat} (hpos : n ≠ 0) (hn : n ≤ 0x8000000000000000) :
    ofLiteral? (.ofDigits true n) = some (.negative n) := by
  have hfits : n ≤ capacity := Nat.le_trans hn (by decide)
  simp [ofLiteral?, NumberLiteral.ofDigits, gather_toDigits hfits, hpos, Nat.not_lt.2 hn]

end Json

end VisualNovel
