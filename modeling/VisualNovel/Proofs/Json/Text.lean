/-
  Documents that are written and read again.

  * `Json.reread` is a document after that: the same, but for its numbers, each of which is
    what its text is read as;
  * `Json.Plain` are the documents that programs make, with a bound of their depth;
  * `Json.value_chars`: inside any frames, the text of a plain document is read whole and no
    further; `Json.read_text`: the text of a plain document is the document reread.
-/
import VisualNovel.Json.Reader
import VisualNovel.Proofs.Json.Literal

namespace VisualNovel.Json

/-! ## Tokens of what is written -/

theorem tokens_space {c : Char} (hc : isSpace c = true) (rest : List Char) :
    tokens (c :: rest) = tokens rest := by
  rw [tokens, if_pos hc]

theorem tokens_mark {c : Char} {t : Token} (hspace : isSpace c = false) (hmark : mark? c = some t)
    (rest : List Char) : tokens (c :: rest) = t :: tokens rest := by
  rw [tokens, hspace, hmark, if_neg Bool.false_ne_true]

theorem tokens_newLine (depth : Nat) (rest : List Char) :
    tokens (newLine depth ++ rest) = tokens rest := by
  have hblanks (k : Nat) : tokens (List.replicate k ' ' ++ rest) = tokens rest := by
    induction k with
    | zero => rfl
    | succ k ih => rw [List.replicate_succ, List.cons_append, tokens_space rfl, ih]
  rw [newLine, List.cons_append, tokens_space rfl, hblanks]

theorem tokens_null (rest : List Char) :
    tokens ("null".toList ++ rest) = .scalar .null :: tokens rest := by
  simp [tokens, isSpace, mark?, scanScalar, scanWord]

theorem tokens_boolean (b : Bool) (depth : Nat) (rest : List Char) :
    tokens ((boolean b).chars depth ++ rest) = .scalar (.boolean b) :: tokens rest := by
  cases b <;> simp [chars, tokens, isSpace, mark?, scanScalar, scanWord]

/-- What a backslash and more stand for. -/
theorem scanText_escape {read cs rest : List Char} {c : Char} (h : escape cs = .char c rest) :
    scanText true read ('\\' :: cs) = scanText true (c :: read) rest := by
  rw [scanText]
  simp only [Char.reduceEq, if_false, if_true]
  split
  · rename_i h'
    rw [h] at h'
    cases h'
    rfl
  · rename_i h'
    rw [h] at h'
    cases h'
  · rename_i h'
    rw [h] at h'
    cases h'

theorem fourDigits_digits {n : Nat} (hn : n < 0x10000) (rest : List Char) :
    fourDigits (Hex.digits 4 n ++ rest) = .ok (n, rest) := by
  have hread := Hex.read?_digits 4 n
  rw [Nat.mod_eq_of_lt hn] at hread
  have hlength := Hex.length_digits 4 n
  match hds : Hex.digits 4 n, hlength with
  | [a, b, c, d], _ =>
    rw [hds] at hread
    simp [fourDigits, hread]

/-- The control characters are written by their numbers. -/
theorem escape_control {c : Char} (hc : c < ' ') (rest : List Char) :
    escape ('u' :: (Hex.digits 4 c.toNat ++ rest)) = .char c rest := by
  have hlt : c.toNat < 32 := hc
  have htrailing : isTrailing c.toNat = false := by
    simp only [isTrailing, Bool.and_eq_false_iff, decide_eq_false_iff_not]
    omega
  have hleading : isLeading c.toNat = false := by
    simp only [isLeading, Bool.and_eq_false_iff, decide_eq_false_iff_not]
    omega
  simp [escape, unicode, fourDigits_digits (Nat.lt_trans hlt (by decide)), htrailing, hleading,
    Char.ofNat_toNat]

/-- An escaped character is read as itself. -/
theorem scanText_escaped (read : List Char) (c : Char) (rest : List Char) :
    scanText true read (escaped c ++ rest) = scanText true (c :: read) rest := by
  by_cases hquote : c = '"'
  · subst hquote
    exact scanText_escape rfl
  by_cases hbackslash : c = '\\'
  · subst hbackslash
    exact scanText_escape rfl
  by_cases hb : c = '\x08'
  · subst hb
    exact scanText_escape rfl
  by_cases hf : c = '\x0c'
  · subst hf
    exact scanText_escape rfl
  by_cases hn : c = '\n'
  · subst hn
    exact scanText_escape rfl
  by_cases hr : c = '\r'
  · subst hr
    exact scanText_escape rfl
  by_cases ht : c = '\t'
  · subst ht
    exact scanText_escape rfl
  simp only [escaped, hquote, hbackslash, hb, hf, hn, hr, ht, if_false]
  split
  · rename_i hcontrol
    exact scanText_escape (escape_control hcontrol rest)
  · rename_i hplain
    rw [List.singleton_append, scanText, if_neg hquote, if_neg hbackslash, if_neg hplain]

theorem scanText_quoted (s : String) (rest : List Char) :
    scanText true [] (s.toList.flatMap escaped ++ '"' :: rest) = (.whole s, rest) := by
  have hread (cs read : List Char) :
      scanText true read (cs.flatMap escaped ++ '"' :: rest) =
        (.whole (String.ofList (read.reverse ++ cs)), rest) := by
    induction cs generalizing read with
    | nil => simp [scanText]
    | cons c cs ih =>
      rw [List.flatMap_cons, List.append_assoc, scanText_escaped, ih]
      simp
  simpa using hread s.toList []

theorem tokens_quoted (s : String) (rest : List Char) :
    tokens (quoted s ++ rest) = .quoted (.whole s) :: tokens rest := by
  have hscan := scanText_quoted s rest
  simp only [quoted, List.cons_append, List.append_assoc, List.nil_append]
  rw [tokens]
  simp [isSpace, mark?, hscan]

/-! ## Documents reread -/

mutual

/-- What a document is read as once it is written: its numbers are what their texts are. -/
def reread : Json → Json
  | .number n => (read (text (.number n))).1
  | .array items flaw => .array (rereadItems items) flaw
  | .object members flaw => .object (rereadMembers members) flaw
  | j => j

def rereadItems : List Json → List Json
  | [] => []
  | j :: js => reread j :: rereadItems js

def rereadMembers : List (Name × Json) → List (Name × Json)
  | [] => []
  | (name, j) :: ms => (name, reread j) :: rereadMembers ms

end

theorem rereadItems_eq (js : List Json) : rereadItems js = js.map reread := by
  induction js with
  | nil => rfl
  | cons j js ih => rw [rereadItems, ih, List.map_cons]

theorem rereadMembers_eq (ms : List (Name × Json)) :
    rereadMembers ms = ms.map fun m => (m.1, m.2.reread) := by
  induction ms with
  | nil => rfl
  | cons m ms ih => rw [rereadMembers, ih, List.map_cons]

@[simp] theorem reread_null : null.reread = null := by rw [reread] <;> nofun

@[simp] theorem reread_boolean (b : Bool) : (boolean b).reread = .boolean b := by
  rw [reread] <;> nofun

@[simp] theorem reread_string (s : String) : (string s).reread = .string s := by
  rw [reread] <;> nofun

@[simp] theorem reread_list (items : List Json) :
    (list items).reread = list (items.map reread) := by
  rw [list, reread, rereadItems_eq, list]

@[simp] theorem reread_record (members : List (String × Json)) :
    (record members).reread = record (members.map fun m => (m.1, m.2.reread)) := by
  rw [record, reread, rereadMembers_eq, record, List.map_map, List.map_map]
  rfl

/-- The documents that programs make, nested at most so deep: no part of one is amiss, and its
    numbers have finite values. -/
inductive Plain : Nat → Json → Prop
  | null {d} : Plain d .null
  | boolean {d} (b : Bool) : Plain d (.boolean b)
  | string {d} (s : String) : Plain d (.string s)
  | number {d} {n : Number} : n.isFinite = true → Plain d (.number n)
  | list {d} {items : List Json} : (∀ j ∈ items, Plain d j) → Plain (d + 1) (.list items)
  | record {d} {members : List (String × Json)} :
      (∀ m ∈ members, Plain d m.2) → Plain (d + 1) (.record members)

theorem plain_list {d : Nat} {items : List Json} :
    Plain (d + 1) (list items) ↔ ∀ j ∈ items, Plain d j := by
  refine ⟨fun h => ?_, .list⟩
  generalize hj : list items = j at h
  cases h <;> cases hj
  assumption

theorem plain_record {d : Nat} {members : List (String × Json)} :
    Plain (d + 1) (record members) ↔ ∀ m ∈ members, Plain d m.2 := by
  refine ⟨fun h => ?_, .record⟩
  generalize hj : record members = j at h
  cases h with
  | @record _ members' hmembers =>
    simp only [Json.record, object.injEq, and_true] at hj
    obtain rfl : members = members' := (List.map_inj_right fun m m' h => by
      obtain ⟨hname, hvalue⟩ := Prod.mk.inj h
      exact Prod.ext (Name.text.inj hname) hvalue).1 hj
    exact hmembers
  | _ => cases hj

theorem value_literal (stack : List Frame) (l : NumberLiteral) (ts : List Token) :
    value stack (.scalar (literal l) :: ts) = next stack (literal l) ts := by
  unfold literal
  split <;> simp [value]

theorem next_nil (j : Json) (ts : List Token) : next [] j ts = (j, !ts.isEmpty) := by rw [next]

/-- A number is read as the literal that its text is. -/
theorem Number.reread_eq {n : Number} {l : NumberLiteral} (hl : l.WellFormed)
    (hchars : n.chars = l.chars) : (Json.number n).reread = literal l := by
  have htokens : tokens (text (.number n)).toList = [.scalar (literal l)] := by
    have := hl.tokens stops_nil
    rw [List.append_nil] at this
    rw [text, String.toList_ofList, Json.chars, hchars, this, tokens]
  rw [reread, read, htokens, value_literal, next_nil]

theorem reread_natural {n : Nat} (hn : n ≤ Number.capacity) :
    (number (.natural n)).reread = .number (.natural n) := by
  rw [Number.reread_eq (NumberLiteral.wellFormed_ofDigits _ _) (Number.chars_natural n), literal,
    Number.ofLiteral?_natural hn]

theorem reread_negative {n : Nat} (hpos : n ≠ 0) (hn : n ≤ 0x8000000000000000) :
    (number (.negative n)).reread = .number (.negative n) := by
  rw [Number.reread_eq (NumberLiteral.wellFormed_ofDigits _ _) (Number.chars_negative n), literal,
    Number.ofLiteral?_negative hpos hn]

/-- The integers of up to sixty-four bits are read as themselves. -/
theorem reread_ofInt {i : Int} (hlow : -0x8000000000000000 ≤ i) (hhigh : i ≤ Number.capacity) :
    (ofInt i).reread = ofInt i := by
  cases i with
  | ofNat n => exact reread_natural (Int.ofNat_le.1 hhigh)
  | negSucc n => exact reread_negative (Nat.succ_ne_zero n) (by omega)

theorem nested_eq {stack : List Frame} (h : stack.length < depthLimit) (j : Json) :
    nested stack j = j := by
  have : (stack.drop (depthLimit - 1)).isEmpty = true := by
    rw [List.isEmpty_iff, List.drop_eq_nil_iff]
    omega
  rw [nested, if_pos this]

theorem stops_itemChars (depth : Nat) (js : List Json) (rest : List Char) :
    Stops (itemChars depth js ++ rest) := by
  cases js <;> exact stops_cons rfl

theorem stops_memberChars (depth : Nat) (ms : List (Name × Json)) (rest : List Char) :
    Stops (memberChars depth ms ++ rest) := by
  cases ms with
  | nil => exact stops_cons rfl
  | cons m ms => exact stops_cons rfl

/-- No text of a document begins with the end of a list. -/
theorem Plain.tokens_ne {d : Nat} {j : Json} (h : Plain d j) (depth : Nat) {rest : List Char}
    (hrest : Stops rest) (ts : List Token) :
    tokens (j.chars depth ++ rest) ≠ .closeList :: ts := by
  cases h with
  | null =>
    rw [chars, tokens_null] <;> nofun
  | boolean b =>
    rw [tokens_boolean]
    nofun
  | string s =>
    rw [chars, tokens_quoted]
    nofun
  | @number d n hn =>
    obtain ⟨l, hl, hchars⟩ := n.chars_eq hn
    rw [chars, hchars, hl.tokens hrest]
    nofun
  | @list d items hitems =>
    cases items <;> rw [Json.list, chars, List.cons_append, tokens_mark rfl rfl] <;> nofun
  | @record d members hmembers =>
    cases members with
    | nil =>
      rw [Json.record, List.map_nil, chars, List.cons_append, tokens_mark rfl rfl]
      nofun
    | cons m ms =>
      rw [Json.record, List.map_cons, chars, List.cons_append, tokens_mark rfl rfl]
      nofun

/-! ## Reading what was written -/

/-- In frames that leave room for a depth, the text of a document is read as the document
    reread, and no further. -/
def ReadsWhole (d : Nat) (j : Json) : Prop :=
  ∀ (depth : Nat) (stack : List Frame) (rest : List Char), d + stack.length ≤ depthLimit →
    Stops rest → value stack (tokens (j.chars depth ++ rest)) = next stack j.reread (tokens rest)

variable {d : Nat} (depth : Nat) {stack : List Frame} (rest : List Char)

/-- The further items of a list, and its end. -/
theorem next_itemChars {js : List Json} (hroom : d + 1 + stack.length ≤ depthLimit)
    (h : ∀ j ∈ js, ReadsWhole d j) (read : List Json) (j : Json) :
    next (.list read :: stack) j (tokens (itemChars depth js ++ rest)) =
      next stack (.array (read.reverse ++ j :: js.map reread) none) (tokens rest) := by
  induction js generalizing read j with
  | nil =>
    rw [itemChars, List.append_assoc, tokens_newLine, List.singleton_append,
      tokens_mark rfl rfl, next, nested_eq (by omega), List.reverse_cons, List.map_nil]
  | cons j' js ih =>
    have hj := h j' List.mem_cons_self (depth + 1) (.list (j :: read) :: stack)
      (itemChars depth js ++ rest) (by rw [List.length_cons]; omega)
      (stops_itemChars depth js rest)
    rw [itemChars, List.cons_append, tokens_mark rfl rfl, next, List.append_assoc,
      tokens_newLine, List.append_assoc, hj, ih fun x hx => h x (List.mem_cons_of_mem _ hx),
      List.reverse_cons, List.append_assoc, List.map_cons]
    rfl

/-- A member after its opening or its comma. -/
theorem member_chars {j : Json} (hroom : d + 1 + stack.length ≤ depthLimit)
    (h : ReadsWhole d j) (read : List (Name × Json)) (name : String) (hrest : Stops rest) :
    member stack read (tokens (newLine (depth + 1) ++
        (nameChars (.text name) ++ (':' :: ' ' :: (j.chars (depth + 1) ++ rest))))) =
      next (.object read (.text name) :: stack) j.reread (tokens rest) := by
  have hj := h (depth + 1) (.object read (.text name) :: stack) rest
    (by rw [List.length_cons]; omega) hrest
  rw [tokens_newLine, nameChars, tokens_quoted, tokens_mark rfl rfl, tokens_space rfl, member,
    member.colon, hj]

/-- The further members of an object, and its end. -/
theorem next_memberChars {ms : List (String × Json)} (hroom : d + 1 + stack.length ≤ depthLimit)
    (h : ∀ m ∈ ms, ReadsWhole d m.2) (read : List (Name × Json)) (name : Name) (j : Json) :
    next (.object read name :: stack) j
        (tokens (memberChars depth (ms.map fun m => (.text m.1, m.2)) ++ rest)) =
      next stack
        (.object (read.reverse ++ (name, j) :: ms.map fun m => (.text m.1, m.2.reread)) none)
        (tokens rest) := by
  induction ms generalizing read name j with
  | nil =>
    rw [List.map_nil, memberChars, List.append_assoc, tokens_newLine, List.singleton_append,
      tokens_mark rfl rfl, next, nested_eq (by omega), List.reverse_cons, List.map_nil]
  | cons m ms ih =>
    have hm := member_chars depth
      (memberChars depth (ms.map fun m => (.text m.1, m.2)) ++ rest) hroom
      (h m List.mem_cons_self) ((name, j) :: read) m.1 (stops_memberChars _ _ _)
    rw [List.map_cons, memberChars, List.cons_append, tokens_mark rfl rfl, next]
    simp only [List.append_assoc, List.cons_append] at hm ⊢
    rw [hm, ih fun x hx => h x (List.mem_cons_of_mem _ hx), List.reverse_cons, List.append_assoc,
      List.map_cons]
    rfl

/-- The text of a plain document is read whole: by induction on the document, as the text of each
    part is followed by a mark or a new line, at which a number stops. -/
theorem Plain.readsWhole {j : Json} (h : Plain d j) : ReadsWhole d j := by
  induction h with
  | null =>
    intro depth stack rest _ _
    rw [chars, tokens_null, value, reread_null]
    all_goals nofun
  | boolean b =>
    intro depth stack rest _ _
    rw [tokens_boolean, value, reread_boolean]
    nofun
  | string s =>
    intro depth stack rest _ _
    rw [chars, tokens_quoted, value, reread_string]
  | @number d n hn =>
    intro depth stack rest _ hrest
    obtain ⟨l, hl, hchars⟩ := n.chars_eq hn
    rw [chars, hchars, hl.tokens hrest, value_literal, Number.reread_eq hl hchars]
  | @list d items hitems ih =>
    intro depth stack rest hroom _
    rw [reread_list, Json.list, Json.list]
    cases items with
    | nil =>
      rw [chars, List.cons_append, tokens_mark rfl rfl, List.singleton_append,
        tokens_mark rfl rfl, value, nested_eq (by omega), List.map_nil]
    | cons j js =>
      have hj := ih j List.mem_cons_self (depth + 1) (.list [] :: stack)
        (itemChars depth js ++ rest) (by rw [List.length_cons]; omega)
        (stops_itemChars depth js rest)
      rw [chars, List.cons_append, tokens_mark rfl rfl, List.append_assoc, tokens_newLine,
        List.append_assoc, value]
      · rw [hj, next_itemChars depth rest hroom fun x hx => ih x (List.mem_cons_of_mem _ hx)]
        rfl
      · exact fun ts => (hitems j List.mem_cons_self).tokens_ne _ (stops_itemChars _ _ _) ts
  | @record d members hmembers ih =>
    intro depth stack rest hroom _
    rw [reread_record, Json.record, Json.record, List.map_map]
    cases members with
    | nil =>
      rw [List.map_nil, List.map_nil, chars, List.cons_append, tokens_mark rfl rfl,
        List.singleton_append, tokens_mark rfl rfl, value, nested_eq (by omega)]
    | cons m ms =>
      have hm := member_chars depth
        (memberChars depth (ms.map fun m => (.text m.1, m.2)) ++ rest) hroom
        (ih m List.mem_cons_self) [] m.1 (stops_memberChars _ _ _)
      have hms := next_memberChars depth rest hroom
        (fun x hx => ih x (List.mem_cons_of_mem _ hx)) [] (.text m.1) m.2.reread
      rw [List.map_cons, chars, List.cons_append, tokens_mark rfl rfl, value]
      · simp only [List.append_assoc, List.cons_append] at hm ⊢
        rw [hm, hms]
        rfl
      · intro ts hts
        rw [List.append_assoc, tokens_newLine, List.append_assoc, nameChars, tokens_quoted] at hts
        cases hts

/-- **The text of a plain document** is the document reread, and nothing follows it. -/
theorem read_text {j : Json} (h : Plain d j) (hd : d ≤ depthLimit) :
    read j.text = (j.reread, false) := by
  have hread := h.readsWhole 0 [] [] hd stops_nil
  rw [List.append_nil] at hread
  rw [read, text, String.toList_ofList, hread, tokens, next_nil]
  rfl

end VisualNovel.Json
