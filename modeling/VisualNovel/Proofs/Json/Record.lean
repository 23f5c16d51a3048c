/-
  Reading typed values from documents that were written, one decoder after the other.

  * `Decoder.list_eq_ok`, `Decoder.oneOf_record`, `Decoder.named_name` and others: what the
    basic decoders make of written values;
  * `Form.inOrder` reads the fields of a record one after the other;
  * `Form.objectDecoder_eq_ok`: where the members of an object are the fields in order, among
    others that are none, that is what its decoder does.
-/
import VisualNovel.Json.Form
import VisualNovel.Proofs.Json.Text

namespace VisualNovel

namespace Json

/-! ## What readers find amiss -/

@[simp] theorem reading_string (s : String) : reading? (.string s) = none := by
  rw [reading?] <;> nofun

@[simp] theorem reading_boolean (b : Bool) : reading? (.boolean b) = none := by
  rw [reading?] <;> nofun

@[simp] theorem reading_null : reading? .null = none := by rw [reading?] <;> nofun

@[simp] theorem reading_number (n : Number) : reading? (.number n) = none := by
  rw [reading?] <;> nofun

theorem reading_list {items : List Json} :
    reading? (.list items) = none ↔ ∀ j ∈ items, reading? j = none := by
  have hitems : readingItems? items = none ↔ ∀ j ∈ items, reading? j = none := by
    induction items with
    | nil => simp [readingItems?]
    | cons j js ih => simp [readingItems?, ih]
  simp [list, reading?, hitems]

theorem reading_record {members : List (String × Json)} :
    reading? (.record members) = none ↔ ∀ m ∈ members, reading? m.2 = none := by
  have hmembers : readingMembers? (members.map fun m => (.text m.1, m.2)) = none ↔
      ∀ m ∈ members, reading? m.2 = none := by
    induction members with
    | nil => simp [readingMembers?]
    | cons m ms ih =>
      simp only [List.map_cons, readingMembers?, Option.or_eq_none_iff, ih, List.forall_mem_cons]
  simp only [record, reading?, Option.or_none, hmembers]

end Json

namespace Decoder

open Json (Fault)

universe u v

theorem bind_eq_ok {α : Type u} {β : Type v} {x : Except Fault α} {f : α → Except Fault β} {b : β} :
    x.bind f = .ok b ↔ ∃ a, x = .ok a ∧ f a = .ok b := by
  cases x <;> simp [Except.bind]

theorem map_eq_ok {α : Type u} {β : Type v} {x : Except Fault α} {f : α → β} {b : β} :
    x.map f = .ok b ↔ ∃ a, x = .ok a ∧ f a = b := by
  cases x <;> simp [Except.map]

theorem mapError_eq_ok {α ε : Type} {x : Except Fault α} {f : Fault → ε} {a : α} :
    x.mapError f = .ok a ↔ x = .ok a := by
  cases x with
  | error _ => exact ⟨nofun, nofun⟩
  | ok b =>
    constructor <;> intro h <;> cases h <;> rfl

theorem ensure_eq_ok {flaw : Option Fault} {u : Unit} : ensure flaw = .ok u ↔ flaw = none := by
  cases flaw <;> simp [ensure]

variable {α β : Type}

/-- A text is read as a value if its document, reread, is. -/
theorem decode_text {d : Decoder α} {n : Nat} {j : Json} (h : j.Plain n)
    (hn : n ≤ Json.depthLimit) : decode d j.text = d .streamed j.reread := by
  rw [decode, Json.read_text h hn]
  cases d .streamed j.reread <;> rfl

/-- What is written of a value is read as the value. -/
def Keeps (d : Decoder α) (write : α → Json) (a : α) : Prop := decode d (write a).text = .ok a

theorem keeps_iff {d : Decoder α} {write : α → Json} {n : Nat} {a : α} (h : (write a).Plain n)
    (hn : n ≤ Json.depthLimit) : d.Keeps write a ↔ d .streamed (write a).reread = .ok a := by
  rw [Keeps, decode_text h hn]

/-! ## Scalars -/

theorem integer_ofInt {low high i : Int} (hlow : low ≤ i) (hhigh : i ≤ high) (source : Source) :
    integer low high source (.ofInt i) = .ok i := by
  cases i with
  | ofNat n => exact if_pos ⟨hlow, hhigh⟩
  | negSucc n => exact if_pos ⟨hlow, hhigh⟩

theorem int32_ofInt (source : Source) (n : Int32) :
    int32 source (Json.ofInt n.toInt).reread = .ok n := by
  have hlow := Int32.le_toInt n
  have hhigh := Int32.toInt_lt n
  have hcapacity : (2 : Int) ^ 31 ≤ Json.Number.capacity := by decide
  rw [Json.reread_ofInt (by omega) (by omega), int32, map,
    integer_ofInt (Int32.minValue_le_toInt n) (Int32.toInt_le n), Except.map, Int32.ofInt_toInt]

theorem byte_ofInt (source : Source) (n : UInt8) :
    byte source (Json.ofInt n.toNat).reread = .ok n := by
  have hn := UInt8.toNat_lt n
  have hcapacity : (255 : Int) ≤ Json.Number.capacity := by decide
  rw [Json.reread_ofInt (by omega) (by omega), byte, map, integer_ofInt (by omega) (by omega),
    Except.map, Int.toNat_natCast, UInt8.ofNat_toNat]

theorem natural_ofInt (source : Source) {n : Nat} (hn : n < UInt64.size) :
    natural source (Json.ofInt n).reread = .ok n := by
  have hcapacity : Json.Number.capacity = UInt64.size - 1 := rfl
  rw [Json.reread_ofInt (by omega) (by omega), natural, map, integer_ofInt (by omega) (by omega),
    Except.map, Int.toNat_natCast]

theorem plain_finite {n : Nat} (m : Json.Number) :
    (if m.isFinite then Json.number m else .null).Plain n := by
  split
  · rename_i hm
    exact .number hm
  · exact .null

theorem plain_ofDouble {n : Nat} (x : Binary64) : (Json.ofDouble x).Plain n :=
  plain_finite (.double x)

theorem plain_ofSingle {n : Nat} (x : Binary32) : (Json.ofSingle x).Plain n :=
  plain_finite (.single x)

/-- A number is read alike wherever it stands. -/
theorem binary_eq_ok {f : Format} {write : Binary f → Json} {x : Binary f}
    (h : (write x).Plain 0) (source : Source) :
    binary f source (write x).reread = .ok x ↔ (binary f).Keeps write x := by
  rw [keeps_iff h (Nat.zero_le _)]
  cases (write x).reread with
  | number n => cases n <;> rfl
  | _ => rfl

/-- The text of a number is read as the literal that it is. -/
theorem decode_number {f : Format} {n : Json.Number} (hn : n.isFinite = true)
    {l : Json.NumberLiteral} (hl : l.WellFormed) (hchars : n.chars = l.chars) :
    decode (binary f) (Json.number n).text = binary f .streamed (Json.literal l) := by
  rw [decode_text (.number hn) (Nat.zero_le _), Json.Number.reread_eq hl hchars]

/-- In what is read as a number nothing is amiss. -/
theorem reading_of_integer {low high : Int} {f : Int → α} {source : Source} {j : Json} {a : α}
    (h : map f (integer low high) source j = .ok a) : j.reading? = none := by
  cases j with
  | number n => exact Json.reading_number n
  | _ => cases h

theorem reading_of_binary {f : Format} {source : Source} {j : Json} {x : Binary f}
    (h : binary f source j = .ok x) : j.reading? = none := by
  cases j with
  | number n => exact Json.reading_number n
  | _ => cases h

/-- A value of a closed vocabulary is read by its name. -/
theorem named_name [Named α] (source : Source) (a : α) :
    named source (.string (Named.name a)) = .ok a := by
  have hlookup (s : String) (as : List α) :
      (as.map fun b => (Named.name b, Alternative.plain b)).lookup s =
        (as.find? fun b => Named.name b == s).map .plain := by
    induction as with
    | nil => rfl
    | cons b bs ih =>
      rw [List.map_cons, List.lookup_cons, List.find?_cons, BEq.comm]
      cases Named.name b == s with
      | true => rfl
      | false => exact ih
  rw [named, oneOf, hlookup, Named.find_name, Option.map_some]

theorem option_some {d : Decoder α} {j : Json} (hj : j ≠ .null) (source : Source) {a : α} :
    option d source j = .ok (some a) ↔ d source j = .ok a := by
  unfold option
  split
  · exact absurd rfl hj
  · simp [map_eq_ok]

/-! ## Lists, tables and alternatives -/

/-- A list is read back exactly if its items are. -/
theorem list_eq_ok {d : Decoder α} {source : Source} {write : α → Json} {as : List α} :
    list d source (.list (as.map write)) = .ok as ↔ ∀ a ∈ as, d source (write a) = .ok a := by
  have hitems : (as.map write).mapM (d source) = .ok as ↔
      ∀ a ∈ as, d source (write a) = .ok a := by
    induction as with
    | nil => exact ⟨fun _ => nofun, fun _ => rfl⟩
    | cons a as ih =>
      rw [List.map_cons, List.mapM_cons, List.forall_mem_cons, ← ih]
      cases d source (write a) with
      | error f => exact ⟨nofun, nofun⟩
      | ok b =>
        cases (as.map write).mapM (d source) with
        | error f => exact ⟨nofun, nofun⟩
        | ok bs =>
          refine ⟨fun h => ?_, fun ⟨h, h'⟩ => ?_⟩
          · cases h
            exact ⟨rfl, rfl⟩
          · cases h
            cases h'
            rfl
  rw [Json.list, list, bind_eq_ok, ← hitems]
  simp [ensure, Except.map]

/-- A table is read back if what it holds is. -/
theorem table_record {d : Decoder α} {source : Source} {write : α → Json}
    {es : List (String × α)} (h : ∀ e ∈ es, d source (write e.2) = .ok e.2) :
    table d source (.record (es.map fun e => (e.1, write e.2))) = .ok es := by
  have hentries : entries d source
      ((es.map fun e => (e.1, write e.2)).map fun m => (.text m.1, m.2)) = .ok es := by
    induction es with
    | nil => rfl
    | cons e es ih =>
      obtain ⟨he, hes⟩ := List.forall_mem_cons.1 h
      simp only [List.map_cons, entries, he, ih hes, Except.bind, Except.map]
  rw [Json.record, table, hentries]
  rfl

theorem oneOf_record {cases : List (String × Alternative α)} {name : String}
    {c : Alternative α} (h : cases.lookup name = some c) (source : Source) (j : Json) {a : α} :
    oneOf cases source (.record [(name, j)]) = .ok a ↔ c.content source j = .ok a := by
  cases hc : c.content source j <;>
    simp [Json.record, oneOf, h, hc, Except.bind, Except.map, ensure]

end Decoder

namespace Form

open Json (Fault)
open Decoder (bind_eq_ok map_eq_ok ensure_eq_ok)

/-- Nothing was filled in yet. -/
def isBlank : {α : Type} → Form α → Bool
  | _, of _ => true
  | _, field form _ _ _ value => form.isBlank && value.isNone

/-- Reads the fields from values, of which the last one comes first. -/
def inOrder (source : Source) : {α : Type} → Form α → List Json → Except Fault α
  | _, of a, _ => .ok a
  | _, field _ _ _ _ _, [] => .error .unfit
  | _, field form _ read _ _, j :: js =>
    (form.inOrder source js).bind fun f => (read source j).map f

variable {α β : Type} {source : Source} {other : Json → Option Fault}

/-! ## Filling in -/

theorem put_last (form : Form (β → α)) (name : String) (read : Decoder β) (absent : Option β)
    (j : Json) :
    (form.field name read absent none).put source name j =
      (read source j).map fun b => some (form.field name read absent (some b)) := by
  rw [put.eq_def]
  exact if_pos rfl

theorem put_field {form : Form (β → α)} {n name : String} (h : n ≠ name) (read : Decoder β)
    (absent value : Option β) (j : Json) :
    (form.field n read absent value).put source name j =
      (form.put source name j).map fun r => r.map fun form' => form'.field n read absent value := by
  rw [put.eq_def]
  exact if_neg h

theorem put_of_not_mem {name : String} {form : Form α} (h : name ∉ form.names) (j : Json) :
    form.put source name j = .ok none := by
  induction form with
  | of a => rfl
  | field form n read absent value ih =>
    rw [names, List.mem_append, List.mem_singleton, not_or] at h
    rw [put_field (Ne.symm h.2), ih h.1]
    rfl

theorem names_put {name : String} {j : Json} {form form' : Form α}
    (h : form.put source name j = .ok (some form')) : form'.names = form.names := by
  induction form with
  | of a => cases h
  | field form n read absent value ih =>
    by_cases hn : n = name
    · subst hn
      cases value with
      | some b =>
        rw [put.eq_def] at h
        dsimp only at h
        rw [if_pos rfl] at h
        cases h
      | none =>
        rw [put_last] at h
        obtain ⟨b, -, hb⟩ := map_eq_ok.1 h
        cases hb
        rfl
    · rw [put_field hn] at h
      obtain ⟨r, hr, hmap⟩ := map_eq_ok.1 h
      obtain ⟨form₁, rfl, rfl⟩ := Option.map_eq_some_iff.1 hmap
      rw [names, names, ih hr]

/-- The members of a record, as those of an object. -/
def texts (ms : List (String × Json)) : List (Json.Name × Json) := ms.map fun m => (.text m.1, m.2)

theorem fill_append (ms ms' : List (Json.Name × Json)) (form : Form α) :
    form.fill source other (ms ++ ms') =
      (form.fill source other ms).bind fun form' => form'.fill source other ms' := by
  induction ms generalizing form with
  | nil => rfl
  | cons m ms ih =>
    obtain ⟨name, j⟩ := m
    cases name with
    | text name =>
      rw [List.cons_append, fill, fill]
      cases form.put source name j with
      | error f => rfl
      | ok r =>
        cases r with
        | some form' => exact ih form'
        | none =>
          cases hother : other j with
          | none => simpa [Except.bind, hother, Decoder.ensure] using ih form
          | some f => simp [Except.bind, Decoder.ensure]
    | unreadable => rfl
    | absent read passed => rfl

/-- Members that are no fields change nothing. -/
theorem fill_others {ms : List (String × Json)} {form form' : Form α}
    (h : ∀ m ∈ ms, m.1 ∉ form.names) :
    form.fill source other (texts ms) = .ok form' ↔
      (∀ m ∈ ms, other m.2 = none) ∧ form' = form := by
  induction ms with
  | nil =>
    rw [texts, List.map_nil, fill]
    simp [eq_comm]
  | cons m ms ih =>
    obtain ⟨hm, hms⟩ := List.forall_mem_cons.1 h
    rw [texts, List.map_cons, fill, put_of_not_mem hm, ← texts, List.forall_mem_cons, and_assoc,
      ← ih hms]
    cases other m.2 <;> simp [Except.bind, Decoder.ensure]

/-- Members of other names leave the last field alone. -/
theorem fill_field {ms : List (String × Json)} {form : Form (β → α)} {name : String}
    {read : Decoder β} {absent value : Option β} (h : ∀ m ∈ ms, m.1 ≠ name) :
    (form.field name read absent value).fill source other (texts ms) =
      (form.fill source other (texts ms)).map fun form' => form'.field name read absent value := by
  induction ms generalizing form with
  | nil => rfl
  | cons m ms ih =>
    obtain ⟨hm, hms⟩ := List.forall_mem_cons.1 h
    rw [texts, List.map_cons, fill, fill, put_field (Ne.symm hm), ← texts]
    cases form.put source m.1 m.2 with
    | error f => rfl
    | ok r =>
      cases r with
      | some form' => exact ih hms
      | none =>
        cases other m.2 with
        | none => exact ih hms
        | some f => rfl

theorem names_fill {ms : List (String × Json)} {form form' : Form α}
    (h : form.fill source other (texts ms) = .ok form') : form'.names = form.names := by
  induction ms generalizing form with
  | nil =>
    cases h
    rfl
  | cons m ms ih =>
    rw [texts, List.map_cons, fill, bind_eq_ok] at h
    obtain ⟨r, hr, h⟩ := h
    cases r with
    | some form₁ => rw [ih h, names_put hr]
    | none =>
      obtain ⟨_, -, h⟩ := bind_eq_ok.1 h
      exact ih h

variable (other) in
/-- The fields in order fill a form in as they are read. -/
theorem finish_fill {form : Form α} (hblank : form.isBlank = true) (hnodup : form.names.Nodup)
    {own : List (String × Json)} (hown : own.map Prod.fst = form.names) {a : α} :
    (∃ form', form.fill source other (texts own) = .ok form' ∧ form'.finish = .ok a) ↔
      form.inOrder source (own.map Prod.snd).reverse = .ok a := by
  induction form generalizing own with
  | of a' =>
    rw [names, List.map_eq_nil_iff] at hown
    subst hown
    rw [texts, List.map_nil, fill]
    simp [finish, inOrder]
  | field form n read absent value ih =>
    rw [isBlank, Bool.and_eq_true, Option.isNone_iff_eq_none] at hblank
    obtain ⟨hblank, rfl⟩ := hblank
    -- The last member is the last field, and none of those before it is.
    rw [names] at hown hnodup
    obtain ⟨own, last, rfl, hnames, hlast⟩ := List.map_eq_append_iff.1 hown
    obtain ⟨⟨n', j⟩, rfl, hn⟩ := List.map_eq_singleton_iff.1 hlast
    subst hn
    obtain ⟨hnodup, -, hdisjoint⟩ := List.nodup_append.1 hnodup
    have hne : ∀ m ∈ own, m.1 ≠ n' := fun m hm =>
      hdisjoint m.1 (hnames ▸ List.mem_map_of_mem hm) n' List.mem_cons_self
    have hfill : (form.field n' read absent none).fill source other (texts (own ++ [(n', j)])) =
        (form.fill source other (texts own)).bind fun form' =>
          (read source j).map fun b => form'.field n' read absent (some b) := by
      rw [texts, List.map_append, fill_append, ← texts, fill_field hne]
      cases form.fill source other (texts own) with
      | error f => rfl
      | ok form' =>
        simp only [Except.bind, Except.map, List.map_cons, List.map_nil, fill, put_last]
        cases read source j <;> rfl
    rw [List.map_append, List.reverse_append, hfill]
    simp only [List.map_cons, List.map_nil, List.reverse_singleton, List.singleton_append,
      inOrder, bind_eq_ok, map_eq_ok, ← ih hblank hnodup hnames]
    constructor
    · rintro ⟨_, ⟨form', hform, b, hb, rfl⟩, hfinish⟩
      obtain ⟨f, hf, rfl⟩ := map_eq_ok.1 hfinish
      exact ⟨f, ⟨form', hform, hf⟩, b, hb, rfl⟩
    · rintro ⟨f, ⟨form', hform, hf⟩, b, hb, rfl⟩
      refine ⟨_, ⟨form', hform, b, hb, rfl⟩, ?_⟩
      simp [finish, hf, Except.map]

/-! ## Records -/

/-- A form that is blank and has no two fields of one name. -/
structure Fresh (form : Form α) : Prop where
  blank : form.isBlank = true
  nodup : form.names.Nodup

variable {form : Form α}

/-- Reading an object that has the fields in order, between members that are none: those have
    to be in order as well, and the fields are read one after the other. -/
theorem objectDecoder_eq_ok (hform : form.Fresh) {before own after : List (String × Json)}
    (hown : own.map Prod.fst = form.names) (hothers : ∀ m ∈ before ++ after, m.1 ∉ form.names)
    {a : α} :
    form.objectDecoder other source (.record (before ++ (own ++ after))) = .ok a ↔
      (∀ m ∈ before ++ after, other m.2 = none) ∧
        form.inOrder source (own.map Prod.snd).reverse = .ok a := by
  simp only [List.forall_mem_append] at hothers ⊢
  have htexts : (before ++ (own ++ after)).map (fun m => (Json.Name.text m.1, m.2)) =
      texts before ++ (texts own ++ texts after) := by
    rw [List.map_append, List.map_append]
    rfl
  rw [Json.record, objectDecoder, htexts, fill_append,
    ← finish_fill other hform.blank hform.nodup hown]
  simp only [bind_eq_ok, fill_others hothers.1, fill_append, ensure_eq_ok, true_and,
    exists_const]
  constructor
  · rintro ⟨form', ⟨_, ⟨hbefore, rfl⟩, form₁, hfill, hafter⟩, hfinish⟩
    rw [fill_others (names_fill hfill ▸ hothers.2)] at hafter
    obtain ⟨hafter, rfl⟩ := hafter
    exact ⟨⟨hbefore, hafter⟩, form', hfill, hfinish⟩
  · rintro ⟨⟨hbefore, hafter⟩, form', hfill, hfinish⟩
    exact ⟨form', ⟨form, ⟨hbefore, rfl⟩, form', hfill,
      (fill_others (names_fill hfill ▸ hothers.2)).2 ⟨hafter, rfl⟩⟩, hfinish⟩

/-- Reading an object that has the fields in order. -/
theorem decoder_eq_ok (hform : form.Fresh) {own : List (String × Json)}
    (hown : own.map Prod.fst = form.names) {a : α} :
    form.decoder source (.record own) = .ok a ↔
      form.inOrder source (own.map Prod.snd).reverse = .ok a := by
  have h := @objectDecoder_eq_ok α source Json.passing? form hform [] own [] hown nofun a
  simpa [decoder, Json.record] using h

/-- A text under a name that is no field changes nothing. -/
theorem decoder_tagged (hform : form.Fresh) {own : List (String × Json)}
    (hown : own.map Prod.fst = form.names) {tag : String} (htag : tag ∉ form.names) (s : String)
    {a : α} :
    form.decoder source (.record ((tag, .string s) :: own)) = .ok a ↔
      form.inOrder source (own.map Prod.snd).reverse = .ok a := by
  have h := @objectDecoder_eq_ok α source Json.passing? form hform [(tag, .string s)] own [] hown
    (by simpa using htag) a
  simpa [decoder, Json.record, Json.passing?] using h

end Form

end VisualNovel
