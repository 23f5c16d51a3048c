/-
  Boards as ordered maps from keys and kinds to values.

  * `BoardCall` is what is done to the entries of a board; `Board.call` does it, and gives the
    value that was there before (`Board.call_eq`: this is `Board.insert` or `Board.erase`, and
    what `Board.get?` finds);
  * `Registers` is a finite map from keys and kinds to values, `Registers.call` the same calls
    on it;
  * `Board.Turns` lists what a call can do to a board, with the places of its entries;
  * `Board.Keyed`: no key occurs twice in a kind, and all values are of the kind that they are
    listed in, which every call keeps (`Board.Turns.keyed`);
  * `Board.after_mapped`: so a board that was new and a map that was empty answer alike,
    whatever is called, and the board lists its entries in order.
-/
import Mathlib.Data.Finmap
import VisualNovel.Proofs.Board.Register

namespace VisualNovel

/-! ## Calls -/

/-- What is done to the entries of a board. -/
inductive BoardCall where
  | insert (key : String) (value : Value)
  | erase (key : String) (kind : RegisterKind)
  deriving DecidableEq

namespace Entry

/-- Puts a value in place of the first one under a key, or last if there is none, and gives the
    value that it replaces. -/
def exchange (key : String) (value : Value) : List Entry → List Entry × Option Value
  | [] => ([⟨key, value⟩], none)
  | e :: es =>
    if e.key = key then ({ e with value } :: es, some e.value)
    else
      let (es', old) := exchange key value es
      (e :: es', old)

/-- Takes the first entry of a key out, and gives its value. -/
def extract (key : String) : List Entry → List Entry × Option Value
  | [] => ([], none)
  | e :: es =>
    if e.key = key then (es, some e.value)
    else
      let (es', old) := extract key es
      (e :: es', old)

theorem exchange_eq (key : String) (value : Value) (es : List Entry) :
    exchange key value es = (insert key value es, lookup key es) := by
  induction es with
  | nil => rfl
  | cons e es ih =>
    by_cases hkey : e.key = key
    · subst hkey
      simp [exchange, insert, lookup, replace]
    · simp only [exchange, insert, lookup, replace, if_neg hkey, ih]
      split <;> rfl

theorem extract_eq (key : String) (es : List Entry) :
    extract key es = (erase key es, lookup key es) := by
  induction es with
  | nil => rfl
  | cons e es ih =>
    by_cases hkey : e.key = key
    · simp [extract, erase, lookup, hkey]
    · simp [extract, erase, lookup, hkey, ih]

end Entry

namespace Board

/-- Does a call, and gives the value of its key and kind before. -/
def call (b : Board) : BoardCall → Board × Option Value
  | .insert key value =>
    let (es, old) := Entry.exchange key value (b.entries value.kind)
    (b.withEntries value.kind es, old)
  | .erase key kind =>
    let (es, old) := Entry.extract key (b.entries kind)
    (b.withEntries kind es, old)

theorem call_eq (b : Board) (c : BoardCall) :
    b.call c = match c with
      | .insert key value => (b.insert key value, b.get? key value.kind)
      | .erase key kind => (b.erase key kind, b.get? key kind) := by
  cases c with
  | insert key value => rw [call, Entry.exchange_eq]; rfl
  | erase key kind => rw [call, Entry.extract_eq]; rfl

/-- Whether there is an entry of a key and kind. -/
def contains (b : Board) (key : String) (kind : RegisterKind) : Bool := (b.get? key kind).isSome

/-- The board after calls. -/
def after (b : Board) (cs : List BoardCall) : Board := cs.foldl (fun b c => (b.call c).1) b

end Board

/-- A finite map from keys and kinds to values. -/
abbrev Registers := Finmap fun _ : String × RegisterKind => Value

namespace Registers

/-- Does a call, and gives the value of its key and kind before. -/
def call (m : Registers) : BoardCall → Registers × Option Value
  | .insert key value => (m.insert (key, value.kind) value, m.lookup (key, value.kind))
  | .erase key kind => (m.erase (key, kind), m.lookup (key, kind))

/-- The map after calls. -/
def after (m : Registers) (cs : List BoardCall) : Registers :=
  cs.foldl (fun m c => (m.call c).1) m

end Registers

/-! ## Where entries go -/

namespace Entry
variable {key : String} {es : List Entry}

theorem erase_first {above : List Entry} (h : ∀ e ∈ above, e.key ≠ key) (v : Value)
    (below : List Entry) : erase key (above ++ ⟨key, v⟩ :: below) = above ++ below := by
  induction above with
  | nil => rw [List.nil_append, erase, if_pos rfl, List.nil_append]
  | cons e es ih =>
    obtain ⟨he, hes⟩ := List.forall_mem_cons.1 h
    rw [List.cons_append, erase, if_neg he, ih hes, List.cons_append]

theorem erase_of_fresh (h : ∀ e ∈ es, e.key ≠ key) : erase key es = es := by
  induction es with
  | nil => rfl
  | cons e es ih =>
    obtain ⟨he, hes⟩ := List.forall_mem_cons.1 h
    rw [erase, if_neg he, ih hes]

end Entry

namespace Board

/-- What a call can make of a board, and the value that it gives. -/
inductive Turns (b : Board) : BoardCall → Board → Option Value → Prop where
  /-- A value takes the place of the one before. -/
  | replaces {key : String} {value old : Value} {above below : List Entry}
    (found : b.entries value.kind = above ++ ⟨key, old⟩ :: below) :
    Turns b (.insert key value)
      (b.withEntries value.kind (above ++ ⟨key, value⟩ :: below)) (some old)
  /-- A new entry goes last in its kind. -/
  | appends {key : String} {value : Value} (fresh : ∀ e ∈ b.entries value.kind, e.key ≠ key) :
    Turns b (.insert key value)
      (b.withEntries value.kind (b.entries value.kind ++ [⟨key, value⟩])) none
  /-- An entry is taken out, and those around it stay in order. -/
  | removes {key : String} {kind : RegisterKind} {old : Value} {above below : List Entry}
    (found : b.entries kind = above ++ ⟨key, old⟩ :: below) :
    Turns b (.erase key kind) (b.withEntries kind (above ++ below)) (some old)
  | misses {key : String} {kind : RegisterKind} (fresh : ∀ e ∈ b.entries kind, e.key ≠ key) :
    Turns b (.erase key kind) b none

variable {b b' : Board} {c : BoardCall} {given : Option Value} {kind : RegisterKind}

theorem call_turns (b : Board) (c : BoardCall) : b.Turns c (b.call c).1 (b.call c).2 := by
  rw [call_eq]
  cases c with
  | insert key value =>
    cases hget : b.get? key value.kind with
    | none =>
      have hinsert : b.insert key value =
          b.withEntries value.kind (b.entries value.kind ++ [⟨key, value⟩]) := by
        rw [insert, Entry.insert, ← get?, hget]
        rfl
      simp only [hinsert, hget]
      exact .appends (Entry.lookup_eq_none_iff.1 hget)
    | some old =>
      obtain ⟨above, below, hes, habove⟩ := Entry.exists_of_lookup hget
      have hinsert : b.insert key value =
          b.withEntries value.kind (above ++ ⟨key, value⟩ :: below) := by
        rw [insert, Entry.insert, ← get?, hget, Option.isSome_some, if_pos rfl, hes,
          Entry.replace_first habove]
      simp only [hinsert, hget]
      exact .replaces hes
  | erase key kind =>
    cases hget : b.get? key kind with
    | none =>
      have hfresh := Entry.lookup_eq_none_iff.1 hget
      have herase : b.erase key kind = b := by
        rw [erase, Entry.erase_of_fresh hfresh, withEntries_entries]
      simp only [herase, hget]
      exact .misses hfresh
    | some old =>
      obtain ⟨above, below, hes, habove⟩ := Entry.exists_of_lookup hget
      have herase : b.erase key kind = b.withEntries kind (above ++ below) := by
        rw [erase, hes, Entry.erase_first habove]
      simp only [herase, hget]
      exact .removes hes

theorem Turns.name_id (h : b.Turns c b' given) : b'.name = b.name ∧ b'.id = b.id := by
  cases h with
  | replaces | appends | removes => exact ⟨name_withEntries .., id_withEntries ..⟩
  | misses => exact ⟨rfl, rfl⟩

end Board

/-! ## Keys -/

namespace Entry
variable {key : String} {kind : RegisterKind} {es above below : List Entry} {old value : Value}

/-- Entries under different keys, with values of one kind. -/
structure Keyed (kind : RegisterKind) (es : List Entry) : Prop where
  nodup : (es.map Entry.key).Nodup
  kinds : ∀ e ∈ es, e.value.kind = kind

theorem Keyed.nil : Keyed kind [] := ⟨List.nodup_nil, List.forall_mem_nil _⟩

theorem Keyed.replaced (h : Keyed kind (above ++ ⟨key, old⟩ :: below))
    (hv : value.kind = kind) : Keyed kind (above ++ ⟨key, value⟩ :: below) := by
  refine ⟨by simpa using h.nodup, ?_⟩
  have hkinds := List.forall_mem_append.1 h.kinds
  exact List.forall_mem_append.2
    ⟨hkinds.1, List.forall_mem_cons.2 ⟨hv, (List.forall_mem_cons.1 hkinds.2).2⟩⟩

theorem Keyed.appended (h : Keyed kind es) (hv : value.kind = kind)
    (fresh : ∀ e ∈ es, e.key ≠ key) : Keyed kind (es ++ [⟨key, value⟩]) := by
  refine ⟨?_, List.forall_mem_append.2 ⟨h.kinds, List.forall_mem_singleton.2 hv⟩⟩
  rw [List.map_append, List.map_singleton, ← List.concat_eq_append]
  refine .concat ?_ h.nodup
  intro hmem
  obtain ⟨e, he, hkey⟩ := List.mem_map.1 hmem
  exact fresh e he hkey

theorem Keyed.removed (h : Keyed kind (above ++ ⟨key, old⟩ :: below)) :
    Keyed kind (above ++ below) := by
  have hsub : (above ++ below).Sublist (above ++ ⟨key, old⟩ :: below) :=
    (List.sublist_cons_self ..).append_left above
  exact ⟨h.nodup.sublist (hsub.map _), fun e he => h.kinds e (hsub.subset he)⟩

/-- What is taken out under a key is gone if the key did not occur twice. -/
theorem lookup_erase (h : (es.map Entry.key).Nodup) (k : String) :
    lookup k (erase key es) = if k = key then none else lookup k es := by
  induction es with
  | nil => simp [erase, lookup]
  | cons e es ih =>
    obtain ⟨hfresh, hes⟩ := List.nodup_cons.1 h
    by_cases hkey : e.key = key
    · subst hkey
      have hgone : lookup e.key es = none :=
        lookup_eq_none_iff.2 fun e' he' heq => hfresh (List.mem_map.2 ⟨e', he', heq⟩)
      rw [erase, if_pos rfl, lookup]
      by_cases hk : k = e.key
      · rw [if_pos hk, hk, hgone]
      · rw [if_neg hk, if_neg (Ne.symm hk)]
    · rw [erase, if_neg hkey, lookup, lookup, ih hes]
      by_cases hk : k = key
      · rw [if_pos hk, if_pos hk, if_neg (hk ▸ hkey)]
      · rw [if_neg hk, if_neg hk]

/-- The key and the kind of an entry. -/
def register (e : Entry) : String × RegisterKind := (e.key, e.value.kind)

theorem Keyed.registers (h : Keyed kind es) : (es.map register).Nodup := by
  have hkeys : es.map Entry.key = (es.map register).map Prod.fst := by
    rw [List.map_map]
    rfl
  exact .of_map _ (hkeys ▸ h.nodup)

theorem Keyed.disjoint {kind' : RegisterKind} {fs : List Entry} (h : Keyed kind es)
    (h' : Keyed kind' fs) (hne : kind ≠ kind') :
    (es.map register).Disjoint (fs.map register) := by
  intro r he hf
  obtain ⟨e, hmem, rfl⟩ := List.mem_map.1 he
  obtain ⟨f, hmem', heq⟩ := List.mem_map.1 hf
  refine hne ?_
  rw [← h.kinds e hmem, ← h'.kinds f hmem']
  exact congrArg Prod.snd heq.symm

end Entry

namespace Board
variable {b b' : Board} {c : BoardCall} {given : Option Value} {kind : RegisterKind}

/-- A board on which no key occurs twice in a kind, and each value is listed in its kind. -/
def Keyed (b : Board) : Prop := ∀ kind, Entry.Keyed kind (b.entries kind)

theorem Keyed.withEntries (h : b.Keyed) {es : List Entry} (hes : Entry.Keyed kind es) :
    (b.withEntries kind es).Keyed := by
  intro k
  rw [entries_withEntries]
  split
  · rename_i hk
    exact hk ▸ hes
  · exact h k

/-- Every call keeps a board keyed. -/
theorem Turns.keyed (h : b.Turns c b' given) (hb : b.Keyed) : b'.Keyed := by
  cases h with
  | replaces found => exact hb.withEntries ((found ▸ hb _).replaced rfl)
  | appends fresh => exact hb.withEntries ((hb _).appended rfl fresh)
  | removes found => exact hb.withEntries (found ▸ hb _).removed
  | misses => exact hb

theorem get?_erase (hb : b.Keyed) (key k : String) (kind k' : RegisterKind) :
    (b.erase key kind).get? k k' = if k' = kind ∧ k = key then none else b.get? k k' := by
  rw [get?, erase, entries_withEntries]
  by_cases hkind : k' = kind
  · subst hkind
    simp [Entry.lookup_erase (hb k').nodup, get?]
  · simp [hkind, get?]

/-- All entries together, too, have different keys or kinds. -/
theorem Keyed.registers (hb : b.Keyed) : (b.all.map Entry.register).Nodup := by
  have hstring := hb .string
  have hfloat := hb .float
  have hboolean := hb .boolean
  rw [all, List.map_append, List.map_append]
  refine .append (.append hstring.registers hfloat.registers ?_) hboolean.registers ?_
  · exact hstring.disjoint hfloat (by decide)
  · rw [List.disjoint_append_left]
    exact ⟨hstring.disjoint hboolean (by decide), hfloat.disjoint hboolean (by decide)⟩

/-! ## Boards and maps -/

/-- A board and a map with the same values. -/
def Mirrors (b : Board) (m : Registers) : Prop :=
  ∀ key kind, b.get? key kind = m.lookup (key, kind)

theorem Mirrors.gives {m : Registers} (h : b.Mirrors m) (c : BoardCall) :
    (b.call c).2 = (m.call c).2 := by
  rw [call_eq]
  cases c with
  | insert key value => exact h key value.kind
  | erase key kind => exact h key kind

/-- Every call keeps a keyed board and a map alike. -/
theorem Mirrors.call {m : Registers} (h : b.Mirrors m) (hb : b.Keyed) (c : BoardCall) :
    (b.call c).1.Mirrors (m.call c).1 := by
  intro k k'
  rw [call_eq]
  cases c with
  | insert key value =>
    simp only [Registers.call, get?_insert]
    by_cases heq : (k, k') = (key, value.kind)
    · obtain ⟨rfl, rfl⟩ := Prod.mk.inj heq
      rw [if_pos ⟨rfl, rfl⟩, Finmap.lookup_insert]
    · rw [if_neg fun hk => heq (Prod.ext hk.2 hk.1), Finmap.lookup_insert_of_ne _ heq]
      exact h k k'
  | erase key kind =>
    simp only [Registers.call, get?_erase hb]
    by_cases heq : (k, k') = (key, kind)
    · obtain ⟨rfl, rfl⟩ := Prod.mk.inj heq
      rw [if_pos ⟨rfl, rfl⟩, Finmap.lookup_erase]
    · rw [if_neg fun hk => heq (Prod.ext hk.2 hk.1), Finmap.lookup_erase_ne heq]
      exact h k k'

/-- Calls on a keyed board keep it keyed, and like a map on which the same is called. -/
theorem after_mirrors {m : Registers} (hb : b.Keyed) (h : b.Mirrors m) (cs : List BoardCall) :
    (b.after cs).Keyed ∧ (b.after cs).Mirrors (m.after cs) := by
  induction cs generalizing b m with
  | nil => exact ⟨hb, h⟩
  | cons c cs ih => exact ih ((b.call_turns c).keyed hb) (h.call hb c)

theorem name_id_after (b : Board) (cs : List BoardCall) :
    (b.after cs).name = b.name ∧ (b.after cs).id = b.id := by
  induction cs generalizing b with
  | nil => exact ⟨rfl, rfl⟩
  | cons c cs ih =>
    obtain ⟨hname, hid⟩ := (b.call_turns c).name_id
    obtain ⟨hname', hid'⟩ := ih (b.call c).1
    exact ⟨hname'.trans hname, hid'.trans hid⟩

/-- A new board that is called in any way is an ordered map.  No key and kind occurs twice on
    it, and every value is listed in its own kind.  What is found on it, what it contains, and
    what the next call gives, is what a finite map says on which the same was called.  A call
    that replaces a value does so in its place, a new entry goes last in its kind, and what is
    left after an entry was taken out stays in order.  All its entries are those of the texts,
    then of the numbers, then of the truth values, each once. -/
theorem after_mapped (name : String) (id : Int32) (cs : List BoardCall) :
    let b := Board.after { name, id } cs
    let m := Registers.after ∅ cs
    b.name = name ∧ b.id = id ∧
    (b.all.map Entry.register).Nodup ∧
    (∀ kind, ∀ e ∈ b.entries kind, e.value.kind = kind) ∧
    (∀ key kind, b.get? key kind = m.lookup (key, kind) ∧
      (b.contains key kind = true ↔ (key, kind) ∈ m)) ∧
    (∀ c, (b.call c).2 = (m.call c).2 ∧ b.Turns c (b.call c).1 (b.call c).2) ∧
    b.all = b.entries .string ++ b.entries .float ++ b.entries .boolean ∧
    b.size = b.all.length := by
  have hnew : Keyed { name, id } := by
    intro kind
    cases kind with
    | string | float | boolean => exact .nil
  have hempty : Mirrors { name, id } ∅ := by
    intro key kind
    rw [Finmap.lookup_empty]
    cases kind with
    | string | float | boolean => rfl
  intro b m
  obtain ⟨hname, hid⟩ := name_id_after { name, id } cs
  obtain ⟨hkeyed, hmirrors⟩ := after_mirrors hnew hempty cs
  refine ⟨hname, hid, hkeyed.registers, fun kind => (hkeyed kind).kinds, fun key kind => ?_,
    fun c => ⟨hmirrors.gives c, b.call_turns c⟩, rfl, ?_⟩
  · refine ⟨hmirrors key kind, ?_⟩
    rw [contains, hmirrors key kind, Finmap.lookup_isSome]
  · rw [size, all, List.length_append, List.length_append]

end Board

end VisualNovel
