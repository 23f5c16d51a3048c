/-
  Boards of registers.  A board has a list of entries for each kind of register;
  an entry is found by its key and kind, and the first one counts.

  * `Board.insert`, `Board.erase`, `Board.get?` and `Board.set?` work on the
    registers of one board;
  * `Boards.get?` and `Boards.set?` find the register of a target in several;
  * `Board.get?_insert` and `Boards.get?_set?`: what is written is what is read.
-/
import VisualNovel.Board.Value

namespace VisualNovel

/-- A register: its key and what it holds. -/
structure Entry where
  key : String
  value : Value
  deriving DecidableEq

namespace Entry

/-- The value under a key. -/
def lookup (key : String) : List Entry → Option Value
  | [] => none
  | e :: es => if e.key = key then some e.value else lookup key es

/-- The entries with another value under a key. -/
def replace (key : String) (value : Value) : List Entry → List Entry
  | [] => []
  | e :: es => if e.key = key then ⟨key, value⟩ :: es else e :: replace key value es

/-- The entries without the one of a key. -/
def erase (key : String) : List Entry → List Entry
  | [] => []
  | e :: es => if e.key = key then es else e :: erase key es

/-- The entries with a value under a key, which goes last if it is new. -/
def insert (key : String) (value : Value) (es : List Entry) : List Entry :=
  if (lookup key es).isSome then replace key value es else es ++ [⟨key, value⟩]

def agrees (a b : Entry) : Bool := decide (a.key = b.key) && a.value.agrees b.value

theorem lookup_append (k : String) (as bs : List Entry) :
    lookup k (as ++ bs) = (lookup k as).or (lookup k bs) := by
  induction as with
  | nil => rfl
  | cons e es ih =>
    rw [List.cons_append, lookup, lookup]
    split
    · rfl
    · exact ih

theorem lookup_replace (key k : String) (value : Value) (es : List Entry) :
    lookup k (replace key value es) =
      if k = key then (lookup key es).map fun _ => value else lookup k es := by
  induction es with
  | nil => by_cases hk : k = key <;> simp [replace, lookup]
  | cons e es ih =>
    by_cases he : e.key = key
    · by_cases hk : k = key
      · simp [replace, lookup, he, hk]
      · simp [replace, lookup, he, hk, Ne.symm hk]
    · by_cases hk : k = key
      · subst hk
        simpa [replace, lookup, he] using ih
      · simp only [hk, if_false] at ih
        simp [replace, lookup, he, hk, ih]

/-- An inserted value is found under its key, and all others stay where they were. -/
theorem lookup_insert (key k : String) (value : Value) (es : List Entry) :
    lookup k (insert key value es) = if k = key then some value else lookup k es := by
  unfold insert
  split
  · rename_i h
    obtain ⟨v, hv⟩ := Option.isSome_iff_exists.1 h
    rw [lookup_replace, hv]
    rfl
  · rename_i h
    have hn : lookup key es = none := by simpa using h
    rw [lookup_append]
    by_cases hk : k = key
    · subst hk
      simp [hn, lookup]
    · simp [lookup, hk, Ne.symm hk]

end Entry

/-- A named board.  An entry may hold a value of another kind than that of the
    list it is in. -/
structure Board where
  name : String
  id : Int32 := 0
  strings : List Entry := []
  floats : List Entry := []
  booleans : List Entry := []
  deriving DecidableEq

namespace Board

/-- The entries of a kind. -/
def entries (b : Board) : RegisterKind → List Entry
  | .string => b.strings
  | .float => b.floats
  | .boolean => b.booleans

/-- The board with other entries of a kind. -/
def withEntries (b : Board) (kind : RegisterKind) (es : List Entry) : Board :=
  match kind with
  | .string => { b with strings := es }
  | .float => { b with floats := es }
  | .boolean => { b with booleans := es }

@[simp] theorem entries_withEntries (b : Board) (kind k : RegisterKind) (es : List Entry) :
    (b.withEntries kind es).entries k = if k = kind then es else b.entries k := by
  cases kind <;> cases k <;> simp [withEntries, entries]

@[simp] theorem name_withEntries (b : Board) (kind : RegisterKind) (es : List Entry) :
    (b.withEntries kind es).name = b.name := by
  cases kind <;> rfl

@[simp] theorem id_withEntries (b : Board) (kind : RegisterKind) (es : List Entry) :
    (b.withEntries kind es).id = b.id := by
  cases kind <;> rfl

/-- The value under a key and kind. -/
def get? (b : Board) (key : String) (kind : RegisterKind) : Option Value :=
  Entry.lookup key (b.entries kind)

/-- Puts a value under a key and its own kind. -/
def insert (b : Board) (key : String) (value : Value) : Board :=
  b.withEntries value.kind (Entry.insert key value (b.entries value.kind))

/-- Takes the entry of a key and kind away. -/
def erase (b : Board) (key : String) (kind : RegisterKind) : Board :=
  b.withEntries kind (Entry.erase key (b.entries kind))

theorem get?_insert (b : Board) (key k : String) (value : Value) (kind : RegisterKind) :
    (b.insert key value).get? k kind =
      if kind = value.kind ∧ k = key then some value else b.get? k kind := by
  rw [get?, insert, entries_withEntries]
  by_cases h : kind = value.kind
  · subst h
    simp [Entry.lookup_insert, get?]
  · simp [h, get?]

/-- Puts any value into the register of a key and kind, if there is one. -/
def set? (b : Board) (key : String) (kind : RegisterKind) (value : Value) : Option Board :=
  if (b.get? key kind).isSome then
    some (b.withEntries kind (Entry.replace key value (b.entries kind)))
  else none

theorem get?_set? {b b' : Board} {key : String} {kind : RegisterKind} {value : Value}
    (h : b.set? key kind value = some b') : b'.get? key kind = some value := by
  unfold set? at h
  split at h
  · rename_i hs
    obtain ⟨v, hv⟩ := Option.isSome_iff_exists.1 hs
    cases h
    rw [get?] at hv
    simp [get?, Entry.lookup_replace, hv]
  · cases h

theorem isSome_set? (b : Board) (key : String) (kind : RegisterKind) (value : Value) :
    (b.set? key kind value).isSome = (b.get? key kind).isSome := by
  unfold set?
  split <;> simp_all

theorem name_set? {b b' : Board} {key : String} {kind : RegisterKind} {value : Value}
    (h : b.set? key kind value = some b') : b'.name = b.name := by
  unfold set? at h
  split at h
  · cases h
    exact name_withEntries ..
  · cases h

/-- All entries: the texts, then the numbers, then the truth values. -/
def all (b : Board) : List Entry := b.strings ++ b.floats ++ b.booleans

/-- The number of entries. -/
def size (b : Board) : Nat := b.strings.length + b.floats.length + b.booleans.length

def isEmpty (b : Board) : Bool := b.size == 0

/-- Whether two lists agree item by item. -/
def allAgree {α : Type} (agree : α → α → Bool) : List α → List α → Bool
  | [], [] => true
  | a :: as, b :: bs => agree a b && allAgree agree as bs
  | _, _ => false

def agrees (a b : Board) : Bool :=
  decide (a.name = b.name) && decide (a.id = b.id) &&
    allAgree Entry.agrees a.strings b.strings &&
    allAgree Entry.agrees a.floats b.floats &&
    allAgree Entry.agrees a.booleans b.booleans

end Board

/-- Where a register is: on which board, and under which key and kind. -/
structure Target where
  board : String
  key : String
  kind : RegisterKind
  deriving DecidableEq, Repr

/-- The boards of a story, in order. -/
abbrev Boards := List Board

namespace Boards

/-- The first board of a name. -/
def board? (bs : Boards) (name : String) : Option Board := bs.find? fun b => b.name = name

/-- Changes the first board of a name. -/
def modify (name : String) (f : Board → Board) : Boards → Boards
  | [] => []
  | b :: bs => if b.name = name then f b :: bs else b :: modify name f bs

/-- The value of a target: on the first board of its name that has the register. -/
def get? (bs : Boards) (t : Target) : Option Value :=
  match bs with
  | [] => none
  | b :: bs =>
    if b.name = t.board then (b.get? t.key t.kind).or (get? bs t) else get? bs t

/-- Writes to the register that `get?` reads. -/
def set? (bs : Boards) (t : Target) (value : Value) : Option Boards :=
  match bs with
  | [] => none
  | b :: bs =>
    match if b.name = t.board then b.set? t.key t.kind value else none with
    | some b' => some (b' :: bs)
    | none => (set? bs t value).map (b :: ·)

/-- What is written to a register is read from it. -/
theorem get?_set? {bs bs' : Boards} {t : Target} {value : Value}
    (h : set? bs t value = some bs') : get? bs' t = some value := by
  induction bs generalizing bs' with
  | nil => cases h
  | cons b bs ih =>
    rw [set?] at h
    split at h
    · rename_i b' hb
      cases h
      split at hb
      · rename_i hn
        rw [get?, if_pos ((Board.name_set? hb).trans hn), Board.get?_set? hb]
        rfl
      · cases hb
    · rename_i hb
      obtain ⟨cs, hcs, rfl⟩ := Option.map_eq_some_iff.1 h
      rw [get?]
      split
      · rename_i hn
        have hg : b.get? t.key t.kind = none := by
          rw [if_pos hn] at hb
          have hs := Board.isSome_set? b t.key t.kind value
          rw [hb] at hs
          simpa using hs.symm
        rw [hg, Option.none_or, ih hcs]
      · exact ih hcs

/-- Equality of boards as the story sees it. -/
def agree (as bs : Boards) : Bool := Board.allAgree Board.agrees as bs

end Boards

end VisualNovel
