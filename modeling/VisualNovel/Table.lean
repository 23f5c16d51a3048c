/-
  Tables from texts to texts.  A table is kept sorted, so that tables with the
  same entries are equal.

  * `Table.insert` adds or replaces an entry, `Table.get?` looks one up;
  * `get?_insert` says what an insertion does to the look-ups.
-/
namespace VisualNovel

/-- A finite map from texts to texts. -/
structure Table where
  entries : List (String × String)
  sorted : entries.Pairwise fun a b => a.1 < b.1
  deriving DecidableEq

namespace Table

/-- The table without entries. -/
def empty : Table := ⟨[], .nil⟩

instance : Inhabited Table := ⟨empty⟩

/-- Adds an entry to sorted ones, in place of one with the same key. -/
def insertEntry (key text : String) : List (String × String) → List (String × String)
  | [] => [(key, text)]
  | e :: es =>
    if key < e.1 then (key, text) :: e :: es
    else if e.1 < key then e :: insertEntry key text es
    else (key, text) :: es

theorem eq_of_not_lt {a b : String} (h : ¬a < b) (h' : ¬b < a) : a = b :=
  String.le_antisymm (String.not_lt.1 h') (String.not_lt.1 h)

theorem mem_insertEntry {key text : String} {es : List (String × String)}
    {x : String × String} (h : x ∈ insertEntry key text es) : x = (key, text) ∨ x ∈ es := by
  induction es with
  | nil => simpa [insertEntry] using h
  | cons e es ih =>
    rw [insertEntry] at h
    split at h
    · simpa using h
    · split at h
      · rcases List.mem_cons.1 h with h | h
        · exact .inr (by simp [h])
        · exact (ih h).imp id fun h => List.mem_cons_of_mem _ h
      · rcases List.mem_cons.1 h with h | h
        · exact .inl h
        · exact .inr (List.mem_cons_of_mem _ h)

theorem sorted_insertEntry {key text : String} {es : List (String × String)}
    (h : es.Pairwise fun a b => a.1 < b.1) :
    (insertEntry key text es).Pairwise fun a b => a.1 < b.1 := by
  induction es with
  | nil => simp [insertEntry]
  | cons e es ih =>
    obtain ⟨he, hes⟩ := List.pairwise_cons.1 h
    rw [insertEntry]
    split
    · rename_i hlt
      refine List.pairwise_cons.2 ⟨fun x hx => ?_, h⟩
      rcases List.mem_cons.1 hx with rfl | hx
      · exact hlt
      · exact String.lt_trans hlt (he x hx)
    · rename_i hnlt
      split
      · rename_i hlt
        refine List.pairwise_cons.2 ⟨fun x hx => ?_, ih hes⟩
        rcases mem_insertEntry hx with rfl | hx
        · exact hlt
        · exact he x hx
      · rename_i hnlt'
        have hk : key = e.1 := eq_of_not_lt hnlt hnlt'
        exact List.pairwise_cons.2 ⟨fun x hx => hk ▸ he x hx, hes⟩

/-- Adds an entry, in place of one with the same key. -/
def insert (t : Table) (key text : String) : Table :=
  ⟨insertEntry key text t.entries, sorted_insertEntry t.sorted⟩

/-- The text of a key. -/
def get? (t : Table) (key : String) : Option String := t.entries.lookup key

/-- The number of entries. -/
def size (t : Table) : Nat := t.entries.length

/-- The table of a list of entries; of those with the same key the last counts. -/
def ofList (es : List (String × String)) : Table :=
  es.foldl (fun t e => t.insert e.1 e.2) empty

theorem lookup_insertEntry (key text k : String) (es : List (String × String)) :
    (insertEntry key text es).lookup k = if k = key then some text else es.lookup k := by
  induction es with
  | nil => by_cases hk : k = key <;> simp [insertEntry, hk]
  | cons e es ih =>
    obtain ⟨e₁, e₂⟩ := e
    rw [insertEntry]
    split
    · by_cases hk : k = key
      · simp [hk]
      · simp [List.lookup_cons, hk, beq_eq_false_iff_ne.2 hk]
    · split
      · rename_i hlt
        by_cases hk : k = key
        · subst hk
          have : (k == e₁) = false := by
            simp only [beq_eq_false_iff_ne, ne_eq]
            rintro rfl
            exact String.lt_irrefl _ hlt
          simp [List.lookup_cons, this, ih]
        · by_cases he : (k == e₁) = true <;> simp [List.lookup_cons, he, ih, hk]
      · rename_i hnlt hnlt'
        have hk' : key = e₁ := eq_of_not_lt hnlt hnlt'
        subst hk'
        by_cases hk : k = key
        · simp [hk]
        · simp [List.lookup_cons, hk, beq_eq_false_iff_ne.2 hk]

theorem get?_insert (t : Table) (key text k : String) :
    (t.insert key text).get? k = if k = key then some text else t.get? k :=
  lookup_insertEntry key text k t.entries

end Table

end VisualNovel
