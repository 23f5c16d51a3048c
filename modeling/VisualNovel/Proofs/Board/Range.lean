/-
  The boards that changes can lead to.  A change rewrites a register and no more, and
  the only texts that it can write are literals.

  * `Boards.Within`: boards that differ from others in their registers only, which hold
    one of some texts or no text;
  * `Boards.Within.apply`: changes stay within such boards, if their literals are among
    the texts;
  * `Boards.finite_within`: there are finitely many such boards.
-/
import Mathlib.Data.Finite.Prod
import Mathlib.Data.Fintype.Option
import Mathlib.Data.Set.Finite.Lattice
import VisualNovel.Board.Rule

namespace VisualNovel

/-- A value in place of another one: it is that one, or one of some texts, or no text. -/
def Value.Within (texts : List String) (v w : Value) : Prop :=
  w = v ∨ ∀ s, w = .string s → s ∈ texts

/-- An entry in place of another one. -/
structure Entry.Within (texts : List String) (d e : Entry) : Prop where
  key : e.key = d.key
  value : d.value.Within texts e.value

/-- A board in place of another one. -/
structure Board.Within (texts : List String) (a b : Board) : Prop where
  name : b.name = a.name
  id : b.id = a.id
  entries : ∀ kind, List.Forall₂ (Entry.Within texts) (a.entries kind) (b.entries kind)

/-- Boards in place of others. -/
def Boards.Within (texts : List String) (as bs : Boards) : Prop :=
  List.Forall₂ (Board.Within texts) as bs

section
variable {texts : List String}

theorem Entry.Within.refl (e : Entry) : e.Within texts e := ⟨rfl, .inl rfl⟩

theorem Board.Within.refl (b : Board) : b.Within texts b :=
  ⟨rfl, rfl, fun _ => List.forall₂_same.2 fun e _ => .refl e⟩

theorem Boards.Within.refl (bs : Boards) : bs.Within texts bs :=
  List.forall₂_same.2 fun b _ => .refl b

/-! ## Changes -/

theorem Entry.Within.replace {key : String} {value : Value}
    (hv : ∀ s, value = .string s → s ∈ texts) {ds es : List Entry}
    (h : List.Forall₂ (Entry.Within texts) ds es) :
    List.Forall₂ (Entry.Within texts) ds (Entry.replace key value es) := by
  induction h with
  | nil => exact .nil
  | cons hde hrest ih =>
    rw [Entry.replace]
    split
    · rename_i hk
      exact .cons ⟨hk.symm.trans hde.key, .inr hv⟩ hrest
    · exact .cons hde ih

theorem Board.Within.set? {a b b' : Board} (h : a.Within texts b) {key : String}
    {kind : RegisterKind} {value : Value} (hv : ∀ s, value = .string s → s ∈ texts)
    (hb : b.set? key kind value = some b') : a.Within texts b' := by
  unfold Board.set? at hb
  split at hb
  · cases hb
    refine ⟨(name_withEntries ..).trans h.name, (id_withEntries ..).trans h.id, fun k => ?_⟩
    rw [entries_withEntries]
    split
    · rename_i hk
      subst hk
      exact Entry.Within.replace hv (h.entries k)
    · exact h.entries k
  · cases hb

theorem Boards.Within.set? {as bs bs' : Boards} (h : as.Within texts bs) {t : Target}
    {value : Value} (hv : ∀ s, value = .string s → s ∈ texts)
    (hb : bs.set? t value = some bs') : as.Within texts bs' := by
  induction h generalizing bs' with
  | nil => cases hb
  | cons hab hrest ih =>
    rw [Boards.set?] at hb
    split at hb
    · rename_i b' hb'
      cases hb
      split at hb'
      · exact .cons (hab.set? hv hb') hrest
      · cases hb'
    · obtain ⟨cs, hcs, rfl⟩ := Option.map_eq_some_iff.1 hb
      exact .cons hab (ih hcs)

/-- The only text that a change writes is its literal. -/
theorem Change.text_of_result {c : Change} {old operand : Value} {s : String}
    (hp : Value.parse? c.target.kind c.literal = some operand)
    (h : c.result old operand = .string s) : s = c.literal := by
  cases operand with
  | string t =>
    have ht : t = c.literal := by
      cases hk : c.target.kind with
      | string => simpa [Value.parse?, hk, eq_comm] using hp
      | float | boolean => cases hk.symm.trans (Value.kind_of_parse? hp).symm
    cases old <;> simpa [Change.result, ← ht, eq_comm] using h
  | float x => cases old <;> cases h
  | boolean b => cases old <;> cases h

theorem Boards.Within.apply {as bs : Boards} (h : as.Within texts bs) {c : Change}
    (hc : c.literal ∈ texts) : as.Within texts (c.apply bs).1 := by
  unfold Change.apply
  split
  · exact h
  · split
    · exact h
    · rename_i old _ _ operand hp
      dsimp only
      cases hb : bs.set? c.target (c.result old operand) with
      | none => exact h
      | some bs' => exact h.set? (fun s hs => Change.text_of_result hp hs ▸ hc) hb

end

/-! ## Finiteness -/

theorem List.finite_forall₂ {α β : Type} {R : α → β → Prop} {as : List α}
    (h : ∀ a ∈ as, {b | R a b}.Finite) : {bs | List.Forall₂ R as bs}.Finite := by
  induction as with
  | nil => exact (Set.finite_singleton []).subset fun bs hbs => List.forall₂_nil_left_iff.1 hbs
  | cons a as ih =>
    have hrest := ih fun b hb => h b (List.mem_cons_of_mem _ hb)
    refine (((h a List.mem_cons_self).prod hrest).image fun x => x.1 :: x.2).subset ?_
    intro bs hbs
    obtain ⟨b, cs, hb, hcs, rfl⟩ := List.forall₂_cons_left_iff.1 hbs
    exact ⟨(b, cs), ⟨hb, hcs⟩, rfl⟩

instance (f : Format) : Finite (Binary f) := by
  refine Finite.of_injective (β := Option (Bool × Fin (f.infinity + 1)))
    (fun | .nan => none | .number negative code => some (negative, code)) ?_
  rintro (_ | _) (_ | _) h <;> simp_all

section
variable (texts : List String)

theorem Value.finite_within (v : Value) : {w | v.Within texts w}.Finite := by
  refine ((Set.finite_singleton v).union ((texts.toFinset.finite_toSet.image Value.string).union
    ((Set.finite_range Value.float).union (Set.finite_range Value.boolean)))).subset ?_
  rintro w (rfl | hw)
  · exact .inl rfl
  · cases w with
    | string s => exact .inr (.inl ⟨s, by simpa using hw s rfl, rfl⟩)
    | float x => exact .inr (.inr (.inl ⟨x, rfl⟩))
    | boolean b => exact .inr (.inr (.inr ⟨b, rfl⟩))

theorem Entry.finite_within (d : Entry) : {e | d.Within texts e}.Finite := by
  refine ((d.value.finite_within texts).image fun v => ⟨d.key, v⟩).subset ?_
  rintro ⟨key, v⟩ ⟨rfl, hv⟩
  exact ⟨v, hv, rfl⟩

theorem Board.finite_within (a : Board) : {b | a.Within texts b}.Finite := by
  have key (kind : RegisterKind) :
      {es | List.Forall₂ (Entry.Within texts) (a.entries kind) es}.Finite :=
    List.finite_forall₂ fun e _ => e.finite_within texts
  refine (((key .string).prod ((key .float).prod (key .boolean))).image fun x =>
    { a with strings := x.1, floats := x.2.1, booleans := x.2.2 }).subset ?_
  rintro ⟨name, id, strings, floats, booleans⟩ ⟨rfl, rfl, h⟩
  exact ⟨(strings, floats, booleans), ⟨h .string, h .float, h .boolean⟩, rfl⟩

theorem Boards.finite_within (as : Boards) : {bs | as.Within texts bs}.Finite :=
  List.finite_forall₂ fun a _ => a.finite_within texts

end

end VisualNovel
