/-
  What decoders make, whatever they read.

  * `Decoder.Yields`: all that a decoder reads has a property;
  * `Form.Yields`: all that a form makes of its fields has one, if what the fields are read as
    have theirs; `Form.Yields.decoder`: then all that is read with the form has it.
-/
import VisualNovel.Json.Form
import VisualNovel.Proofs.Json.Record

namespace VisualNovel

namespace Decoder

variable {α β : Type}

/-- All that a decoder reads has a property. -/
def Yields (d : Decoder α) (P : α → Prop) : Prop := ∀ source j a, d source j = .ok a → P a

theorem yields_true (d : Decoder α) : d.Yields fun _ => True := fun _ _ _ _ => trivial

theorem Yields.map {d : Decoder α} {P : α → Prop} (h : d.Yields P) {f : α → β} {Q : β → Prop}
    (hf : ∀ a, P a → Q (f a)) : (map f d).Yields Q := by
  intro source j b hb
  obtain ⟨a, ha, rfl⟩ := map_eq_ok.1 hb
  exact hf a (h source j a ha)

theorem Yields.list {d : Decoder α} {P : α → Prop} (h : d.Yields P) :
    (list d).Yields fun as => ∀ a ∈ as, P a := by
  have hmapM (source : Source) (js : List Json) (as : List α)
      (hread : js.mapM (d source) = .ok as) : ∀ a ∈ as, P a := by
    induction js generalizing as with
    | nil =>
      cases hread
      nofun
    | cons j js ih =>
      rw [List.mapM_cons] at hread
      obtain ⟨a, ha, hread⟩ := bind_eq_ok.1 hread
      obtain ⟨as', has, hread⟩ := bind_eq_ok.1 hread
      cases hread
      exact List.forall_mem_cons.2 ⟨h source j a ha, ih as' has⟩
  intro source j as hread
  unfold Decoder.list at hread
  split at hread
  · obtain ⟨as', has, hread⟩ := bind_eq_ok.1 hread
    obtain ⟨_, -, rfl⟩ := map_eq_ok.1 hread
    exact hmapM source _ _ has
  · cases hread

theorem integer_yields (low high : Int) :
    (integer low high).Yields fun i => low ≤ i ∧ i ≤ high := by
  intro source j i h
  unfold integer at h
  split at h
  · split at h
    · rename_i hbounds
      cases h
      exact hbounds
    · cases h
  · split at h
    · rename_i hbounds
      cases h
      exact hbounds
    · cases h
  · cases h

theorem natural_yields : natural.Yields (· < UInt64.size) :=
  (integer_yields _ _).map fun i ⟨hlow, hhigh⟩ => by omega

end Decoder

namespace Form

open Decoder (bind_eq_ok map_eq_ok)

/-- All that a form makes has a property, if the fields are read as they should. -/
def Yields : {α : Type} → Form α → (α → Prop) → Prop
  | _, of a, P => P a
  | _, field form _ read absent value, P => ∃ Q, read.Yields Q ∧ (∀ b ∈ absent, Q b) ∧
    (∀ b ∈ value, Q b) ∧ form.Yields fun f => ∀ b, Q b → P (f b)

/-- A field that may hold anything. -/
theorem Yields.any {α β : Type} {P : α → Prop} {form : Form (β → α)}
    (h : form.Yields fun f => ∀ b, P (f b)) (name : String) (read : Decoder β)
    (absent : Option β) : (form.field name read absent none).Yields P := by
  refine ⟨fun _ => True, Decoder.yields_true read, fun _ _ => trivial, nofun, ?_⟩
  simpa using h

variable {α β : Type} {P : α → Prop} {form : Form α} {source : Source}
  {other : Json → Option Json.Fault}

theorem Yields.put (h : form.Yields P) {name : String} {j : Json} {form' : Form α}
    (hput : form.put source name j = .ok (some form')) : form'.Yields P := by
  induction form with
  | of a => cases hput
  | field form n read absent value ih =>
    obtain ⟨Q, hread, habsent, hvalue, hform⟩ := h
    by_cases hn : n = name
    · subst hn
      cases value with
      | some b =>
        rw [put.eq_def] at hput
        dsimp only at hput
        rw [if_pos rfl] at hput
        cases hput
      | none =>
        rw [put_last] at hput
        obtain ⟨b, hb, hput⟩ := map_eq_ok.1 hput
        cases hput
        refine ⟨Q, hread, habsent, ?_, hform⟩
        rintro _ ⟨⟩
        exact hread source j b hb
    · rw [put_field hn] at hput
      obtain ⟨r, hr, hmap⟩ := map_eq_ok.1 hput
      obtain ⟨form₁, rfl, rfl⟩ := Option.map_eq_some_iff.1 hmap
      exact ⟨Q, hread, habsent, hvalue, ih hform hr⟩

theorem Yields.fill (h : form.Yields P) {ms : List (Json.Name × Json)} {form' : Form α}
    (hfill : form.fill source other ms = .ok form') : form'.Yields P := by
  induction ms generalizing form with
  | nil =>
    cases hfill
    exact h
  | cons m ms ih =>
    obtain ⟨name, j⟩ := m
    cases name with
    | text name =>
      rw [Form.fill, bind_eq_ok] at hfill
      obtain ⟨r, hr, hfill⟩ := hfill
      cases r with
      | some form₁ => exact ih (h.put hr) hfill
      | none =>
        obtain ⟨_, -, hfill⟩ := bind_eq_ok.1 hfill
        exact ih h hfill
    | unreadable => cases hfill
    | absent read passed => cases hfill

theorem Yields.place (h : form.Yields P) {items rest : List Json} {form' : Form α}
    (hplace : form.place source items = .ok (form', rest)) : form'.Yields P := by
  induction form generalizing rest with
  | of a =>
    cases hplace
    exact h
  | field form n read absent value ih =>
    obtain ⟨Q, hread, habsent, hvalue, hform⟩ := h
    rw [Form.place, bind_eq_ok] at hplace
    obtain ⟨⟨form₁, rest₁⟩, hplace₁, hplace⟩ := hplace
    have hform₁ := ih hform hplace₁
    cases rest₁ with
    | nil =>
      cases hplace
      exact ⟨Q, hread, habsent, hvalue, hform₁⟩
    | cons j js =>
      obtain ⟨b, hb, hplace⟩ := map_eq_ok.1 hplace
      cases hplace
      refine ⟨Q, hread, habsent, ?_, hform₁⟩
      rintro _ ⟨⟩
      exact hread source j b hb

theorem Yields.finish (h : form.Yields P) {a : α} (hfinish : form.finish = .ok a) : P a := by
  induction form with
  | of a' =>
    cases hfinish
    exact h
  | field form n read absent value ih =>
    obtain ⟨Q, -, habsent, hvalue, hform⟩ := h
    rw [Form.finish] at hfinish
    split at hfinish
    · cases hfinish
    · rename_i b hb
      obtain ⟨f, hf, rfl⟩ := map_eq_ok.1 hfinish
      refine ih hform hf b ?_
      rcases Option.or_eq_some_iff.1 hb with hb | ⟨-, hb⟩
      · exact hvalue b hb
      · exact habsent b hb

theorem Yields.objectDecoder (h : form.Yields P) (other : Json → Option Json.Fault) :
    (form.objectDecoder other).Yields P := by
  intro source j a hread
  unfold Form.objectDecoder at hread
  split at hread
  · obtain ⟨form', hfill, hread⟩ := bind_eq_ok.1 hread
    obtain ⟨_, -, hfinish⟩ := bind_eq_ok.1 hread
    exact (h.fill hfill).finish hfinish
  · cases hread

/-- All that is read with a form has the property of what it makes. -/
theorem Yields.decoder (h : form.Yields P) : form.decoder.Yields P := by
  intro source j a hread
  unfold Form.decoder at hread
  split at hread
  · obtain ⟨⟨form', rest⟩, hplace, hread⟩ := bind_eq_ok.1 hread
    cases rest with
    | nil =>
      obtain ⟨_, -, hfinish⟩ := bind_eq_ok.1 hread
      exact (h.place hplace).finish hfinish
    | cons j js => cases hread
  · exact h.objectDecoder Json.passing? source _ a hread

end Form

end VisualNovel
