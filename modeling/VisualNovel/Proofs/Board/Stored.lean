/-
  Boards that are written and read again.

  * `Target.decoder_toJson`: a target is read back;
  * `Board.decoder_toJson`: a board is read back exactly if the number in each of its registers
    is.
-/
import Mathlib.Logic.Basic
import Mathlib.Tactic.Simproc.ExistsAndEq
import VisualNovel.Board.Json
import VisualNovel.Proofs.Json.Record

namespace VisualNovel

open Decoder

attribute [local simp] Form.inOrder Form.required Form.optional bind_eq_ok map_eq_ok
  Decoder.string Decoder.boolean named_name Json.Plain.null Json.Plain.boolean Json.Plain.string

theorem Json.plain_ofInt {n : Nat} (i : Int) : (Json.ofInt i).Plain n := by
  cases i <;> exact .number rfl

theorem Target.plain {n : Nat} (t : Target) : t.toJson.Plain (n + 1) := .record (by simp)

theorem Target.decoder_toJson (source : Source) (t : Target) :
    decoder source t.toJson.reread = .ok t := by
  rw [toJson, Json.reread_record, decoder, Form.decoder_eq_ok ⟨rfl, by decide⟩ rfl]
  simp

namespace Value

/-- The number in a register is read back, if it holds one. -/
def Kept (v : Value) : Prop := ∀ x ∈ v.float?, (binary .single).Keeps Json.ofSingle x

theorem plain {n : Nat} (v : Value) : v.toJson.Plain (n + 1) := by
  cases v <;> refine .record ?_ <;> simp [plain_ofSingle]

theorem decoder_toJson (source : Source) (v : Value) :
    decoder source v.toJson.reread = .ok v ↔ v.Kept := by
  cases v with
  | string s =>
    rw [toJson, Json.reread_record, decoder, List.map_cons, List.map_nil, oneOf_record rfl]
    simp [Alternative.content, map, Kept, float?]
  | float x =>
    rw [toJson, Json.reread_record, decoder, List.map_cons, List.map_nil, oneOf_record rfl]
    simp [Alternative.content, map, Kept, float?, binary_eq_ok (plain_ofSingle x)]
  | boolean b =>
    rw [toJson, Json.reread_record, decoder, List.map_cons, List.map_nil, oneOf_record rfl]
    simp [Alternative.content, map, Kept, float?]

end Value

theorem Entry.plain {n : Nat} (e : Entry) : e.toJson.Plain (n + 2) :=
  .record (by simp [Value.plain])

theorem Entry.decoder_toJson (source : Source) (e : Entry) :
    decoder source e.toJson.reread = .ok e ↔ e.value.Kept := by
  obtain ⟨key, v⟩ := e
  rw [toJson, Json.reread_record, decoder, Form.decoder_eq_ok ⟨rfl, by decide⟩ rfl]
  simp [Value.decoder_toJson]

namespace Board

/-- The number in each register is read back. -/
def Kept (b : Board) : Prop := ∀ kind, ∀ e ∈ b.entries kind, e.value.Kept

theorem kept_iff {b : Board} : b.Kept ↔ (∀ e ∈ b.strings, e.value.Kept) ∧
    (∀ e ∈ b.floats, e.value.Kept) ∧ ∀ e ∈ b.booleans, e.value.Kept := by
  refine ⟨fun h => ⟨h .string, h .float, h .boolean⟩, fun ⟨hs, hf, hb⟩ kind => ?_⟩
  cases kind
  · exact hs
  · exact hf
  · exact hb

theorem plain {n : Nat} (b : Board) : b.toJson.Plain (n + 4) :=
  .record (by simp [Json.ofInt32, Json.plain_ofInt, Json.plain_list, Entry.plain])

theorem decoder_toJson (source : Source) (b : Board) :
    decoder source b.toJson.reread = .ok b ↔ b.Kept := by
  rw [kept_iff]
  obtain ⟨name, id, strings, floats, booleans⟩ := b
  rw [toJson, Json.reread_record, decoder, Form.decoder_eq_ok ⟨rfl, by decide⟩ rfl]
  simp [Json.ofInt32, int32_ofInt, list_eq_ok, Entry.decoder_toJson]

end Board

theorem Boards.plain {n : Nat} (bs : Boards) : (Boards.toJson bs).Plain (n + 5) :=
  .list (by simp [Board.plain])

theorem Boards.decoder_toJson (source : Source) (bs : Boards) :
    decoder source (toJson bs).reread = .ok bs ↔ ∀ b ∈ bs, b.Kept := by
  rw [toJson, Json.reread_list, List.map_map, decoder, list_eq_ok]
  simp [Board.decoder_toJson]

end VisualNovel
