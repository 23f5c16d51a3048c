/-
  Intents that are forwarded and read again.

  * `Intent.payload_eq_ok`: by the kind that its name stands for, the payload of an intent is
    read as the intent, exactly if its numbers are finite;
  * `Intent.reads_forwarded_iff`: so is the document that is forwarded, in which the payload stands
    before the kind.
-/
import Mathlib.Tactic.Simproc.ExistsAndEq
import VisualNovel.Intent.Json
import VisualNovel.Proofs.Number.Nearest
import VisualNovel.Proofs.Scene.Stored

namespace VisualNovel

open Decoder

attribute [local simp] Form.inOrder Form.required bind_eq_ok map_eq_ok Decoder.string

/-! ## Numbers -/

namespace Decoder

theorem binary_null {f : Format} (source : Source) (x : Binary f) :
    binary f source .null ≠ .ok x := by
  intro h
  cases h

/-- A number is read back from what is written of it if that is a number at all. -/
theorem binary_ofDouble (source : Source) (x : Binary64) :
    binary .double source (.ofDouble x) = .ok x ↔ x.isFinite = true := by
  unfold Json.ofDouble
  by_cases hx : x.isFinite = true
  · rw [if_pos hx]
    exact iff_of_true (congrArg Except.ok (Binary.convert_self hx)) hx
  · rw [if_neg hx]
    exact iff_of_false (binary_null source x) hx

/-- A number of thirty-two bits is read back from the same number in sixty-four bits. -/
theorem binary_ofDouble_convert (source : Source) (x : Binary32) :
    binary .single source (.ofDouble (x.convert .double)) = .ok x ↔ x.isFinite = true := by
  unfold Json.ofDouble
  by_cases hx : x.isFinite = true
  · obtain ⟨hfinite, hback⟩ := Binary.convert_convert Format.single_within_double hx
    rw [if_pos hfinite]
    exact iff_of_true (congrArg Except.ok hback) hx
  · have hfinite : ¬(x.convert .double).isFinite = true := by
      cases x with
      | nan => decide
      | number s c =>
        have hc : c.val = Format.single.infinity := by simpa [Binary.isFinite] using hx
        rw [Binary.convert, if_pos hc]
        cases s <;> decide
    rw [if_neg hfinite]
    exact iff_of_false (binary_null source x) hx

theorem byte_toNat (source : Source) (n : UInt8) : byte source (.ofInt n.toNat) = .ok n := by
  have h := byte_ofInt source n
  have hn := UInt8.toNat_lt n
  have hcapacity : (255 : Int) ≤ Json.Number.capacity := by decide
  rwa [Json.reread_ofInt (by omega) (by omega)] at h

end Decoder

theorem Json.reading_ofDouble (x : Binary64) : (Json.ofDouble x).reading? = none := by
  unfold Json.ofDouble
  split
  · exact Json.reading_number _
  · exact Json.reading_null

/-! ## Reasons -/

namespace ChainEnd

theorem node_toJson (source : Source) (n : NodeId) : NodeId.decoder source n.toJson = .ok n := by
  simpa [NodeId.toJson] using NodeId.decoder_toJson source n

theorem decoder_toJson (source : Source) (c : ChainEnd) : decoder source c.toJson = .ok c := by
  cases c with
  | noEntry => rfl
  | deadEnd n | revisited n =>
    rw [toJson, decoder, oneOf_record rfl, Alternative.content,
      Form.decoder_eq_ok ⟨rfl, by decide⟩ rfl]
    simp [node_toJson]
  | missingScene scene =>
    rw [toJson, decoder, oneOf_record rfl, Alternative.content,
      Form.decoder_eq_ok ⟨rfl, by decide⟩ rfl]
    simp

theorem reading_toJson (c : ChainEnd) : c.toJson.reading? = none := by
  cases c <;> simp [toJson, Json.reading_record, NodeId.toJson]

end ChainEnd

/-! ## Intents -/

namespace Intent

/-- All numbers of an intent are finite. -/
def IsFinite : Intent → Prop
  | showBackground _ fade | switchScene _ fade => fade.isFinite = true
  | showCharacter _ _ _ offset fade => offset.isFinite = true ∧ fade.isFinite = true
  | _ => True

theorem reading_payload (i : Intent) : i.payload.reading? = none := by
  cases i <;>
    simp [payload, Json.reading_record, Json.reading_list, Json.reading_ofDouble,
      ChainEnd.reading_toJson, Json.ofInt]

/-- A payload with the fields of its kind in order is read field by field. -/
theorem Kind.ofForm_eq_ok {form : Form Intent} (hform : form.Fresh) {own : List (String × Json)}
    (hown : own.map Prod.fst = form.names) (source : Source) {i : Intent} :
    (Kind.ofForm form).read source (.record own) = .ok i ↔
      form.inOrder source (own.map Prod.snd).reverse = .ok i := by
  have h := @Form.objectDecoder_eq_ok Intent source Json.passing? form hform [] own [] hown nofun i
  simpa [Kind.ofForm] using h

/-- The name of its kind is read as a kind by which the payload of an intent is read as the
    intent, exactly if its numbers are finite. -/
theorem payload_eq_ok (source : Source) (i : Intent) :
    ∃ k, kindDecoder source (.string i.kindName) = .ok k ∧
      (k.read .buffered i.payload = .ok i ↔ i.IsFinite) := by
  cases i with
  | sessionStopped => exact ⟨_, rfl, iff_of_true rfl trivial⟩
  | _ =>
    refine ⟨_, rfl, ?_⟩
    rw [payload, Kind.ofForm_eq_ok ⟨rfl, by decide⟩ rfl]
    simp [IsFinite, binary_ofDouble, binary_ofDouble_convert, byte_toNat,
      ChainEnd.decoder_toJson, list_eq_ok]

/-- A forwarded intent is read as itself, exactly if its numbers are finite. -/
theorem reads_forwarded_iff (source : Source) (timestamp : String) (i : Intent) :
    decoder source (i.toJson timestamp) = .ok i ↔ i.IsFinite := by
  obtain ⟨k, hkind, hpayload⟩ := payload_eq_ok source i
  -- The payload is kept until the kind is known.
  have hfill (ms : List (Json.Name × Json)) :
      Draft.fill source ((.text "payload", i.payload) :: ms) .blank =
        Draft.fill source ms (.held i.payload) := by
    rw [Draft.fill, if_neg (by decide), if_pos rfl, Draft.putPayload, i.reading_payload]
    rfl
  have hskip (ms : List (Json.Name × Json)) (d : Draft) :
      Draft.fill source ((.text "timestamp", .string timestamp) :: ms) d =
        Draft.fill source ms d := by
    rw [Draft.fill, if_neg (by decide), if_neg (by decide)]
    rfl
  have hkinded : Draft.fill source [(.text "type", .string i.kindName)] (.held i.payload) =
      (k.read .buffered i.payload).map Draft.whole := by
    rw [Draft.fill, if_pos rfl, Draft.putKind, hkind]
    show ((k.read .buffered i.payload).map Draft.whole).bind (Draft.fill source []) = _
    cases k.read .buffered i.payload <;> rfl
  rw [toJson, Json.record, decoder, ← hpayload]
  simp only [List.map_cons, List.map_nil]
  rw [hfill, hskip, hkinded]
  cases k.read .buffered i.payload with
  | error f => exact Iff.rfl
  | ok j => exact Iff.rfl

end Intent

end VisualNovel
