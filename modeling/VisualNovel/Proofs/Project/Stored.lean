/-
  Projects that are written and read again.

  * `Project.decoder_toJson`: a project is read back exactly if its fade times and the numbers in
    its registers are;
  * `Project.reads_back_iff`: what that comes to for a project that was itself read;
  * `Project.infinity_lost`: a number that is too large for a register is read as an infinity,
    which is not read back.
-/
import Mathlib.Tactic.Simproc.ExistsAndEq
import VisualNovel.Project.Json
import VisualNovel.Proofs.Scene.Stored

namespace VisualNovel

open Decoder

attribute [local simp] Form.inOrder Form.required Form.optional bind_eq_ok map_eq_ok
  Decoder.string Table.decoder_toJson Json.Plain.string

theorem Character.plain {n : Nat} (c : Character) : c.toJson.Plain (n + 2) :=
  .record (by simp [Table.plain])

theorem Character.decoder_toJson (source : Source) (c : Character) :
    decoder source c.toJson.reread = .ok c := by
  rw [toJson, Json.reread_record, decoder, Form.decoder_eq_ok ⟨rfl, by decide⟩ rfl]
  simp

namespace Project

theorem plain {n : Nat} (p : Project) : p.toJson.Plain (n + 7) :=
  .record (by simp [Json.plain_list, Character.plain, Scene.plain, Boards.plain])

/-- A project is read back exactly if its fade times and the numbers in its registers are. -/
theorem decoder_toJson (source : Source) {p : Project} (hp : ∀ s ∈ p.scenes, s.Sized) :
    decoder source p.toJson.reread = .ok p ↔
      (∀ s ∈ p.scenes, s.Kept) ∧ ∀ b ∈ p.boards, b.Kept := by
  have hcharacters : list Character.decoder source
      (.list (p.characters.map (Json.reread ∘ Character.toJson))) = .ok p.characters :=
    list_eq_ok.2 fun c _ => Character.decoder_toJson source c
  have hscenes : list Scene.decoder source (.list (p.scenes.map (Json.reread ∘ Scene.toJson))) =
      .ok p.scenes ↔ ∀ s ∈ p.scenes, s.Kept := by
    rw [list_eq_ok]
    exact forall₂_congr fun s hs => Scene.decoder_toJson source (hp s hs)
  rw [toJson, Json.reread_record, decoder, Form.decoder_eq_ok ⟨rfl, by decide⟩ rfl, ← hscenes,
    ← Boards.decoder_toJson source]
  obtain ⟨name, characters, scenes, boards⟩ := p
  dsimp only at hcharacters
  simp [hcharacters]

theorem decoder_yields : decoder.Yields fun p => ∀ s ∈ p.scenes, s.Sized := by
  refine Form.Yields.decoder ?_
  refine Form.Yields.any ?_ _ _ _
  refine ⟨_, Scene.decoder_yields.list, by rintro _ ⟨⟩; nofun, nofun, ?_⟩
  iterate 2 refine Form.Yields.any ?_ _ _ _
  exact fun _ _ _ hscenes _ => hscenes

theorem read_eq_ok {text : String} {p : Project} :
    read text = .ok p ↔ decode decoder text = .ok p := mapError_eq_ok

/-- **A project that was read** is read back exactly if every fade time in it and every number in
    a register is read back. -/
theorem reads_back_iff {text : String} {p : Project} (hp : read text = .ok p) :
    read p.text = .ok p ↔
      (∀ s ∈ p.scenes, ∀ x ∈ s.fades, decode (binary .double) (Json.ofDouble x).text = .ok x) ∧
      ∀ b ∈ p.boards, ∀ kind, ∀ e ∈ b.entries kind, ∀ x ∈ e.value.float?,
        decode (binary .single) (Json.ofSingle x).text = .ok x := by
  have hsized : ∀ s ∈ p.scenes, s.Sized := by
    obtain ⟨p', hp', hrest⟩ := bind_eq_ok.1 (read_eq_ok.1 hp)
    split at hrest
    · cases hrest
    · cases hrest
      exact decoder_yields _ _ p hp'
  rw [read_eq_ok, Project.text, decode_text (plain (n := 0) p) (by decide),
    decoder_toJson .streamed hsized]
  rfl

/-! ## A register -/

/-- A project with one register, as an author may write it. -/
def levels (n : Json.Number) : Json := .record [
  ("name", .string "Harbour"),
  ("blackboards", .list [.record [
    ("name", .string "Levels"),
    ("floats", .list [.record [
      ("key", .string "water"), ("value", .record [("Float", .number n)])]])]])]

/-- The project, with a number in the register. -/
def harbour (x : Binary32) : Project where
  name := "Harbour"
  boards := [{ name := "Levels", floats := [⟨"water", .float x⟩] }]

theorem plain_levels {n : Json.Number} (hn : n.isFinite = true) {d : Nat} :
    (levels n).Plain (d + 6) :=
  .record (by simp [Json.plain_list, Json.plain_record, Json.Plain.number hn])

theorem read_levels {n n' : Json.Number} (hn : n.isFinite = true)
    (hread : (Json.number n).reread = .number n') {p : Project}
    (hp : decoder .streamed (levels n') = .ok p) : read (levels n).text = .ok p := by
  have hlevels : (levels n).reread = levels n' := by simp [levels, hread]
  rw [read_eq_ok, decode_text (plain_levels (d := 0) hn) (by decide), hlevels, hp]

/-- The integer one is read as a number that is read back. -/
theorem reads_back_iff_levels :
    read (levels (.natural 1)).text = .ok (harbour (.ofNat 1)) ∧
      read (harbour (.ofNat 1)).text = .ok (harbour (.ofNat 1)) := by
  have hread : read (levels (.natural 1)).text = .ok (harbour (.ofNat 1)) :=
    read_levels rfl (Json.reread_natural (by decide)) rfl
  have hone : decode (binary .single) (Json.ofSingle (.ofNat 1)).text = .ok (.ofNat 1) := by
    have hl : Json.NumberLiteral.WellFormed ⟨false, ['1'], some ['0'], none⟩ :=
      ⟨Json.isDigits_of_all rfl, .inr (by decide), by rintro _ ⟨⟩; exact Json.isDigits_zero, nofun⟩
    have hfinite : (Binary.ofNat 1 : Binary32).isFinite = true := by decide +kernel
    rw [show Json.ofSingle (.ofNat 1) = .number (.single (.ofNat 1)) from if_pos hfinite,
      @decode_number .single (.single (.ofNat 1)) hfinite _ hl (by decide +kernel)]
    rfl
  refine ⟨hread, (reads_back_iff hread).2 ⟨nofun, List.forall_mem_singleton.2 fun kind => ?_⟩⟩
  cases kind with
  | float =>
    refine List.forall_mem_singleton.2 ?_
    rintro _ ⟨⟩
    exact hone
  | string => nofun
  | boolean => nofun

/-- A number too large for a register is read as an infinity, whose text is not read. -/
theorem infinity_lost :
    read (levels (.double (.ofDecimal false 1 39))).text = .ok (harbour (.infinity false)) ∧
      read (harbour (.infinity false)).text = .error (.unreadable .unfit) := by
  have hl : Json.NumberLiteral.WellFormed ⟨false, ['1'], none, some (false, ['3', '9'])⟩ :=
    ⟨Json.isDigits_of_all rfl, .inr (by decide), nofun, by
      rintro _ _ ⟨⟩
      exact Json.isDigits_of_all rfl⟩
  have hreread : (Json.number (.double (.ofDecimal false 1 39))).reread =
      .number (.double (.ofDecimal false 1 39)) := by
    rw [Json.Number.reread_eq hl (by decide +kernel)]
    rfl
  have hnull : Json.ofSingle (.infinity false) = .null := if_neg (by decide)
  have hharbour : (harbour (.infinity false)).toJson.reread =
      (harbour (.infinity false)).toJson := by
    simp [harbour, toJson, Boards.toJson, Board.toJson, Entry.toJson, Value.toJson, hnull,
      Json.ofInt32, Json.ofInt, Json.reread_natural]
  refine ⟨read_levels (by decide +kernel) hreread rfl, ?_⟩
  rw [read, Project.text, decode_text (plain (n := 0) _) (by decide), hharbour]
  rfl

end Project

end VisualNovel
