/-
  Identities of nodes and connectors: 128-bit numbers, written as five groups of
  hexadecimal digits.

  * `Uuid.text` writes an identity, `Uuid.read?` reads it: hyphenated, bare, in
    braces or as a URN, with letters of either case;
  * `Uuid.read?_text`: a written identity reads back;
  * `IdSupply` hands out identities that are pairwise distinct for the first
    `IdSupply.size` of them (`IdSupply.nth_inj`).
-/
import VisualNovel.Text.Blank
import VisualNovel.Text.Hex

namespace VisualNovel

/-- A 128-bit identity. -/
structure Uuid where
  bits : BitVec 128
  deriving DecidableEq, Hashable, Repr

namespace Uuid

/-- Five groups of digits joined by hyphens. -/
def hyphenate (ds : List Char) : List Char :=
  ds.take 8 ++ '-' :: ((ds.drop 8).take 4 ++ '-' :: ((ds.drop 12).take 4 ++
    '-' :: ((ds.drop 16).take 4 ++ '-' :: ds.drop 20)))

/-- The digits of five groups joined by hyphens. -/
def unhyphenate? (cs : List Char) : Option (List Char) :=
  if cs.length = 36 ∧ cs[8]? = some '-' ∧ cs[13]? = some '-' ∧ cs[18]? = some '-' ∧
      cs[23]? = some '-' then
    some (cs.take 8 ++ (cs.drop 9).take 4 ++ (cs.drop 14).take 4 ++ (cs.drop 19).take 4 ++
      cs.drop 24)
  else none

/-- The digits of a text in any of the accepted forms. -/
def digits? (cs : List Char) : Option (List Char) :=
  if cs.length = 32 then some cs
  else if cs.length = 38 ∧ cs.head? = some '{' ∧ cs.getLast? = some '}' then
    unhyphenate? (cs.drop 1).dropLast
  else if cs.length = 45 ∧ Text.lower (cs.take 9) = "urn:uuid:".toList then
    unhyphenate? (cs.drop 9)
  else unhyphenate? cs

/-- The identity that a text denotes. -/
def read? (s : String) : Option Uuid :=
  (digits? s.toList).bind fun ds => (Hex.read? ds).map fun n => ⟨.ofNat 128 n⟩

/-- The hyphenated form, in lower case. -/
def chars (u : Uuid) : List Char := hyphenate (Hex.digits 32 u.bits.toNat)

/-- The hyphenated form, in lower case. -/
def text (u : Uuid) : String := String.ofList u.chars

theorem digits?_hyphenate {ds : List Char} (h : ds.length = 32) :
    digits? (hyphenate ds) = some ds := by
  have h32 : ∃ f : Fin 32 → Char, ds = List.ofFn f :=
    ⟨fun i => ds.get (i.cast h.symm), by
      refine List.ext_getElem (by rw [List.length_ofFn, h]) fun i _ _ => ?_
      rw [List.getElem_ofFn]; rfl⟩
  obtain ⟨f, rfl⟩ := h32
  simp [digits?, unhyphenate?, hyphenate, List.ofFn_succ]

/-- A written identity reads back. -/
theorem read?_text (u : Uuid) : read? u.text = some u := by
  simp [read?, text, chars, digits?_hyphenate (Hex.length_digits 32 _), Hex.read?_digits]
  cases u with
  | mk b =>
    have hb : b.toNat < 16 ^ 32 := b.isLt
    simp only [Uuid.mk.injEq]
    apply BitVec.eq_of_toNat_eq
    simpa using Nat.mod_eq_of_lt hb

end Uuid

/-- The identity of a node. -/
structure NodeId where
  uuid : Uuid
  deriving DecidableEq, Hashable, Repr

/-- The identity of a connector. -/
structure ConnectorId where
  uuid : Uuid
  deriving DecidableEq, Hashable, Repr

def NodeId.text (n : NodeId) : String := n.uuid.text

def ConnectorId.text (c : ConnectorId) : String := c.uuid.text

/-- A supply of identities, as the number of those handed out. -/
structure IdSupply where
  used : Nat := 0
  deriving DecidableEq, Repr

namespace IdSupply

/-- The number of identities before the first one comes again. -/
def size : Nat := 0x1000000000000

/-- The `n`-th supplied identity: a fixed head, then the number. -/
def nth (n : Nat) : Uuid := ⟨.ofNat 128 (0x6D696E74656440008000 * size + n % size)⟩

theorem nth_inj {m n : Nat} (hm : m < size) (hn : n < size) (h : nth m = nth n) : m = n := by
  simp only [nth, size, Uuid.mk.injEq] at h hm hn
  have h' := congrArg BitVec.toNat h
  simp only [BitVec.toNat_ofNat] at h'
  omega

/-- The next identity, as that of a node. -/
def node (s : IdSupply) : NodeId := ⟨nth s.used⟩

/-- The identities after the next one, as those of connectors. -/
def connector (s : IdSupply) (i : Nat) : ConnectorId := ⟨nth (s.used + 1 + i)⟩

/-- The supply after a node and a number of connectors were named. -/
def skip (s : IdSupply) (connectors : Nat) : IdSupply := ⟨s.used + 1 + connectors⟩

end IdSupply

end VisualNovel
