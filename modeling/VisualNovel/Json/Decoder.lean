/-
  Reading typed values from documents.  A decoder reports the first fault that a
  reader meets who goes through the document once, from front to back.

  * `Decoder α` reads an `α`; the basic ones read texts, numbers, lists, tables
    and the alternatives of a type;
  * `decode` reads a whole text with a decoder.
-/
import VisualNovel.Json.Reader
import VisualNovel.Named

namespace VisualNovel

/-- How a document comes to its reader: as a text that is read on the way, or as
    values that were read before.  The second is all in order; what is left to
    find is that it does not fit. -/
inductive Source where
  | streamed
  | buffered
  deriving DecidableEq

/-- Reads a value, or reports the first fault. -/
abbrev Decoder (α : Type) := Source → Json → Except Json.Fault α

namespace Decoder

open Json (Fault)

variable {α β : Type}

/-- The fault of a value with more parts than there is room for. -/
def tooMany : Source → Fault
  | .streamed => .malformed
  | .buffered => .unfit

/-- Fails if there is a fault. -/
def ensure : Option Fault → Except Fault Unit
  | none => .ok ()
  | some f => .error f

/-- Applies a function to what is read. -/
def map (f : α → β) (d : Decoder α) : Decoder β := fun source j => (d source j).map f

/-- Reads a value and makes something of it; what cannot be used does not fit. -/
def filterMap (f : α → Option β) (d : Decoder α) : Decoder β := fun source j =>
  (d source j).bind fun a =>
    match f a with
    | some b => .ok b
    | none => .error .unfit

/-! ## Scalars -/

def string : Decoder String
  | _, .string s => .ok s
  | _, j => .error j.mismatch

def boolean : Decoder Bool
  | _, .boolean b => .ok b
  | _, j => .error j.mismatch

/-- Reads an integer between two bounds; a number written with a point or an
    exponent is none. -/
def integer (low high : Int) : Decoder Int
  | _, .number (.natural n) => if low ≤ n ∧ (n : Int) ≤ high then .ok n else .error .unfit
  | _, .number (.negative n) =>
    if low ≤ -(n : Int) ∧ -(n : Int) ≤ high then .ok (-n) else .error .unfit
  | _, j => .error j.mismatch

/-- Reads an integer of thirty-two bits. -/
def int32 : Decoder Int32 := map Int32.ofInt (integer Int32.minValue.toInt Int32.maxValue.toInt)

/-- Reads an integer of eight bits without a sign. -/
def byte : Decoder UInt8 := map (fun n => UInt8.ofNat n.toNat) (integer 0 255)

/-- Reads a natural number of sixty-four bits. -/
def natural : Decoder Nat := map Int.toNat (integer 0 (UInt64.size - 1))

/-- Reads a number in a format; an integer is rounded at once. -/
def binary (f : Format) : Decoder (Binary f)
  | _, .number (.natural n) => .ok (.ofNat n)
  | _, .number (.negative n) => .ok (Binary.neg (.ofNat n))
  | _, .number (.double x) => .ok (x.convert f)
  | _, .number (.single x) => .ok (x.convert f)
  | _, j => .error j.mismatch

/-- Reads a value that may be `null`. -/
def option (d : Decoder α) : Decoder (Option α)
  | _, .null => .ok none
  | source, j => (d source j).map some

/-! ## Lists and tables -/

/-- Reads the items of a list. -/
def list (d : Decoder α) : Decoder (List α)
  | source, .array items flaw =>
    (items.mapM (d source)).bind fun as => (ensure flaw).map fun _ => as
  | _, j => .error j.mismatch

/-- Reads the members of a table, in the order in which they stand. -/
def entries (d : Decoder α) (source : Source) : List (Json.Name × Json) →
    Except Fault (List (String × α))
  | [] => .ok []
  | (.text name, j) :: ms =>
    (d source j).bind fun a => (entries d source ms).map ((name, a) :: ·)
  | (.unreadable, _) :: _ => .error .malformed
  | (.absent read _, _) :: _ => .error read

/-- Reads an object whose members may have any names. -/
def table (d : Decoder α) : Decoder (List (String × α))
  | source, .object members flaw =>
    (entries d source members).bind fun es => (ensure flaw).map fun _ => es
  | _, j => .error j.mismatch

/-! ## Alternatives -/

/-- One of the alternatives of a type: a value by itself, or one that is made of
    what it holds. -/
inductive Alternative (α : Type) where
  | plain (a : α)
  | holding (d : Decoder α)

/-- Reads what stands for nothing. -/
def nothing : Decoder Unit
  | _, .null => .ok ()
  | .buffered, .object [] none => .ok ()
  | _, j => .error j.mismatch

/-- Reads what an alternative holds. -/
def Alternative.content : Alternative α → Decoder α
  | plain a => map (fun _ => a) nothing
  | holding d => d

/-- The fault of a value that is neither the name of an alternative nor an object
    with one. -/
def noAlternative : Decoder α
  | .buffered, _ => .error .unfit
  | .streamed, .broken .missing => .error .truncated
  | .streamed, .broken (.quoted read _) => .error read
  | .streamed, _ => .error .malformed

/-- Reads one of the alternatives: the name of a plain one, or an object whose
    only member has the name of the alternative and what it holds. -/
def oneOf (cases : List (String × Alternative α)) : Decoder α
  | _, .string s =>
    match cases.lookup s with
    | some (.plain a) => .ok a
    | _ => .error .unfit
  | .streamed, .unreadable => .error .malformed
  | source, .object ((.text name, j) :: rest) flaw =>
    match cases.lookup name with
    | none => .error .unfit
    | some c =>
      (c.content source j).bind fun a =>
        if rest.isEmpty then (ensure flaw).map fun _ => a else .error (tooMany source)
  | _, .object ((.unreadable, _) :: _) _ => .error .malformed
  | _, .object ((.absent read _, _) :: _) _ => .error read
  | source, j => noAlternative source j

/-- Reads a value of a closed vocabulary. -/
def named [Named α] : Decoder α :=
  oneOf ((Named.all : List α).map fun a => (Named.name a, .plain a))

/-- Reads a text with a decoder.  What follows the value makes the text
    malformed. -/
def decode (d : Decoder α) (text : String) : Except Fault α :=
  (d .streamed (Json.read text).1).bind fun a =>
    if (Json.read text).2 then .error .malformed else .ok a

end Decoder

end VisualNovel
