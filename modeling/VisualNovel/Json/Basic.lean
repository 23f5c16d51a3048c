/-
  JSON documents as they are read.  A text that goes wrong still yields a
  document: its last part is a *break*, which records what a reader reports that
  gets there.  So the first fault in document order decides, whether it lies in
  the text or in what the text says.

  * `Fault` is the kind of a fault, `Json` a document;
  * `Json.mismatch` is what a reader reports of a value of a wrong type;
  * `Json.passing?` and `Json.reading?` are the first faults met by a reader that
    passes over a value and by one that needs all of it.
-/
import VisualNovel.Number.Format

namespace VisualNovel

namespace Json

/-- What is wrong with a document: its text is no JSON, its text ends too early,
    or it is JSON that does not say what was asked for. -/
inductive Fault where
  | malformed
  | truncated
  | unfit
  deriving DecidableEq, Repr

/-- A number as written: an integer if it is one and small enough. -/
inductive Number where
  | natural (n : Nat)
  /-- The integer `-n`, for a positive `n`. -/
  | negative (n : Nat)
  | double (x : Binary64)
  | single (x : Binary32)
  deriving DecidableEq

/-- What stands where a value should be and is none, with the faults reported by
    a reader and by one that passes over. -/
inductive Break where
  /-- The text ends. -/
  | missing
  /-- A string that goes wrong. -/
  | quoted (read passed : Fault)
  | bare (read passed : Fault)
  deriving DecidableEq

def Break.read : Break → Fault
  | missing => .truncated
  | quoted r _ | bare r _ => r

def Break.passed : Break → Fault
  | missing => .truncated
  | quoted _ p | bare _ p => p

/-- The name of a member. -/
inductive Name where
  | text (s : String)
  /-- A string that denotes no text. -/
  | unreadable
  /-- No name at all: what is reported where the name is read, and where the member
      is passed over. -/
  | absent (read passed : Fault)
  deriving DecidableEq

end Json

/-- A document.  A list or an object whose text does not end properly has the
    fault of its end as a flaw. -/
inductive Json where
  | null
  | boolean (b : Bool)
  | number (n : Json.Number)
  | string (s : String)
  /-- A string or a number in good form that denotes nothing. -/
  | unreadable
  /-- A list or an object nested too deeply to be read. -/
  | tooDeep (inner : Json)
  | array (items : List Json) (flaw : Option Json.Fault)
  | object (members : List (Json.Name × Json)) (flaw : Option Json.Fault)
  | broken (b : Json.Break)

namespace Json

/-- A well-formed list. -/
def list (items : List Json) : Json := .array items none

/-- A well-formed object. -/
def record (members : List (String × Json)) : Json :=
  .object (members.map fun m => (.text m.1, m.2)) none

/-- A number as a value; the numbers without a finite value have no form. -/
def ofDouble (x : Binary64) : Json := if x.isFinite then .number (.double x) else .null

/-- A number of thirty-two bits as a value. -/
def ofSingle (x : Binary32) : Json := if x.isFinite then .number (.single x) else .null

/-- An integer as a value. -/
def ofInt : Int → Json
  | .ofNat n => .number (.natural n)
  | .negSucc n => .number (.negative (n + 1))

/-- The fault of finding this value where one of another type is needed. -/
def mismatch : Json → Fault
  | .unreadable => .malformed
  | .broken b => b.read
  | _ => .unfit

mutual

/-- The first fault that a reader meets who passes over a value. -/
def passing? : Json → Option Fault
  | .broken b => some b.passed
  | .tooDeep j => passing? j
  | .array items flaw => (passingItems? items).or flaw
  | .object members flaw => (passingMembers? members).or flaw
  | _ => none

def passingItems? : List Json → Option Fault
  | [] => none
  | j :: js => (passing? j).or (passingItems? js)

def passingMembers? : List (Name × Json) → Option Fault
  | [] => none
  | (.absent _ passed, _) :: _ => some passed
  | (_, j) :: ms => (passing? j).or (passingMembers? ms)

end

mutual

/-- The first fault that a reader meets who needs all of a value. -/
def reading? : Json → Option Fault
  | .unreadable | .tooDeep _ => some .malformed
  | .broken b => some b.read
  | .array items flaw => (readingItems? items).or flaw
  | .object members flaw => (readingMembers? members).or flaw
  | _ => none

def readingItems? : List Json → Option Fault
  | [] => none
  | j :: js => (reading? j).or (readingItems? js)

def readingMembers? : List (Name × Json) → Option Fault
  | [] => none
  | (.absent read _, _) :: _ => some read
  | (.unreadable, _) :: _ => some .malformed
  | (.text _, j) :: ms => (reading? j).or (readingMembers? ms)

end

end Json

end VisualNovel
