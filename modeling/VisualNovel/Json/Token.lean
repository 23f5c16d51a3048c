/-
  The tokens of JSON texts.

  * `scanText` reads a string after its opening quote, `scanNumber` a number and
    `scanWord` one of the words `null`, `true` and `false`;
  * `tokens` cuts a text into tokens, up to the first that goes wrong.
-/
import VisualNovel.Json.Number
import VisualNovel.Text.Hex

namespace VisualNovel.Json

/-- A string as it stands in a text. -/
inductive Quoted where
  | whole (s : String)
  /-- A string in good form with half of a surrogate pair. -/
  | unpaired
  | cut (read passed : Fault)
  deriving DecidableEq

/-- A token; `scalar` is a number, a word or a break. -/
inductive Token where
  | openList
  | closeList
  | openObject
  | closeObject
  | comma
  | colon
  | scalar (j : Json)
  | quoted (q : Quoted)

/-! ## Strings -/

/-- What follows a backslash. -/
inductive Escape where
  | char (c : Char) (rest : List Char)
  | unpaired (rest : List Char)
  | fails (f : Fault)

/-- The number of four hexadecimal digits.  If fewer than four bytes are left the
    text counts as cut, whatever they are. -/
def fourDigits : List Char → Except Fault (Nat × List Char)
  | a :: b :: c :: d :: rest =>
    match Hex.read? [a, b, c, d] with
    | some n => .ok (n, rest)
    | none => .error .malformed
  | cs => .error (if (cs.map Char.utf8Size).foldr (· + ·) 0 < 4 then .truncated else .malformed)

def isLeading (n : Nat) : Bool := 0xD800 ≤ n && n ≤ 0xDBFF

def isTrailing (n : Nat) : Bool := 0xDC00 ≤ n && n ≤ 0xDFFF

/-- Looks for the second half of a surrogate pair. -/
def secondHalf (n : Nat) : List Char → Escape
  | '\\' :: 'u' :: rest =>
    match fourDigits rest with
    | .error f => .fails f
    | .ok (k, rest') =>
      if isTrailing k then
        .char (Char.ofNat (0x10000 + (n - 0xD800) * 0x400 + (k - 0xDC00))) rest'
      else .unpaired rest'
  | [] | ['\\'] => .fails .truncated
  | rest => .unpaired rest

/-- Reads what follows a backslash and a `u`. -/
def unicode (cs : List Char) : Escape :=
  match fourDigits cs with
  | .error f => .fails f
  | .ok (n, rest) =>
    if isTrailing n then .unpaired rest
    else if isLeading n then secondHalf n rest
    else .char (Char.ofNat n) rest

/-- Reads what follows a backslash. -/
def escape : List Char → Escape
  | [] => .fails .truncated
  | '"' :: rest => .char '"' rest
  | '\\' :: rest => .char '\\' rest
  | '/' :: rest => .char '/' rest
  | 'b' :: rest => .char '\x08' rest
  | 'f' :: rest => .char '\x0c' rest
  | 'n' :: rest => .char '\n' rest
  | 'r' :: rest => .char '\r' rest
  | 't' :: rest => .char '\t' rest
  | 'u' :: rest => unicode rest
  | _ :: _ => .fails .malformed

/-- What is left after an escape. -/
def Escape.rest : Escape → List Char
  | char _ rest | unpaired rest => rest
  | fails _ => []

theorem length_fourDigits {cs rest : List Char} {n : Nat} (h : fourDigits cs = .ok (n, rest)) :
    rest.length < cs.length := by
  unfold fourDigits at h
  split at h
  · split at h
    · simp only [Except.ok.injEq, Prod.mk.injEq] at h
      simp only [List.length_cons, ← h.2]
      omega
    · simp at h
  · simp at h

theorem length_secondHalf (n : Nat) (cs : List Char) :
    (secondHalf n cs).rest.length ≤ cs.length := by
  unfold secondHalf
  split
  · split
    · simp [Escape.rest]
    · rename_i h
      have := length_fourDigits h
      split <;> simp only [Escape.rest, List.length_cons] <;> omega
  · simp [Escape.rest]
  · simp [Escape.rest]
  · simp [Escape.rest]

theorem length_unicode (cs : List Char) : (unicode cs).rest.length ≤ cs.length := by
  unfold unicode
  split
  · simp [Escape.rest]
  · rename_i n rest h
    have hlt := length_fourDigits h
    split
    · exact Nat.le_of_lt hlt
    · split
      · exact Nat.le_trans (length_secondHalf n rest) (Nat.le_of_lt hlt)
      · exact Nat.le_of_lt hlt

theorem length_escape {cs : List Char} {e : Escape} (h : escape cs = e) :
    e.rest.length ≤ cs.length := by
  subst h
  unfold escape
  split
  case h_10 rest => exact Nat.le_succ_of_le (length_unicode rest)
  all_goals simp [Escape.rest]

/-- Reads a string after its opening quote.  `read` holds the characters read so
    far, the last one first; `paired` says that all surrogates had their pair. -/
def scanText (paired : Bool) (read : List Char) (cs : List Char) : Quoted × List Char :=
  match cs with
  | [] => (.cut (if paired then .truncated else .malformed) .truncated, [])
  | c :: rest =>
    if c = '"' then
      (if paired then .whole (String.ofList read.reverse) else .unpaired, rest)
    else if c = '\\' then
      match _h : escape rest with
      | .char d rest' => scanText paired (d :: read) rest'
      | .unpaired rest' => scanText false read rest'
      | .fails f => (.cut (if paired then f else .malformed) f, [])
    else if c < ' ' then (.cut .malformed .malformed, [])
    else scanText paired (c :: read) rest
termination_by cs.length
decreasing_by
  · exact Nat.lt_succ_of_le (length_escape _h)
  · exact Nat.lt_succ_of_le (length_escape _h)
  · exact Nat.lt_succ_self _

theorem length_scanText (paired : Bool) (read cs : List Char) :
    (scanText paired read cs).2.length ≤ cs.length := by
  fun_induction scanText paired read cs with
  | case1 => exact Nat.le_refl _
  | case2 => exact Nat.le_succ _
  | case3 _ _ _ _ _ h _ ih =>
    exact Nat.le_succ_of_le (Nat.le_trans ih (length_escape h))
  | case4 _ _ _ _ h _ ih =>
    exact Nat.le_succ_of_le (Nat.le_trans ih (length_escape h))
  | case5 => exact Nat.zero_le _
  | case6 => exact Nat.zero_le _
  | case7 _ _ _ _ _ _ _ ih => exact Nat.le_succ_of_le ih

/-! ## Numbers and words -/

/-- Text that is no value, whether it is read or passed over. -/
def junk : Json := .broken (.bare .malformed .malformed)

/-- A number that lacks a digit: passing over it, an early end is no excuse. -/
def lacksDigit (rest : List Char) : Json :=
  .broken (.bare (if rest.isEmpty then .truncated else .malformed) .malformed)

/-- The value of a number literal, or that it has none. -/
def literal (l : NumberLiteral) : Json :=
  match Number.ofLiteral? l with
  | some n => .number n
  | none => .unreadable

/-- Reads the exponent of a number, if there is one. -/
def scanExponent (negative : Bool) (whole : List Char) (fraction : Option (List Char)) :
    List Char → Json × List Char
  | [] => (literal ⟨negative, whole, fraction, none⟩, [])
  | c :: rest =>
    if c = 'e' ∨ c = 'E' then
      let (down, ds) := Literal.sign rest
      let digits := ds.takeWhile isDigit
      if digits.isEmpty then (lacksDigit ds, [])
      else (literal ⟨negative, whole, fraction, some (down, digits)⟩, ds.dropWhile isDigit)
    else (literal ⟨negative, whole, fraction, none⟩, c :: rest)

/-- Reads the fraction of a number, if there is one, and its exponent. -/
def scanFraction (negative : Bool) (whole : List Char) : List Char → Json × List Char
  | '.' :: rest =>
    let digits := rest.takeWhile isDigit
    if digits.isEmpty then (lacksDigit rest, [])
    else scanExponent negative whole (some digits) (rest.dropWhile isDigit)
  | cs => scanExponent negative whole none cs

/-- Reads a number after its sign. -/
def scanNumber (negative : Bool) (cs : List Char) : Json × List Char :=
  let whole := cs.takeWhile isDigit
  match whole with
  | [] => (lacksDigit cs, [])
  | '0' :: _ :: _ => (junk, [])
  | _ => scanFraction negative whole (cs.dropWhile isDigit)

/-- Reads the remaining letters of a word. -/
def scanWord (value : Json) : List Char → List Char → Json × List Char
  | [], cs => (value, cs)
  | _ :: _, [] => (.broken (.bare .truncated .truncated), [])
  | l :: ls, c :: cs => if l = c then scanWord value ls cs else (junk, [])

theorem length_dropWhile (cs : List Char) : (cs.dropWhile isDigit).length ≤ cs.length :=
  (List.dropWhile_suffix isDigit).length_le

theorem length_sign (cs : List Char) : (Literal.sign cs).2.length ≤ cs.length := by
  unfold Literal.sign
  split <;> simp

theorem length_scanExponent (negative : Bool) (whole : List Char)
    (fraction : Option (List Char)) (cs : List Char) :
    (scanExponent negative whole fraction cs).2.length ≤ cs.length := by
  unfold scanExponent
  split
  · simp
  · rename_i c rest
    split
    · dsimp only
      split
      · simp
      · have := length_dropWhile (Literal.sign rest).2
        have := length_sign rest
        simp only [List.length_cons]
        omega
    · simp

theorem length_scanFraction (negative : Bool) (whole cs : List Char) :
    (scanFraction negative whole cs).2.length ≤ cs.length := by
  unfold scanFraction
  split
  · rename_i rest
    dsimp only
    split
    · simp
    · have := length_scanExponent negative whole (some (rest.takeWhile isDigit))
        (rest.dropWhile isDigit)
      have := length_dropWhile rest
      simp only [List.length_cons]
      omega
  · exact length_scanExponent _ _ _ _

theorem length_scanNumber (negative : Bool) (cs : List Char) :
    (scanNumber negative cs).2.length ≤ cs.length := by
  unfold scanNumber
  dsimp only
  split
  · simp
  · simp
  · exact Nat.le_trans (length_scanFraction _ _ _) (length_dropWhile cs)

theorem length_scanWord (value : Json) (ls cs : List Char) :
    (scanWord value ls cs).2.length ≤ cs.length := by
  induction ls generalizing cs with
  | nil => simp [scanWord]
  | cons l ls ih =>
    cases cs with
    | nil => simp [scanWord]
    | cons c cs =>
      simp only [scanWord]
      split
      · have := ih cs
        simp only [List.length_cons]
        omega
      · simp

/-! ## Texts -/

def isSpace (c : Char) : Bool := c = ' ' || c = '\n' || c = '\t' || c = '\r'

/-- The scalar that begins with a character. -/
def scanScalar (c : Char) (rest : List Char) : Json × List Char :=
  if c = 'n' then scanWord .null ['u', 'l', 'l'] rest
  else if c = 't' then scanWord (.boolean true) ['r', 'u', 'e'] rest
  else if c = 'f' then scanWord (.boolean false) ['a', 'l', 's', 'e'] rest
  else if c = '-' then scanNumber true rest
  else if isDigit c then
    scanNumber false (c :: rest)
  else (junk, [])

/-- The mark that a character is by itself. -/
def mark? (c : Char) : Option Token :=
  if c = '[' then some .openList
  else if c = ']' then some .closeList
  else if c = '{' then some .openObject
  else if c = '}' then some .closeObject
  else if c = ',' then some .comma
  else if c = ':' then some .colon
  else none

theorem length_scanScalar (c : Char) (rest : List Char) :
    (scanScalar c rest).2.length ≤ rest.length := by
  unfold scanScalar
  split
  · exact length_scanWord _ _ _
  split
  · exact length_scanWord _ _ _
  split
  · exact length_scanWord _ _ _
  split
  · exact length_scanNumber _ _
  split
  · rename_i hd
    unfold scanNumber
    have hd' : (c :: rest).dropWhile isDigit = rest.dropWhile isDigit := by
      rw [List.dropWhile_cons, if_pos hd]
    rw [hd']
    dsimp only
    split
    · simp
    · simp
    · exact Nat.le_trans (length_scanFraction _ _ _) (length_dropWhile rest)
  · simp

/-- Cuts a text into tokens. -/
def tokens (cs : List Char) : List Token :=
  match cs with
  | [] => []
  | c :: rest =>
    if isSpace c then tokens rest
    else match mark? c with
      | some t => t :: tokens rest
      | none =>
        if c = '"' then
          .quoted (scanText true [] rest).1 :: tokens (scanText true [] rest).2
        else .scalar (scanScalar c rest).1 :: tokens (scanScalar c rest).2
termination_by cs.length
decreasing_by
  all_goals simp only [List.length_cons]
  · omega
  · omega
  · have := length_scanText true [] rest; omega
  · have := length_scanScalar c rest; omega

end VisualNovel.Json
