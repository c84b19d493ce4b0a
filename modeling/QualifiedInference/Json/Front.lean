-- SUMMARY: Readers of the parts of JSON that have no parts of their own, off the front of a text.
import QualifiedInference.Json.Node
/-!
# Reading off the front of a text

The parts of JSON that have no parts of their own: blanks, words, strings and the parts of
numbers. Each reader hands back what it read and the rest of the text.
-/

namespace QualifiedInference

namespace Json

/-- Something read off the front of a text of length `n`, with the rest. -/
abbrev Front (n : Nat) (α : Type) := Except Break (α × { rest : List Char // rest.length < n })

namespace Front

/-- The same part, seen from a longer text. -/
def lengthen {m n : Nat} {α : Type} (h : m ≤ n) : Front m α → Front n α
  | .error b => .error b
  | .ok (a, ⟨rest, lt⟩) => .ok (a, ⟨rest, Nat.lt_of_lt_of_le lt h⟩)

end Front

/-- The rest of a text of length `n` after a part that is complete. -/
abbrev Rest (n : Nat) := Option { rest : List Char // rest.length < n }

def Rest.lengthen {m n : Nat} (h : m ≤ n) : Rest m → Rest n
  | none => none
  | some ⟨rest, lt⟩ => some ⟨rest, Nat.lt_of_lt_of_le lt h⟩

/-! ## Blanks and words -/

def isBlank (c : Char) : Bool := c == ' ' || c == '\n' || c == '\t' || c == '\r'

def skipBlanks (cs : List Char) : List Char := cs.dropWhile isBlank

theorem length_skipBlanks_le (cs : List Char) : (skipBlanks cs).length ≤ cs.length := by
  induction cs with
  | nil => exact Nat.le_refl _
  | cons c cs ih =>
    unfold skipBlanks at ih ⊢
    simp only [List.dropWhile_cons]
    split
    · exact Nat.le_succ_of_le ih
    · exact Nat.le_refl _

/-- The rest of the text after a word. -/
def readWord :
    (word cs : List Char) → Except Break { rest : List Char // rest.length ≤ cs.length }
  | [], cs => .ok ⟨cs, Nat.le_refl _⟩
  | _ :: _, [] => .error .unfinished
  | w :: ws, c :: cs =>
    if w = c then
      match readWord ws cs with
      | .ok ⟨rest, h⟩ => .ok ⟨rest, Nat.le_succ_of_le h⟩
      | .error b => .error b
    else .error .malformed

/-! ## Strings -/

def hexValue? (c : Char) : Option Nat :=
  if '0' ≤ c ∧ c ≤ '9' then some (c.toNat - '0'.toNat)
  else if 'a' ≤ c ∧ c ≤ 'f' then some (c.toNat - 'a'.toNat + 10)
  else if 'A' ≤ c ∧ c ≤ 'F' then some (c.toNat - 'A'.toNat + 10)
  else none

/-- The number that the first four characters write in hexadecimal. A text of fewer than four
    bytes is too short for it, whatever it holds. -/
def readHex4 (cs : List Char) : Front cs.length Nat :=
  let short := (String.ofList (cs.take 4)).utf8ByteSize < 4
  match cs with
  | a :: b :: c :: d :: rest =>
    match hexValue? a, hexValue? b, hexValue? c, hexValue? d with
    | some a, some b, some c, some d =>
      .ok (((a * 16 + b) * 16 + c) * 16 + d, ⟨rest, by simp only [List.length_cons]; omega⟩)
    | _, _, _, _ => .error .malformed
  | _ => .error (if short then .unfinished else .malformed)

/-- The second half of a surrogate pair, with its escape. -/
def readLowSurrogate (cs : List Char) : Front cs.length Nat :=
  match cs with
  | [] => .error .unfinished
  | '\\' :: [] => .error .unfinished
  | '\\' :: 'u' :: rest =>
    match (readHex4 rest).lengthen (Nat.le_add_right _ 2) with
    | .ok (n, rest) =>
      if 0xDC00 ≤ n ∧ n ≤ 0xDFFF then .ok (n - 0xDC00, rest) else .error .malformed
    | .error b => .error b
  | _ => .error .malformed

/-- The character of an escape that starts with `\u`. Halves of surrogate pairs count only as
    pairs. -/
def readUnicode (cs : List Char) : Front cs.length Char :=
  match readHex4 cs with
  | .error b => .error b
  | .ok (n, ⟨rest, h⟩) =>
    if 0xD800 ≤ n ∧ n ≤ 0xDBFF then
      match (readLowSurrogate rest).lengthen (Nat.le_of_lt h) with
      | .ok (low, rest) => .ok (.ofNat (0x10000 + (n - 0xD800) * 0x400 + low), rest)
      | .error b => .error b
    else if 0xDC00 ≤ n ∧ n ≤ 0xDFFF then .error .malformed
    else .ok (.ofNat n, ⟨rest, h⟩)

/-- The character of an escape, after its backslash. -/
def readEscape (cs : List Char) : Front cs.length Char :=
  match cs with
  | [] => .error .unfinished
  | 'u' :: rest => (readUnicode rest).lengthen (Nat.le_succ _)
  | c :: rest =>
    let plain (c : Char) : Front (rest.length + 1) Char := .ok (c, ⟨rest, Nat.lt_succ_self _⟩)
    match c with
    | '"' => plain '"'
    | '\\' => plain '\\'
    | '/' => plain '/'
    | 'b' => plain '\x08'
    | 'f' => plain '\x0c'
    | 'n' => plain '\n'
    | 'r' => plain '\r'
    | 't' => plain '\t'
    | _ => .error .malformed

/-- The characters of a string, after its opening quote. -/
def readChars (cs : List Char) : Front cs.length (List Char) :=
  match cs with
  | [] => .error .unfinished
  | '"' :: rest => .ok ([], ⟨rest, Nat.lt_succ_self _⟩)
  | '\\' :: rest =>
    match readEscape rest with
    | .error b => .error b
    | .ok (c, ⟨rest', h⟩) =>
      match (readChars rest').lengthen (Nat.le_succ_of_le (Nat.le_of_lt h)) with
      | .error b => .error b
      | .ok (s, rest'') => .ok (c :: s, rest'')
  | c :: rest =>
    if c.toNat < 0x20 then .error .malformed
    else
      match (readChars rest).lengthen (Nat.le_succ _) with
      | .error b => .error b
      | .ok (s, rest') => .ok (c :: s, rest')
termination_by cs.length

def readString (cs : List Char) : Front (cs.length + 1) String :=
  match (readChars cs).lengthen (Nat.le_succ _) with
  | .ok (s, rest) => .ok (String.ofList s, rest)
  | .error b => .error b

/-! ## Parts of numbers -/

/-- The digits at the front, as numbers, and what follows them. -/
def readDigits : List Char → List Nat × List Char
  | [] => ([], [])
  | c :: cs =>
    if c.isDigit then
      let (ds, rest) := readDigits cs
      ((c.toNat - '0'.toNat) :: ds, rest)
    else ([], c :: cs)

theorem length_readDigits_le (cs : List Char) : (readDigits cs).2.length ≤ cs.length := by
  induction cs with
  | nil => exact Nat.le_refl _
  | cons c cs ih =>
    unfold readDigits
    split
    · exact Nat.le_succ_of_le ih
    · exact Nat.le_refl _

theorem length_readDigits_lt {cs : List Char} (h : (readDigits cs).1 ≠ []) :
    (readDigits cs).2.length < cs.length := by
  cases cs with
  | nil => exact absurd rfl h
  | cons c cs =>
    unfold readDigits at h ⊢
    split
    · exact Nat.lt_succ_of_le (length_readDigits_le cs)
    · next hc => simp [hc] at h

/-- At least one digit. -/
def readDigits1 (cs : List Char) : Front cs.length (List Nat) :=
  if h : (readDigits cs).1 = [] then
    .error (if (readDigits cs).2.isEmpty then .unfinished else .malformed)
  else .ok ((readDigits cs).1, ⟨(readDigits cs).2, length_readDigits_lt h⟩)

def digitsValue (ds : List Nat) : Nat := ds.foldl (fun n d => n * 10 + d) 0

def readSign (cs : List Char) : Bool × { rest : List Char // rest.length ≤ cs.length } :=
  match cs with
  | '-' :: rest => (true, ⟨rest, Nat.le_succ _⟩)
  | cs => (false, ⟨cs, Nat.le_refl _⟩)

/-- The digits before the point. They start with a zero only if that is all. -/
def readWhole (cs : List Char) : Front cs.length (List Nat) :=
  match readDigits1 cs with
  | .ok (0 :: _ :: _, _) => .error .malformed
  | r => r

/-- A point and the digits after it, if there is a point. -/
def readFraction (cs : List Char) :
    Except Break (Option (List Nat) × { rest : List Char // rest.length ≤ cs.length }) :=
  match cs with
  | '.' :: rest =>
    match readDigits1 rest with
    | .ok (ds, ⟨rest', h⟩) => .ok (some ds, ⟨rest', Nat.le_succ_of_le (Nat.le_of_lt h)⟩)
    | .error b => .error b
  | cs => .ok (none, ⟨cs, Nat.le_refl _⟩)

def readExponentSign (cs : List Char) : Bool × { rest : List Char // rest.length ≤ cs.length } :=
  match cs with
  | '+' :: rest => (false, ⟨rest, Nat.le_succ _⟩)
  | cs => readSign cs

/-- An `e` and the power of ten after it, if there is one. -/
def readExponent (cs : List Char) :
    Except Break (Option Int × { rest : List Char // rest.length ≤ cs.length }) :=
  match cs with
  | [] => .ok (none, ⟨[], Nat.le_refl _⟩)
  | c :: rest =>
    if c = 'e' ∨ c = 'E' then
      let (negative, ⟨rest', h'⟩) := readExponentSign rest
      match readDigits1 rest' with
      | .ok (ds, ⟨rest'', h''⟩) =>
        let n : Int := digitsValue ds
        .ok (some (if negative then -n else n),
          ⟨rest'', Nat.le_succ_of_le (Nat.le_trans (Nat.le_of_lt h'') h')⟩)
      | .error b => .error b
    else .ok (none, ⟨c :: rest, Nat.le_refl _⟩)

end Json

end QualifiedInference
