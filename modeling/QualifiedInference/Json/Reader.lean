-- SUMMARY: The JSON reader, with a limit on the depth of nesting.
import QualifiedInference.Json.Numeral
/-!
# Reading JSON texts

`Document.ofText` reads a text into the node that it shows. Arrays and objects may be nested
127 deep; the contents of one that is nested deeper are taken as malformed.
-/

namespace QualifiedInference

namespace Json

/-- How deep arrays and objects may be nested. -/
def maxDepth : Nat := 127

/-- A leaf as a node, together with the rest if it is complete. -/
def leaf {n : Nat} {α : Type} (toNode : Except Break α → Node) : Front n α → Node × Rest n
  | .ok (a, rest) => (toNode (.ok a), some rest)
  | .error b => (toNode (.error b), none)

/-- A word that starts with the character before `cs`. -/
def readScalar (s : Scalar) (word cs : List Char) : Front (cs.length + 1) Scalar :=
  match readWord word cs with
  | .ok ⟨rest, h⟩ => .ok (s, ⟨rest, Nat.lt_succ_of_le h⟩)
  | .error b => .error b

/-- A value without parts that starts with the character before `cs`. -/
def readLeaf (c : Char) (cs : List Char) : Node × Rest (cs.length + 1) :=
  match c with
  | '"' => leaf .string (readString cs)
  | 'n' => leaf .scalar (readScalar .null ['u', 'l', 'l'] cs)
  | 't' => leaf .scalar (readScalar (.bool true) ['r', 'u', 'e'] cs)
  | 'f' => leaf .scalar (readScalar (.bool false) ['a', 'l', 's', 'e'] cs)
  | c =>
    if c = '-' ∨ c.isDigit then leaf .scalar (readNumber (c :: cs))
    else (.absent .malformed, none)

mutual

/-- The value at the front of a text, with room for `room` levels of nesting. -/
def readValue (room : Nat) (cs : List Char) : Node × Rest cs.length :=
  match hcs : skipBlanks cs with
  | [] => (.absent .unfinished, none)
  | c :: rest =>
    have hlt : rest.length < cs.length :=
      Nat.lt_of_lt_of_le (by simp [hcs]) (length_skipBlanks_le cs)
    let here {n : Nat} (h : n ≤ rest.length + 1) (r : Node × Rest n) : Node × Rest cs.length :=
      (r.1, r.2.lengthen (Nat.le_trans h hlt))
    if c = '[' then
      if room = 0 then (.array (.broken .malformed), none)
      else
        let r := readItems (room - 1) rest
        here (Nat.le_succ _) (.array r.1, r.2)
    else if c = '\x7b' then
      if room = 0 then (.object (.broken .malformed), none)
      else
        let r := readMembers (room - 1) rest
        here (Nat.le_succ _) (.object r.1, r.2)
    else here (Nat.le_refl _) (readLeaf c rest)
termination_by (cs.length, 0)

/-- The items of an array, after its opening bracket. -/
def readItems (room : Nat) (cs : List Char) : Items × Rest cs.length :=
  match hcs : skipBlanks cs with
  | [] => (.broken .unfinished, none)
  | ']' :: rest =>
    (.closed, some ⟨rest, Nat.lt_of_lt_of_le (by simp [hcs]) (length_skipBlanks_le cs)⟩)
  | _ => readItem room cs
termination_by (cs.length, 2)

/-- One item, and all that follow it. -/
def readItem (room : Nat) (cs : List Char) : Items × Rest cs.length :=
  match readValue room cs with
  | (value, none) => (.item value (.broken .malformed), none)
  | (value, some ⟨rest, h⟩) =>
    let r := readMoreItems room rest
    (.item value r.1, r.2.lengthen (Nat.le_of_lt h))
termination_by (cs.length, 1)

/-- What follows an item. A comma promises another one. -/
def readMoreItems (room : Nat) (cs : List Char) : Items × Rest cs.length :=
  match hcs : skipBlanks cs with
  | [] => (.broken .unfinished, none)
  | c :: rest =>
    have hlt : rest.length < cs.length :=
      Nat.lt_of_lt_of_le (by simp [hcs]) (length_skipBlanks_le cs)
    if c = ']' then (.closed, some ⟨rest, hlt⟩)
    else if c = ',' then
      let r := readItem room rest
      (r.1, r.2.lengthen (Nat.le_of_lt hlt))
    else (.broken .malformed, none)
termination_by (cs.length, 0)

/-- The members of an object, after its opening brace. -/
def readMembers (room : Nat) (cs : List Char) : Members × Rest cs.length :=
  match hcs : skipBlanks cs with
  | [] => (.broken .unfinished, none)
  | '\x7d' :: rest =>
    (.closed, some ⟨rest, Nat.lt_of_lt_of_le (by simp [hcs]) (length_skipBlanks_le cs)⟩)
  | _ => readMember room cs
termination_by (cs.length, 2)

/-- One member, and all that follow it. A name that is no string ends the reading. -/
def readMember (room : Nat) (cs : List Char) : Members × Rest cs.length :=
  match readValue room cs with
  | (.string (.ok name), some ⟨rest, h⟩) =>
    match readNamed room rest with
    | (value, none) => (.member (.string (.ok name)) value (.broken .malformed), none)
    | (value, some ⟨rest', h'⟩) =>
      let r := readMoreMembers room rest'
      (.member (.string (.ok name)) value r.1, r.2.lengthen (Nat.le_of_lt (Nat.lt_trans h' h)))
  | (name, _) => (.member name (.absent .malformed) (.broken .malformed), none)
termination_by (cs.length, 1)

/-- The value after a name and its colon. -/
def readNamed (room : Nat) (cs : List Char) : Node × Rest cs.length :=
  match hcs : skipBlanks cs with
  | [] => (.absent .unfinished, none)
  | ':' :: rest =>
    have hlt : rest.length < cs.length :=
      Nat.lt_of_lt_of_le (by simp [hcs]) (length_skipBlanks_le cs)
    let r := readValue room rest
    (r.1, r.2.lengthen (Nat.le_of_lt hlt))
  | _ => (.absent .malformed, none)
termination_by (cs.length, 0)

/-- What follows a member. A comma promises another one. -/
def readMoreMembers (room : Nat) (cs : List Char) : Members × Rest cs.length :=
  match hcs : skipBlanks cs with
  | [] => (.broken .unfinished, none)
  | c :: rest =>
    have hlt : rest.length < cs.length :=
      Nat.lt_of_lt_of_le (by simp [hcs]) (length_skipBlanks_le cs)
    if c = '\x7d' then (.closed, some ⟨rest, hlt⟩)
    else if c = ',' then
      let r := readMember room rest
      (r.1, r.2.lengthen (Nat.le_of_lt hlt))
    else (.broken .malformed, none)
termination_by (cs.length, 0)

end

def Document.ofText (text : String) : Document :=
  match readValue maxDepth text.toList with
  | (root, none) => ⟨root, false⟩
  | (root, some ⟨rest, _⟩) => ⟨root, !(skipBlanks rest).isEmpty⟩

end Json

end QualifiedInference
