-- SUMMARY: JSON values and their layout over several lines.
import QualifiedInference.OrderedMap
/-!
# JSON values and their layout

The values that reports are made of, and their layout over several lines: an indent of two
blanks a level, one element or member a line, empty collections on one line.
-/

namespace QualifiedInference

namespace Json

inductive Value where
  | null
  | bool (b : Bool)
  | string (s : String)
  | array (items : List Value)
  /-- The members in order, with pairwise different names where a reader is to see all of
      them. -/
  | object (members : List (String × Value))

/-- The last four hexadecimal digits of a number, in lower case. -/
def hex4 (n : Nat) : List Char :=
  [n / 4096 % 16, n / 256 % 16, n / 16 % 16, n % 16].map Nat.digitChar

def escape (c : Char) : List Char :=
  match c with
  | '"' => ['\\', '"']
  | '\\' => ['\\', '\\']
  | '\n' => ['\\', 'n']
  | '\r' => ['\\', 'r']
  | '\t' => ['\\', 't']
  | '\x08' => ['\\', 'b']
  | '\x0c' => ['\\', 'f']
  | c => if c.toNat < 32 then ['\\', 'u'] ++ hex4 c.toNat else [c]

/-- A string in quotes. Control characters, quotes and backslashes are escaped, all other
    characters stand for themselves. -/
def quote (s : String) : String := "\"" ++ String.ofList (s.toList.flatMap escape) ++ "\""

/-- The start of a line at a level of nesting. -/
def newline (level : Nat) : String := "\n" ++ String.ofList (List.replicate (2 * level) ' ')

/-- Lays out the already written items of a collection, or `empty` if there are none. -/
def block (opening closing : String) (level : Nat) (items : List String) : String :=
  if items.isEmpty then opening ++ closing
  else
    opening ++ newline (level + 1) ++ ("," ++ newline (level + 1)).intercalate items ++
      newline level ++ closing

namespace Value

def strings (ss : List String) : Value := .array (ss.map .string)

mutual

def layout (level : Nat) : Value → String
  | .null => "null"
  | .bool b => if b then "true" else "false"
  | .string s => quote s
  | .array items => block "[" "]" level (layoutItems (level + 1) items)
  | .object members => block "\x7b" "\x7d" level (layoutMembers (level + 1) members)

def layoutItems (level : Nat) : List Value → List String
  | [] => []
  | v :: rest => v.layout level :: layoutItems level rest

def layoutMembers (level : Nat) : List (String × Value) → List String
  | [] => []
  | (name, v) :: rest => (quote name ++ ": " ++ v.layout level) :: layoutMembers level rest

end

end Value

end Json

end QualifiedInference
