-- SUMMARY: Quoting and escaping of text in messages.
import QualifiedInference.Text.Invisible
/-!
# Quoted text

A text between quotes, for messages: whatever cannot be seen for what it is, is escaped.
-/

namespace QualifiedInference

namespace Text

def hexDigits (n : Nat) : List Char := Nat.toDigits 16 n

def escape (c : Char) : List Char :=
  match c with
  | '"' => ['\\', '"']
  | '\\' => ['\\', '\\']
  | '\n' => ['\\', 'n']
  | '\r' => ['\\', 'r']
  | '\t' => ['\\', 't']
  | '\x00' => ['\\', '0']
  | c => if isInvisible c then ['\\', 'u', '\x7b'] ++ hexDigits c.toNat ++ ['\x7d'] else [c]

def quoted (s : String) : String := "\"" ++ String.ofList (s.toList.flatMap escape) ++ "\""

end Text

end QualifiedInference
