-- SUMMARY: JSON as far as a text shows it, with a leaf for the place where it breaks off.
/-!
# What a JSON text shows

A text is read from the left, up to the first place where it is no JSON. A `Node` holds what
has been seen by then: an array or object that breaks off keeps the items before the break,
and the break is a leaf in the place where it was met. Whoever walks over a node in reading
order meets what the text holds and where it breaks off in the order of the text.
-/

namespace QualifiedInference

namespace Json

/-- Why reading stops. -/
inductive Break where
  /-- A character that cannot stand where it does. -/
  | malformed
  /-- The end of the text, before the value is complete. -/
  | unfinished
deriving DecidableEq

/-- A value without parts that is no string. A number is an integer if it is written as one
    and fits into 64 bits. -/
inductive Scalar where
  | null
  | bool (b : Bool)
  | integer (n : Int)
  | float (x : Float)

mutual

inductive Node where
  /-- No value begins here. -/
  | absent (b : Break)
  | scalar (s : Except Break Scalar)
  | string (s : Except Break String)
  | array (items : Items)
  | object (members : Members)

inductive Items where
  | closed
  | broken (b : Break)
  | item (value : Node) (rest : Items)

inductive Members where
  | closed
  | broken (b : Break)
  /-- In a text that is JSON each name is a string. -/
  | member (name value : Node) (rest : Members)

end

/-- A whole text: its first value, and whether anything but blanks follows it. -/
structure Document where
  root : Node
  trailing : Bool

end Json

end QualifiedInference
