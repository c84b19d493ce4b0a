-- SUMMARY: Typed readers of JSON nodes: their errors, and records laid out as objects or as arrays.
import QualifiedInference.Decimal
import QualifiedInference.Json.Node
import QualifiedInference.Text.Quoted
/-!
# Decoding nodes

What typed readers of JSON have in common. A reader walks over a node in reading order, and
its first problem is its error: a place where the text breaks off, or a value that is not what
it should be. A record is written as an object of its fields in any order or as an array of
them in their own order; `Shape.fields` lists the fields that are there either way.
-/

namespace QualifiedInference

namespace Json

inductive DecodeError where
  /-- The text breaks off. -/
  | broken (b : Break)
  | wrongType (found expected : String)
  | unknownVariant (name : String) (known : List String)
  | unknownField (name : String) (known : List String)
  | repeatedField (name : String)
  | missingField (name : String)
  /-- An array for a record ends before a field that must be there. -/
  | tooShort (length : Nat) (expected : String)
deriving DecidableEq

/-- Names in backticks, as alternatives. -/
def alternatives (names : List String) : String :=
  match names.map fun name => "`" ++ name ++ "`" with
  | [a, b] => a ++ " or " ++ b
  | [a] => a
  | names => "one of " ++ ", ".intercalate names

/-- The mismatch in words; a break of the text is told by its kind alone. -/
def DecodeError.message : DecodeError → String
  | broken .malformed => "syntax"
  | broken .unfinished => "eof"
  | wrongType found expected => "data: invalid type: " ++ found ++ ", expected " ++ expected
  | unknownVariant name known =>
    "data: unknown variant `" ++ name ++ "`, expected " ++ alternatives known
  | unknownField name known =>
    "data: unknown field `" ++ name ++ "`, expected " ++ alternatives known
  | repeatedField name => "data: duplicate field `" ++ name ++ "`"
  | missingField name => "data: missing field `" ++ name ++ "`"
  | tooShort length expected =>
    "data: invalid length " ++ toString length ++ ", expected " ++ expected

/-! ## Values in words -/

def zeros (n : Int) : String := String.ofList (List.replicate n.toNat '0')

/-- A whole number with its sign. -/
def describeSigned (n : Int) : String := (if 0 ≤ n then "+" else "-") ++ toString n.natAbs

/-- A positive decimal in words: positional with at least one digit on each side of the point
    from `10 ^ (-5)` up to `10 ^ 16`, else one digit before the point and a power of ten with
    its sign. -/
def describeDecimal (d : Decimal) : String :=
  let digits := toString d.digits
  let point : Int := digits.length + d.exponent
  if 0 ≤ d.exponent ∧ point ≤ 16 then digits ++ zeros d.exponent ++ ".0"
  else if 0 < point ∧ point ≤ 16 then
    String.ofList (digits.toList.take point.toNat) ++ "." ++
      String.ofList (digits.toList.drop point.toNat)
  else if -5 < point ∧ point ≤ 0 then "0." ++ zeros (-point) ++ digits
  else
    let fraction := digits.toList.drop 1
    String.ofList (digits.toList.take 1) ++
      (if fraction.isEmpty then "" else "." ++ String.ofList fraction) ++
      "e" ++ describeSigned (point - 1)

def describeFloat (x : Float) : String :=
  let bits := x.toBits.toNat
  let sign := if Nat.pow 2 63 ≤ bits then "-" else ""
  let size := bits % Nat.pow 2 63
  sign ++ if size = 0 then "0.0" else describeDecimal (.shortest size)

def Scalar.describe : Scalar → String
  | null => "null"
  | bool b => "boolean `" ++ (if b then "true" else "false") ++ "`"
  | integer n => "integer `" ++ toString n ++ "`"
  | float x => "floating point `" ++ describeFloat x ++ "`"

namespace Node

/-- The kind of a node in words. Arrays and objects are not looked into. -/
def describe : Node → Except Break String
  | absent b => .error b
  | scalar s => s.map Scalar.describe
  | string s => s.map fun s => "string " ++ Text.quoted s
  | array _ => .ok "sequence"
  | object _ => .ok "map"

/-- The error of a reader that wants something else. -/
def reject (n : Node) (expected : String) : DecodeError :=
  match n.describe with
  | .error b => .broken b
  | .ok found => .wrongType found expected

/-! ## Single values -/

def toString : Node → Except DecodeError String
  | string (.ok s) => .ok s
  | n => .error (n.reject "a string")

/-- The name of a member. Whatever is no string breaks the text off. -/
def toName : Node → Except DecodeError String
  | string (.ok s) => .ok s
  | string (.error b) => .error (.broken b)
  | absent b => .error (.broken b)
  | _ => .error (.broken .malformed)

def toUnit (n : Node) : Except DecodeError Unit :=
  match n with
  | .scalar (.ok .null) => .ok ()
  | n => .error (n.reject "unit")

def toOption {α : Type} (decode : Node → Except DecodeError α) (n : Node) :
    Except DecodeError (Option α) :=
  match n with
  | .scalar (.ok .null) => .ok none
  | n => (decode n).map some

end Node

/-- The items before the end of an array or its break. -/
def Items.nodes : Items → List Node
  | closed => []
  | broken _ => []
  | item v rest => v :: rest.nodes

def Items.break? : Items → Option Break
  | closed => none
  | broken b => some b
  | item _ rest => rest.break?

theorem Items.sizeOf_lt_of_mem_nodes {v : Node} {items : Items} (h : v ∈ items.nodes) :
    sizeOf v < sizeOf items := by
  induction items using Items.rec (motive_1 := fun _ => True) (motive_3 := fun _ => True) with
  | closed => cases h
  | broken b => cases h
  | item u rest _ ih =>
    simp only [Items.item.sizeOf_spec]
    cases List.mem_cons.1 h with
    | inl h =>
      subst h
      omega
    | inr h =>
      have := ih h
      omega
  | _ => trivial

/-- Decodes the items one after the other; `decode` may use that they are smaller. -/
def Items.decode {α : Type} (items : Items)
    (decode : (v : Node) → v ∈ items.nodes → Except DecodeError α) :
    Except DecodeError (List α) := do
  let values ← items.nodes.attach.mapM fun v => decode v.1 v.2
  match items.break? with
  | some b => .error (.broken b)
  | none => .ok values

def Node.toList {α : Type} (decode : Node → Except DecodeError α) (n : Node) :
    Except DecodeError (List α) :=
  match n with
  | .array items => items.decode fun v _ => decode v
  | n => .error (n.reject "a sequence")

/-! ## Records -/

/-- The name of a record and its fields in order. -/
structure Shape where
  name : String
  fields : List String

/-- Fields in reading order, each once. -/
structure Fields where
  entries : List (String × Node)
  /-- The problem after the last of them. -/
  problem? : Option DecodeError
  /-- The error for a field that must be there and is not. -/
  missing : String → DecodeError

namespace Shape

def describe (s : Shape) : String := "struct " ++ s.name

def describeLength (s : Shape) : String :=
  s.describe ++ " with " ++ ToString.toString s.fields.length ++ " elements"

/-- The items of an array as the fields of a record. -/
def byPosition : List String → Items → List (String × Node) × Option DecodeError
  | _, .closed => ([], none)
  | _, .broken b => ([], some (.broken b))
  | [], .item _ _ => ([], some (.broken .malformed))
  | name :: names, .item v rest =>
    let (entries, problem?) := byPosition names rest
    ((name, v) :: entries, problem?)

/-- The members of an object as fields of a record, those in `seen` having come before. -/
def byName (known seen : List String) : Members → List (String × Node) × Option DecodeError
  | .closed => ([], none)
  | .broken b => ([], some (.broken b))
  | .member key v rest =>
    match key.toName with
    | .error e => ([], some e)
    | .ok name =>
      if name ∉ known then ([], some (.unknownField name known))
      else if name ∈ seen then ([], some (.repeatedField name))
      else
        let (entries, problem?) := byName known (name :: seen) rest
        ((name, v) :: entries, problem?)

def fieldsOf (s : Shape) : Node → Except DecodeError Fields
  | .array items =>
    let (entries, problem?) := byPosition s.fields items
    .ok ⟨entries, problem?, fun name => .tooShort (s.fields.idxOf name) s.describeLength⟩
  | .object members =>
    let (entries, problem?) := byName s.fields [] members
    .ok ⟨entries, problem?, .missingField⟩
  | n => .error (n.reject s.describe)

theorem sizeOf_lt_of_mem_byPosition {names : List String} {items : Items} {e : String × Node}
    (h : e ∈ (byPosition names items).1) : sizeOf e.2 < sizeOf items := by
  induction names generalizing items with
  | nil => cases items <;> cases h
  | cons name names ih =>
    cases items with
    | closed => cases h
    | broken b => cases h
    | item v rest =>
      simp only [Items.item.sizeOf_spec]
      cases List.mem_cons.1 h with
      | inl h =>
        subst h
        dsimp only
        omega
      | inr h =>
        have := ih h
        omega

theorem sizeOf_lt_of_mem_byName {known seen : List String} {members : Members}
    {e : String × Node} (h : e ∈ (byName known seen members).1) :
    sizeOf e.2 < sizeOf members := by
  fun_induction byName known seen members with
  | case6 seen key v rest name _ _ _ entries problem? hrest ih =>
    simp only [Members.member.sizeOf_spec]
    cases List.mem_cons.1 h with
    | inl h =>
      subst h
      dsimp only
      omega
    | inr h =>
      have := ih (by rw [hrest]; exact h)
      omega
  | _ => cases h

theorem sizeOf_lt_of_mem_fieldsOf {s : Shape} {n : Node} {fs : Fields} {e : String × Node}
    (hfs : s.fieldsOf n = .ok fs) (h : e ∈ fs.entries) : sizeOf e.2 < sizeOf n := by
  cases n with
  | array items =>
    cases hfs
    simp only [Node.array.sizeOf_spec]
    exact Nat.lt_add_left 1 (sizeOf_lt_of_mem_byPosition h)
  | object members =>
    cases hfs
    simp only [Node.object.sizeOf_spec]
    exact Nat.lt_add_left 1 (sizeOf_lt_of_mem_byName h)
  | _ => cases hfs

end Shape

namespace Fields

/-- Decodes the fields in reading order into a draft of the record. -/
def decode {δ : Type} (fs : Fields) (draft : δ)
    (set : δ → (e : String × Node) → e ∈ fs.entries → Except DecodeError δ) :
    Except DecodeError δ := do
  let draft ← fs.entries.attach.foldlM (fun d e => set d e.1 e.2) draft
  match fs.problem? with
  | some e => .error e
  | none => .ok draft

def require {α : Type} (fs : Fields) (name : String) : Option α → Except DecodeError α
  | some a => .ok a
  | none => .error (fs.missing name)

end Fields

end Json

end QualifiedInference
