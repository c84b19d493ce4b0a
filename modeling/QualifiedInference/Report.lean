-- SUMMARY: Reports on the outcome of an inference, as text and as JSON.
import QualifiedInference.Hierarchies
import QualifiedInference.Inference
import QualifiedInference.Json.Value
import QualifiedInference.TargetNames
/-!
# Reports

The outcome of an inference in words: a line for each target, the strategies that ran, and
the targets left without a final type. A report is written as text or as JSON.
-/

namespace QualifiedInference

/-- What a report says about one target. -/
inductive Finding where
  | type (text : String)
  | alias (target : String) (qualifiers : List String)
  | unresolved

structure Report where
  entries : List (String × Finding)
  unresolved : List String
  /-- The names of the strategies that ran. -/
  ran : List String
  complete : Bool

inductive ReportFormat where
  | text
  | json
deriving DecidableEq

def Qualifiers.names (qs : Qualifiers) (hs : Hierarchies) : List String :=
  qs.toList.map hs.nameOf

/-- Qualifier names as they stand before a type. -/
def annotations (names : List String) : String :=
  String.join (names.map fun name => "@" ++ name ++ " ")

mutual

/-- A type in words, `@Q1 @Q2 Name<Arg, ...>`. -/
def Ty.describe (hs : Hierarchies) : Ty → String
  | .null qs => annotations (qs.names hs) ++ "null"
  | .named name args qs =>
    annotations (qs.names hs) ++ name ++
      if args.isEmpty then "" else "<" ++ ", ".intercalate (Ty.describeAll hs args) ++ ">"

def Ty.describeAll (hs : Hierarchies) : List Ty → List String
  | [] => []
  | ty :: rest => ty.describe hs :: Ty.describeAll hs rest

end

def Finding.toJson : Finding → Json.Value
  | .type text => .string text
  | .alias target qs => .object [("alias", .string target), ("qualifiers", .strings qs)]
  | .unresolved => .null

namespace Report

def finding (names : TargetNames) (hs : Hierarchies) : Option Answer → Finding
  | none => .unresolved
  | some (.type ty) => .type (ty.describe hs)
  | some (.alias pointee extra) => .alias (names.name pointee) (extra.names hs)

def ofOutcome (o : Outcome) (names : TargetNames) (hs : Hierarchies) : Report where
  entries := names.targets.map fun t => (names.name t, finding names hs (o.answers.get? t))
  unresolved := o.remaining.map names.name
  ran := o.ran
  complete := o.complete

/-! ## Text -/

def line : String × Finding → String
  | (target, .type text) => target ++ " = " ++ text ++ "\n"
  | (target, .alias other qs) =>
    target ++ " -> " ++ annotations qs ++ other ++ "\n"
  | (target, .unresolved) => target ++ " = ?\n"

def toText (r : Report) : String :=
  String.join (r.entries.map line) ++ "strategies: " ++ ", ".intercalate r.ran ++ "\n" ++
    if r.unresolved.isEmpty then "" else "unresolved: " ++ ", ".intercalate r.unresolved ++ "\n"

/-! ## JSON -/

/-- A target that is named twice keeps its first place and its last value. -/
def toJson (r : Report) : Json.Value :=
  .object [
    ("complete", .bool r.complete),
    ("strategies", .strings r.ran),
    ("targets",
      .object (OrderedMap.ofList (r.entries.map fun e => (e.1, e.2.toJson))).entries),
    ("unresolved", .strings r.unresolved)]

def write (r : Report) : ReportFormat → String
  | .text => r.toText
  | .json => r.toJson.layout 0 ++ "\n"

end Report

end QualifiedInference
