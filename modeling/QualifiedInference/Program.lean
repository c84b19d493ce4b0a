-- SUMMARY: What a run of the program writes and the status with which it ends.
import QualifiedInference.CommandLine
import QualifiedInference.Run
import QualifiedInference.Scenario.Reader
/-!
# The program

What a run of the program writes and how it ends, given its arguments and the contents of the
file that they name. A run ends with 0 if every target has a final type, with 1 if some target
has none or there is no report, and with 2 if the arguments are wrong.
-/

namespace QualifiedInference

/-- Why a file has no text to read. -/
inductive FileError where
  | notFound
  | isADirectory
  | notADirectory
  /-- The contents are no UTF-8. -/
  | invalidData
  | other
deriving DecidableEq

def FileError.message : FileError → String
  | notFound => "io NotFound"
  | isADirectory => "io IsADirectory"
  | notADirectory => "io NotADirectory"
  | invalidData => "io InvalidData"
  | other => "io Other"

inductive LoadError where
  | file (path : String) (e : FileError)
  | json (path : String) (e : Json.DecodeError)
deriving DecidableEq

def parseFailure (e : Json.DecodeError) : String :=
  "failed to parse scenario JSON: " ++ e.message

def LoadError.message : LoadError → String
  | file path e => "failed to read scenario: " ++ path ++ ": " ++ e.message
  | json path e => "invalid scenario: " ++ path ++ ": " ++ parseFailure e

/-- Reads the scenario in the file at `path` with the given contents. -/
def Scenario.load (path : String) (contents : Except FileError ByteArray) :
    Except LoadError Scenario := do
  let bytes ← contents.mapError (.file path)
  match String.fromUTF8? bytes with
  | none => throw (.file path .invalidData)
  | some text => (Scenario.parse text).mapError (.json path)

/-- The end of a run. -/
structure Exit where
  code : UInt32
  output : String
  /-- What is said beside the output. -/
  complaint? : Option String

namespace Program

def complain (message : String) : Exit := ⟨1, "", some message⟩

/-- The run of a command line on the contents of its file. -/
def run (c : CommandLine) (contents : Except FileError ByteArray) : Exit :=
  match Scenario.load c.scenario contents with
  | .error e => complain e.message
  | .ok s =>
    match s.run c.strategies with
    | .error (.invalid e) => complain e.message
    | .error (.fault f) => complain f.message
    | .ok report => ⟨if report.complete then 0 else 1, report.write c.format, none⟩

end Program

end QualifiedInference
