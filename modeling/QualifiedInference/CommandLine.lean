-- SUMMARY: Command-line arguments: options, strategy names and what is told of arguments that cannot be used.
import QualifiedInference.Report
import QualifiedInference.Strategy.BuiltIn
/-!
# The command line

The arguments name a scenario file, the strategies to run and the format of the report. They
are read from left to right. An option takes its value after an equals sign or from the next
argument, and the value is looked at when the next thing is recognised, so that of two problems
the one that is recognised first is told; an argument that is not recognised at all is told at
once. After `--` every argument is taken for a file.
-/

namespace QualifiedInference

structure CommandLine where
  scenario : String
  strategies : List BuiltIn
  format : ReportFormat

namespace CommandLine

/-- Why the arguments do not lead to a run. -/
inductive Stop where
  | help
  | version
  | missingScenario
  /-- A value that is not one of those allowed, is empty or is not there. -/
  | invalidValue
  | unknownArgument
  | repeatedFormat
  /-- A value for an option that takes none. -/
  | surplusValue
deriving DecidableEq

/-- Asking for help or the version is no failure. -/
def Stop.exitCode : Stop → UInt32
  | help => 0
  | version => 0
  | _ => 2

/-- Something recognised whose value has not been looked at. An option may still wait for its
    value. -/
inductive Pending where
  | scenario (value : String)
  | strategies (value? : Option String)
  | format (value? : Option String)

structure State where
  pending? : Option Pending
  scenario? : Option String
  strategies : List BuiltIn
  format? : Option ReportFormat

def formatOfName? : String → Option ReportFormat
  | "text" => some .text
  | "json" => some .json
  | _ => none

namespace State

def initial : State := ⟨none, none, [], none⟩

/-- Looks at the pending value. -/
def settle (st : State) : Except Stop State :=
  match st.pending? with
  | none => .ok st
  | some (.scenario value) =>
    if value = "" then .error .invalidValue
    else .ok { st with pending? := none, scenario? := some value }
  | some (.strategies none) => .error .invalidValue
  | some (.strategies (some value)) =>
    match (value.splitOn ",").mapM BuiltIn.ofName? with
    | none => .error .invalidValue
    | some named => .ok { st with pending? := none, strategies := st.strategies ++ named }
  | some (.format none) => .error .invalidValue
  | some (.format (some value)) =>
    if st.format?.isSome then .error .repeatedFormat
    else
      match formatOfName? value with
      | none => .error .invalidValue
      | some f => .ok { st with pending? := none, format? := some f }

/-- Settles what is pending and makes `p` pending. -/
def push (st : State) (p : Pending) : Except Stop State := do
  return { ← st.settle with pending? := some p }

def hasScenario (st : State) : Bool :=
  match st.pending? with
  | some (.scenario _) => true
  | _ => st.scenario?.isSome

def positional (st : State) (arg : String) : Except Stop State :=
  if st.hasScenario then .error .unknownArgument else st.push (.scenario arg)

/-- A value for the option that waits for one, or else a positional argument. -/
def value (st : State) (arg : String) : Except Stop State :=
  match st.pending? with
  | some (.strategies none) => .ok { st with pending? := some (.strategies (some arg)) }
  | some (.format none) => .ok { st with pending? := some (.format (some arg)) }
  | _ => st.positional arg

def stop (st : State) (s : Stop) : Except Stop State := do
  let _ ← st.settle
  throw s

/-- Settles a value that came with its option. -/
def attached (st : State) (p : Pending) : Except Stop State := do (← st.push p).settle

/-- An argument that starts with two dashes, without them: the name of an option and the value
    after an equals sign, if there is one. -/
def long (st : State) (name : String) (value? : Option String) : Except Stop State :=
  match name, value? with
  | "strategies", none => st.push (.strategies none)
  | "strategies", some v => st.attached (.strategies (some v))
  | "format", none => st.push (.format none)
  | "format", some v => st.attached (.format (some v))
  | "help", none => st.stop .help
  | "help", some _ => .error .surplusValue
  | "version", none => st.stop .version
  | "version", some _ => .error .surplusValue
  | _, _ => .error .unknownArgument

/-- An argument that starts with one dash. Its first letter decides. -/
def short (st : State) (letter : Char) : Except Stop State :=
  match letter with
  | 'h' => st.stop .help
  | 'V' => st.stop .version
  | _ => .error .unknownArgument

end State

/-- The text before the first equals sign and the text after it. -/
def splitValue (cs : List Char) : String × Option String :=
  let name := cs.takeWhile (· ≠ '=')
  match cs.dropWhile (· ≠ '=') with
  | [] => (String.ofList name, none)
  | _ :: value => (String.ofList name, some (String.ofList value))

/-- Reads one argument before any `--`. -/
def readArg (st : State) (arg : String) : Except Stop State :=
  match arg.toList with
  | '-' :: '-' :: cs =>
    let (name, value?) := splitValue cs
    st.long name value?
  | '-' :: c :: _ => st.short c
  | _ => st.value arg

def readArgs (st : State) : List String → Except Stop State
  | [] => st.settle
  | arg :: rest =>
    if arg = "--" then do (← rest.foldlM State.positional st).settle
    else do readArgs (← readArg st arg) rest

def ofArgs (args : List String) : Except Stop CommandLine := do
  let st ← readArgs .initial args
  match st.scenario? with
  | none => throw .missingScenario
  | some scenario =>
    return {
      scenario
      strategies := if st.strategies.isEmpty then BuiltIn.all else st.strategies
      format := st.format?.getD .text }

end CommandLine

end QualifiedInference
