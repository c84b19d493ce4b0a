-- SUMMARY: The entry point of the program.
import QualifiedInference.Program
/-!
# Entry point

Reads the arguments and the scenario file and writes the report to the standard output.
-/

open QualifiedInference

def usage : String :=
  "Usage: qualified-inference [--strategies S,...] [--format text|json] SCENARIO"

def describeStop : CommandLine.Stop → String
  | .help => usage
  | .version => "0.1.0"
  | .missingScenario => "error: no scenario file is given\n" ++ usage
  | .invalidValue => "error: a value is missing or not one of those allowed\n" ++ usage
  | .unknownArgument => "error: an argument is not known\n" ++ usage
  | .repeatedFormat => "error: the format is given twice\n" ++ usage
  | .surplusValue => "error: a value is given where none is taken\n" ++ usage

def fileErrorOf : IO.Error → FileError
  | .noFileOrDirectory .. => .notFound
  | .inappropriateType .. => .isADirectory
  | _ => .other

def readContents (path : String) : IO (Except FileError ByteArray) := do
  try
    return .ok (← IO.FS.readBinFile path)
  catch e => return .error (fileErrorOf e)

def main (args : List String) : IO UInt32 := do
  match CommandLine.ofArgs args with
  | .error stop =>
    if stop.exitCode = 0 then IO.println (describeStop stop)
    else IO.eprintln (describeStop stop)
    return stop.exitCode
  | .ok c =>
    let exit := Program.run c (← readContents c.scenario)
    IO.print exit.output
    if let some message := exit.complaint? then IO.eprintln ("Error: " ++ message)
    return exit.code
