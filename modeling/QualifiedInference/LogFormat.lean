-- SUMMARY: Names of log formats.
import QualifiedInference.Text.Blank
/-!
# Log formats

How a user names the format of the log.
-/

namespace QualifiedInference

inductive LogFormat where
  | text
  | tree
  | json
deriving DecidableEq

/-- Reads a name, blanks around it and the case of its letters aside; a name that is unknown
    means `text`. Only ASCII letters have one of the letters of a known name as lower case, so
    the case of other letters makes no difference. -/
def LogFormat.ofName (s : String) : LogFormat :=
  match String.ofList ((Text.trim s.toList).map Char.toLower) with
  | "tree" => tree
  | "json" => json
  | _ => text

end QualifiedInference
