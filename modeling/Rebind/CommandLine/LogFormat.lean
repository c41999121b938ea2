import Rebind.Text.Word

/-!
# Formats of a log
-/

namespace Rebind.CommandLine

/-- How a log is written. -/
inductive LogFormat where
  | text
  | tree
  | json
  deriving Repr, DecidableEq, Inhabited

/-- The format of a word; a word that names none is for plain text. -/
def LogFormat.ofWord (word : String) : LogFormat :=
  match Text.normalizedWord word with
  | "tree" => .tree
  | "json" => .json
  | _ => .text

end Rebind.CommandLine
