/-!
# Failures

What can go wrong around an expansion, with the message for the user and the advice that follows
it. Files that cannot be read only make a result empty; the user of the command line sees the
failures of the variables that he gave.
-/

namespace PosterOverlay

/-- Something that went wrong. -/
inductive Failure where
  /-- A file exists and cannot be read. -/
  | unreadable (path reason : String)
  /-- There is no such file. -/
  | missing (path : String)
  /-- A text is not YAML. -/
  | malformedYaml
  /-- A text is not JSON. -/
  | malformedJson
  /-- A variable is not given as it should be. -/
  | invalidVariable (input reason : String)
  /-- A result cannot be written out. -/
  | unwritable (reason : String)
  deriving DecidableEq, Repr

namespace Failure

/-- What the user is told. -/
def message : Failure → String
  | unreadable path reason => "IO error on '" ++ path ++ "': " ++ reason
  | missing path => "File not found: " ++ path
  | malformedYaml => "YAML parse error"
  | malformedJson => "JSON parse error"
  | invalidVariable input reason => "Invalid variable '" ++ input ++ "': " ++ reason
  | unwritable reason => "Failed to serialize output: " ++ reason

/-- What the user can do about it. -/
def advice? : Failure → Option String
  | unreadable _ _ => some "Check file path and permissions"
  | missing _ => some "Pass an existing overlay file or set --defaults-dir"
  | malformedYaml => some "Check YAML syntax: indentation and quoting"
  | malformedJson =>
    some "Pass --vars as a JSON object, e.g. '\x7b\"rating1\": \"critic\"\x7d'"
  | invalidVariable _ _ => some "Use the form --var key=value"
  | unwritable _ => none

end Failure

end PosterOverlay
