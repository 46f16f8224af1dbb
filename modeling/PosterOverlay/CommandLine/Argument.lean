import PosterOverlay.Text.Separator

/-!
# Arguments

Every argument of the command line is an option, several short options in one word, or a plain
text, which may be the value of the option before it. After a double dash all arguments are plain
texts that are no values. An option may carry its value in the same argument.
-/

namespace PosterOverlay.CommandLine

/-- The options of the command line. -/
inductive Flag where
  /-- Asks for help. -/
  | help
  /-- Asks for the version. -/
  | version
  /-- Asks for more messages. -/
  | verbose
  /-- Gives one variable. -/
  | assignment
  /-- Gives variables as a JSON object. -/
  | object
  /-- Gives the root of the installation. -/
  | root
  /-- Gives the directory of the libraries. -/
  | directory
  /-- Gives the format of the output. -/
  | format
  /-- Asks for what a preview shows. -/
  | preview
  deriving DecidableEq, Repr

namespace Flag

/-- The option with a long name. -/
def ofLong? (name : String) : Option Flag :=
  [("help", help), ("version", version), ("verbose", verbose), ("var", assignment),
    ("vars", object), ("root", root), ("defaults-dir", directory), ("format", format),
    ("preview", preview)].lookup name

/-- The option with a short name. -/
def ofShort? (letter : Char) : Option Flag :=
  [('h', help), ('V', version), ('v', verbose), ('f', format)].lookup letter

/-- Whether the option has a value. -/
def takesValue : Flag → Bool
  | assignment | object | root | directory | format => true
  | help | version | verbose | preview => false

end Flag

/-- What an argument, or a part of it, stands for. -/
inductive Argument where
  /-- An option, with the value in the same argument if there is one. -/
  | option (flag : Flag) (attached? : Option String)
  /-- A text that may be the value of the option before it. -/
  | plain (text : String)
  /-- A text after a double dash. -/
  | operand (text : String)
  /-- Something that looks like an option and is none. -/
  | unknown
  deriving DecidableEq, Repr

namespace Argument

/-- The options that the letters after one dash stand for. The first one with a value takes all
letters after it, without an equals sign in front. -/
def ofLetters : List Char → List Argument
  | [] => []
  | c :: rest =>
    match Flag.ofShort? c with
    | none => [unknown]
    | some flag =>
      if flag.takesValue then
        let value := (Text.after? ['='] rest).getD rest
        [option flag (if rest.isEmpty then none else some (String.ofList value))]
      else option flag none :: ofLetters rest

/-- The option that the characters after two dashes stand for. -/
def ofWord (word : List Char) : Argument :=
  let (name, value?) : List Char × Option String :=
    match Text.splitOnce? ['='] word with
    | some (name, value) => (name, some (String.ofList value))
    | none => (word, none)
  match Flag.ofLong? (String.ofList name) with
  | some flag => option flag value?
  | none => unknown

/-- What the arguments stand for. -/
def ofTexts : List String → List Argument
  | [] => []
  | text :: rest =>
    match text.toList with
    | ['-', '-'] => rest.map operand
    | '-' :: '-' :: word => ofWord word :: ofTexts rest
    | '-' :: c :: letters => ofLetters (c :: letters) ++ ofTexts rest
    | _ => plain text :: ofTexts rest

end Argument

end PosterOverlay.CommandLine
