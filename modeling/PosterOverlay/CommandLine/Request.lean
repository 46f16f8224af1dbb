import PosterOverlay.CommandLine.Argument
import PosterOverlay.Settings.Location

/-!
# Requests

The arguments of the command line, read from left to right, ask for one of three commands, for
help or for the version. Help and the version are given as soon as they are asked for, whatever
comes after; before that any mistake makes the whole line invalid.
-/

namespace PosterOverlay.CommandLine

/-- The formats of the output. -/
inductive Format where
  /-- JSON over several lines. -/
  | json
  /-- YAML. -/
  | yaml
  deriving DecidableEq, Repr

/-- The format of that name. -/
def Format.ofName? (name : String) : Option Format :=
  [("json", json), ("yaml", yaml)].lookup name

/-- What the options after a command say. -/
structure Options where
  /-- Whether more messages are asked for. -/
  isVerbose : Bool
  /-- Whether only what a preview shows is asked for. -/
  isPreview : Bool
  /-- The variables given one by one. -/
  assignments : List String
  /-- The variables given as an object. -/
  object? : Option String
  /-- The root of the installation. -/
  root? : Option String
  /-- The directory of the libraries. -/
  directory? : Option String
  /-- The format of the output. -/
  format? : Option Format
  /-- The file that the command is about. -/
  file? : Option String
  deriving DecidableEq, Repr

namespace Options

/-- No options. -/
def none : Options :=
  ⟨false, false, [], Option.none, Option.none, Option.none, Option.none, Option.none⟩

/-- A value that is given once and is not empty. -/
def onlyPath? (given? : Option String) (text : String) : Option (Option String) :=
  if given?.isSome || text = "" then Option.none else some (some text)

/-- Takes up an option without a value. It may be given once. -/
def raise? (options : Options) : Flag → Option Options
  | .verbose => if options.isVerbose then Option.none else some { options with isVerbose := true }
  | .preview => if options.isPreview then Option.none else some { options with isPreview := true }
  | _ => Option.none

/-- Takes up an option with its value. All but single variables may be given once; paths may not
be empty. -/
def assign? (options : Options) (flag : Flag) (text : String) : Option Options :=
  match flag with
  | .assignment => some { options with assignments := options.assignments ++ [text] }
  | .object =>
    if options.object?.isSome then Option.none else some { options with object? := some text }
  | .root => (onlyPath? options.root? text).map fun root? => { options with root? }
  | .directory =>
    (onlyPath? options.directory? text).map fun directory? => { options with directory? }
  | .format =>
    if options.format?.isSome then Option.none
    else (Format.ofName? text).map fun format => { options with format? := some format }
  | _ => Option.none

/-- Takes up the file. -/
def withFile? (options : Options) (text : String) : Option Options :=
  (onlyPath? options.file? text).map fun file? => { options with file? }

/-- The settings for a command, given those that the environment asks for. -/
def settings (options : Options) (environment : Settings) : Settings :=
  let settings := (options.root?.map Settings.ofRoot).getD environment
  (options.directory?.map settings.withDirectory).getD settings

end Options

/-- The commands. -/
inductive Command where
  /-- Expands a document. -/
  | expand
  /-- Names the overlays of a document. -/
  | keys
  /-- Lists the overlay files. -/
  | list
  deriving DecidableEq, Repr

namespace Command

/-- The command of that name. -/
def ofName? (name : String) : Option Command :=
  [("expand", expand), ("keys", keys), ("list", list)].lookup name

/-- Whether the command knows the option. -/
def allows : Command → Flag → Bool
  | _, .help => true
  | _, .verbose => true
  | _, .version => false
  | expand, _ => true
  | list, .root => true
  | list, .directory => true
  | _, _ => false

/-- Whether the command is about a file. -/
def takesFile : Command → Bool
  | list => false
  | _ => true

/-- Takes up an option without a value for the command. -/
def raise? (command : Command) (options : Options) (flag : Flag) : Option Options :=
  if command.allows flag then options.raise? flag else none

/-- Takes up an option with its value for the command. -/
def assign? (command : Command) (options : Options) (flag : Flag) (text : String) :
    Option Options :=
  if command.allows flag then options.assign? flag text else none

/-- Takes up the file for the command. -/
def file? (command : Command) (options : Options) (text : String) : Option Options :=
  if command.takesFile then options.withFile? text else none

end Command

/-- What the command line asks for. -/
inductive Request where
  /-- Help. -/
  | help
  /-- The version. -/
  | version
  /-- A command. -/
  | run (command : Command) (options : Options)
  /-- Nothing that can be made out. -/
  | invalid

namespace Request

/-- Reads the arguments after a command, given the options so far. -/
def afterCommand (command : Command) (options : Options) : List Argument → Request
  | [] => if command.takesFile && options.file?.isNone then invalid else run command options
  | .unknown :: _ => invalid
  | .plain text :: rest | .operand text :: rest =>
    match command.file? options text with
    | some options => afterCommand command options rest
    | none => invalid
  | .option flag (some text) :: rest =>
    match command.assign? options flag text with
    | some options => afterCommand command options rest
    | none => invalid
  | .option flag none :: rest =>
    if flag = .help then help
    else if flag.takesValue then
      match rest with
      | .plain text :: rest =>
        match command.assign? options flag text with
        | some options => afterCommand command options rest
        | none => invalid
      | _ => invalid
    else
      match command.raise? options flag with
      | some options => afterCommand command options rest
      | none => invalid

/-- Whether the texts after the word for help name at most one command. -/
def isHelpTopic : List Argument → Bool
  | [] => true
  | [.plain text] => text = "help" || (Command.ofName? text).isSome
  | [.operand text] => text = "help" || (Command.ofName? text).isSome
  | _ => false

/-- Reads the arguments up to the command. -/
def beforeCommand (isVerbose : Bool) : List Argument → Request
  | [] => invalid
  | .plain text :: rest =>
    if text = "help" then if isHelpTopic rest then help else invalid
    else
      match Command.ofName? text with
      | some command => afterCommand command .none rest
      | none => invalid
  | .option flag none :: rest =>
    match flag with
    | .help => help
    | .version => version
    | .verbose => if isVerbose then invalid else beforeCommand true rest
    | _ => invalid
  | _ => invalid

/-- What the texts of the command line ask for. -/
def ofTexts (texts : List String) : Request :=
  beforeCommand false (Argument.ofTexts texts)

end Request

end PosterOverlay.CommandLine
