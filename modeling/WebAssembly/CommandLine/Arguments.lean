import WebAssembly.Disassembly

/-!
# Command line arguments

The command takes one input file and three options. A value follows its option
as the next argument or behind an equals sign; behind a short option it may
follow at once. Everything behind `--` is an operand.
-/

namespace WebAssembly

namespace CommandLine

/-- What a command line asks for. -/
structure Arguments where
  file : String
  headers : HeaderFormat
  output : OutputFormat
  /-- Where to write instead of standard output. -/
  destination : Option String
  deriving DecidableEq

/-- The options that take a value. -/
inductive ValueOption
  | format
  | output
  deriving DecidableEq

/-- The name of an option. -/
def ValueOption.name : ValueOption → String
  | .format => "--format"
  | .output => "--output"

/-- Why arguments do not make a command line. -/
inductive Fault
  | unexpectedArgument (argument : String)
  | unexpectedValue (option : String)
  | repeated (option : String)
  | missingValue (option : ValueOption)
  | invalidValue (option : String) (value : String)
  | missingFile
  /-- Information on the command was asked for instead. -/
  | help
  | version
  deriving DecidableEq

/-- The text of a fault. -/
def Fault.message : Fault → String
  | .unexpectedArgument argument => "unexpected argument " ++ argument
  | .unexpectedValue option => option ++ " takes no value"
  | .repeated option => option ++ " is given more than once"
  | .missingValue option => option.name ++ " needs a value"
  | .invalidValue option value => "invalid value " ++ value ++ " for " ++ option
  | .missingFile => "an input file is required"
  | .help =>
      "Usage: FILE [--leb128-headers] [--format <wat|json>] [-o|--output <PATH>]"
  | .version => "0.1.0"

/-- How the next argument is taken. -/
inductive Mode
  | any
  | valueOf (option : ValueOption)
  | operand
  deriving DecidableEq

/-- The arguments read so far. -/
structure Draft where
  mode : Mode := .any
  file : Option String := none
  leb128Headers : Bool := false
  format : Option OutputFormat := none
  destination : Option String := none
  deriving DecidableEq

namespace Draft

/-- Take an operand, the input file. -/
def operand (draft : Draft) (argument : String) : Except Fault Draft :=
  match draft.file with
  | some _ => throw (.unexpectedArgument argument)
  | none =>
      if argument.isEmpty then throw (.invalidValue "FILE" argument)
      else return { draft with file := some argument }

/-- Take the value of an option, and go on with any argument. -/
def value (draft : Draft) (option : ValueOption) (argument : String) : Except Fault Draft :=
  match option with
  | .format =>
      if draft.format.isSome then throw (.repeated option.name)
      else
        match argument with
        | "wat" => return { draft with mode := .any, format := some .text }
        | "json" => return { draft with mode := .any, format := some .json }
        | _ => throw (.invalidValue option.name argument)
  | .output =>
      if draft.destination.isSome then throw (.repeated option.name)
      else if argument.isEmpty then throw (.invalidValue option.name argument)
      else return { draft with mode := .any, destination := some argument }

/-- Take an option with the value that is attached to it, if any. -/
def valueOption
    (draft : Draft)
    (option : ValueOption) :
    (attached : Option (List Char)) → Except Fault Draft
  | some chars => draft.value option (String.ofList chars)
  | none => return { draft with mode := .valueOf option }

/-- Take an option that begins with two hyphens, without these. -/
def longOption (draft : Draft) (body : List Char) : Except Fault Draft :=
  let name := String.ofList (body.takeWhile (· != '='))
  let attached :=
    match body.dropWhile (· != '=') with
    | [] => none
    | _ :: chars => some chars
  match name with
  | "leb128-headers" =>
      if attached.isSome then throw (.unexpectedValue "--leb128-headers")
      else if draft.leb128Headers then throw (.repeated "--leb128-headers")
      else return { draft with leb128Headers := true }
  | "format" => draft.valueOption .format attached
  | "output" => draft.valueOption .output attached
  | "help" => throw (if attached.isSome then .unexpectedValue "--help" else .help)
  | "version" => throw (if attached.isSome then .unexpectedValue "--version" else .version)
  | _ => throw (.unexpectedArgument ("--" ++ name))

/-- Take an option that begins with one hyphen, without it. -/
def shortOption (draft : Draft) : (body : List Char) → Except Fault Draft
  | ['o'] => draft.valueOption .output none
  | 'o' :: '=' :: chars => draft.valueOption .output (some chars)
  | 'o' :: chars => draft.valueOption .output (some chars)
  | 'h' :: _ => throw .help
  | 'V' :: _ => throw .version
  | body => throw (.unexpectedArgument (String.ofList ('-' :: body)))

/-- Take the next argument. One that looks like an option is never the value of
another option. -/
def next (draft : Draft) (argument : String) : Except Fault Draft :=
  match draft.mode, argument.toList with
  | .operand, _ => draft.operand argument
  | .any, ['-', '-'] => return { draft with mode := .operand }
  | .any, '-' :: '-' :: body => draft.longOption body
  | .any, '-' :: char :: rest => draft.shortOption (char :: rest)
  | .any, _ => draft.operand argument
  | .valueOf option, '-' :: _ :: _ => throw (.missingValue option)
  | .valueOf option, _ => draft.value option argument

/-- Take the end of the arguments. -/
def finish (draft : Draft) : Except Fault Arguments :=
  match draft.mode, draft.file with
  | .valueOf option, _ => throw (.missingValue option)
  | _, none => throw .missingFile
  | _, some file =>
      return {
        file
        headers := if draft.leb128Headers then .leb128 else .compact
        output := draft.format.getD .text
        destination := draft.destination }

end Draft

/-- Read a command line. -/
def Arguments.parse (arguments : List String) : Except Fault Arguments := do
  let draft ← arguments.foldlM Draft.next {}
  draft.finish

end CommandLine

end WebAssembly
