import WebAssembly.CommandLine.Arguments

/-!
# Running the command

The command reads a file, disassembles it and writes the text to another file
or to standard output. It works in any monad with access to files, so that a
run can be observed on a `Directory` as well as performed.
-/

namespace WebAssembly

namespace CommandLine

/-- Why a file cannot be read or written. -/
inductive FileFault
  /-- There is nothing at the path. -/
  | missing
  /-- The path goes on behind a file. -/
  | notDirectory
  /-- The path leads to a directory. -/
  | isDirectory
  | other (reason : String)
  deriving DecidableEq

/-- The text of a fault, with its number in the operating system. -/
def FileFault.message : FileFault → String
  | .missing => "No such file or directory (os error 2)"
  | .notDirectory => "Not a directory (os error 20)"
  | .isDirectory => "Is a directory (os error 21)"
  | .other reason => reason

/-- How files are read and written in a monad. -/
structure FileAccess (m : Type → Type) where
  read : (path : String) → m (Except FileFault (List UInt8))
  write : (path text : String) → m (Except FileFault Unit)

/-- What a run leaves apart from files. -/
structure Outcome where
  exitCode : Nat
  output : String := ""
  errors : String := ""
  deriving DecidableEq

namespace Outcome

/-- The report of a failure: the outermost context, then the causes below it,
numbered if there are several. -/
def report : (chain : List String) → String
  | [] => ""
  | [outermost] => "Error: " ++ outermost ++ "\n"
  | [outermost, cause] =>
      "Error: " ++ outermost ++ "\n\nCaused by:\n    " ++ cause ++ "\n"
  | outermost :: causes =>
      "Error: " ++ outermost ++ "\n\nCaused by:\n" ++
        String.join (causes.zipIdx.map fun (cause, number) =>
          "    " ++ toString number ++ ": " ++ cause ++ "\n")

/-- The outcome of a run that failed. -/
def failed (chain : List String) : Outcome :=
  { exitCode := 1, errors := report chain }

/-- The outcome of a run without a proper command line. -/
def refused (fault : Fault) : Outcome :=
  match fault with
  | .help | .version => { exitCode := 0, output := fault.message ++ "\n" }
  | _ => { exitCode := 2, errors := "error: " ++ fault.message ++ "\n" }

end Outcome

/-- Write the text of a run to where it belongs. -/
def deliver [Monad m]
    (files : FileAccess m)
    (destination : Option String)
    (text : String) :
    m Outcome := do
  match destination with
  | none => return { exitCode := 0, output := text }
  | some path =>
      match ← files.write path text with
      | .ok () => return { exitCode := 0 }
      | .error fault => return .failed ["failed to write " ++ path, fault.message]

/-- Do what proper arguments ask for. Nothing is written unless the whole input
can be decoded. -/
def perform [Monad m] (files : FileAccess m) (arguments : Arguments) : m Outcome := do
  match ← files.read arguments.file with
  | .error fault => return .failed ["failed to read " ++ arguments.file, fault.message]
  | .ok input =>
      match disassemble arguments.headers arguments.output input with
      | .error failure => return .failed failure.chain
      | .ok text => deliver files arguments.destination text

/-- Run a command line. -/
def run [Monad m] (files : FileAccess m) (arguments : List String) : m Outcome := do
  match Arguments.parse arguments with
  | .error fault => return .refused fault
  | .ok arguments => perform files arguments

end CommandLine

end WebAssembly
