import WebAssembly.CommandLine.Run

/-!
# A directory of files

A working directory that holds files and no other directories, on which runs of
the command can be observed.
-/

namespace WebAssembly

namespace CommandLine

/-- The content of a file, as bytes or as text. -/
inductive Content
  | bytes (value : List UInt8)
  | text (value : String)

/-- The bytes of a file. -/
def Content.toBytes : Content → List UInt8
  | .bytes value => value
  | .text value => value.toUTF8.toList

/-- A directory, a list of names with contents. -/
abbrev Directory := List (String × Content)

namespace Directory

/-- What a path leads to from within a directory. -/
inductive Place
  | file (name : String)
  | directory
  | belowFile
  | nowhere
  deriving DecidableEq

/-- Follow a path. A name followed by a slash has to be a directory, and there
is no other directory to go through than the working one. -/
def place (directory : Directory) (path : String) : Place :=
  if path.startsWith "/" then .nowhere
  else
    match (path.splitOn "/").dropWhile (fun part => part == "." || part == "") with
    | [] => .directory
    | [name] => .file name
    | name :: _ => if (directory.lookup name).isSome then .belowFile else .nowhere

/-- Read the file at a path. -/
def read (directory : Directory) (path : String) : Except FileFault (List UInt8) :=
  match directory.place path with
  | .file name =>
      match directory.lookup name with
      | some content => return content.toBytes
      | none => throw .missing
  | .directory => throw .isDirectory
  | .belowFile => throw .notDirectory
  | .nowhere => throw .missing

/-- Write a file at a path, in place of an earlier one. -/
def write (directory : Directory) (path text : String) : Except FileFault Directory :=
  match directory.place path with
  | .file name => return (name, .text text) :: directory.filter (·.1 != name)
  | .directory => throw .isDirectory
  | .belowFile => throw .notDirectory
  | .nowhere => throw .missing

/-- Access to the files of a directory that is kept as a state. -/
def access : FileAccess (StateM Directory) where
  read path := return (← get).read path
  write path text := do
    match (← get).write path text with
    | .ok after =>
        set after
        return .ok ()
    | .error fault => return .error fault

end Directory

/-- Run a command line in a directory. -/
def runIn (directory : Directory) (arguments : List String) : Outcome × Directory :=
  run Directory.access arguments directory

end CommandLine

end WebAssembly
