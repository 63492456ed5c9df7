import WebAssembly.CommandLine.Run

/-!
# The command

The outer layer: files, standard output and standard error.
-/

namespace WebAssembly

namespace CommandLine

/-- The fault behind an error of the system, whose number may come negated. -/
def FileFault.ofError : IO.Error → FileFault
  | .noFileOrDirectory .. => .missing
  | .permissionDenied .. => .other "Permission denied (os error 13)"
  | .inappropriateType _ code details =>
      if code = 20 ∨ code = -20 then .notDirectory
      else if code = 21 ∨ code = -21 then .isDirectory
      else .other details
  | error => .other (toString error)

/-- Access to the files of the system. -/
def systemFiles : FileAccess IO where
  read path := do
    try
      return .ok (← IO.FS.readBinFile path).toList
    catch error => return .error (.ofError error)
  write path text := do
    try
      IO.FS.writeFile path text
      return .ok ()
    catch error => return .error (.ofError error)

end CommandLine

end WebAssembly

/-- Run the command on the arguments of the process. -/
def main (arguments : List String) : IO UInt32 := do
  let outcome ← WebAssembly.CommandLine.run WebAssembly.CommandLine.systemFiles arguments
  IO.print outcome.output
  IO.eprint outcome.errors
  return outcome.exitCode.toUInt32
