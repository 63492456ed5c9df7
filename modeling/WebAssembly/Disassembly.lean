import WebAssembly.Decode.Module
import WebAssembly.Json.Module
import WebAssembly.Text.Module

/-!
# Disassembly

From a binary to its text in one of the output formats.
-/

namespace WebAssembly

/-- How a module is written. -/
inductive OutputFormat
  | text
  | json
  deriving DecidableEq

/-- Write a module. -/
def OutputFormat.render : OutputFormat → Module → String
  | .text, module => module.text
  | .json, module => module.toJson.render

/-- Decode a binary and write its module. -/
def disassemble
    (headers : HeaderFormat)
    (output : OutputFormat)
    (input : List UInt8) :
    Except Failure String :=
  (Module.ofBytes headers input).map output.render

end WebAssembly
