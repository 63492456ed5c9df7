import WebAssembly.Frame

/-!
# Decoding modules

A module is decoded by framing its binary and decoding the sections in order,
each against the module made of those before it.
-/

namespace WebAssembly

namespace Module

/-- Decode one more section of a module and add it. -/
def extend (module : Module) (raw : RawSection) : Except Failure Module :=
  match raw.contentFor module with
  | .ok content => .ok (module.add content)
  | .error failure => .error (failure.inContext (.decodeSection raw.id))

/-- Whether functions are declared that have no bodies. -/
def lacksCode (module : Module) : Bool :=
  !(entries module.functions).isEmpty && module.code.isNone

/-- Decode all sections of a frame. -/
def ofFrame (frame : Frame) : Except Failure Module := do
  let bare : Module :=
    { magic := frame.header.magic, version := frame.header.version }
  let module ← frame.sections.foldlM extend bare
  if module.lacksCode then throw (.ofCause .missingCodeSection)
  return module

/-- Decode a binary. -/
def ofBytes (format : HeaderFormat) (input : List UInt8) : Except Failure Module := do
  ofFrame (← Frame.ofBytes format input)

/-- Add the sections of a list to a module where they can be decoded, as a caller does
who decodes sections one at a time and goes on behind a failure. The result has, for
each of them, its content or its failure and the module afterwards, which a failure
leaves as it was. -/
def assemble : Module → List RawSection → List (Except Failure Section × Module)
  | _, [] => []
  | module, raw :: rest =>
      match raw.contentFor module with
      | .ok content =>
          let extended := module.add content
          (.ok content, extended) :: assemble extended rest
      | .error failure => (.error failure, module) :: assemble module rest

end Module

end WebAssembly
