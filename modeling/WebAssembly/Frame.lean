import WebAssembly.Decode.Section

/-!
# Framing

Framing reads the header of a binary and splits the rest into sections without
looking at their entries. `Frame.decode` also checks the order of the sections,
`Scan` only reports them.

The header of a section has an id, a size and a count; two encodings of size and
count are in use.
-/

namespace WebAssembly

open Decode

/-- The encoding of the size and count fields of a section header. -/
inductive HeaderFormat
  /-- One byte each. -/
  | compact
  /-- A LEB128 integer of 32 bits each. -/
  | leb128
  deriving DecidableEq

/-- Read a field of a section header. -/
def HeaderFormat.field [Source ρ] : HeaderFormat → Decode ρ UInt32
  | .compact => return (← byte).toUInt32
  | .leb128 => u32

/-- The header of a binary. -/
structure Header where
  magic : String
  version : UInt32
  deriving DecidableEq

namespace Header

/-- The only header there is. -/
def standard : Header := { magic := "\x00asm", version := 1 }

/-- The bytes of the magic string. -/
def magicBytes : List UInt8 := [0x00, 0x61, 0x73, 0x6D]

/-- The bytes of the version, a little-endian word. -/
def versionBytes : List UInt8 := [0x01, 0x00, 0x00, 0x00]

/-- Read the header. Both fields are read before either is judged. -/
def decode [Source ρ] : Decode ρ Header :=
  failingWith .invalidMagicOrVersion do
    let magic ← bytes 4
    let version ← bytes 4
    require (magic == magicBytes && version == versionBytes) .invalidMagicOrVersion
    return standard

end Header

/-- A section whose entries have not been decoded. -/
structure RawSection where
  id : SectionId
  /-- The declared size of everything after the size field. -/
  size : UInt32
  /-- The declared count of entries; in the start section the function index. -/
  count : UInt32
  payload : Reader
  deriving DecidableEq

namespace RawSection

/-- Read the header of a section and split off its content, which begins with
the count. A custom section has no count. -/
def decode (format : HeaderFormat) : Decode Reader RawSection := do
  let number ← byte
  let id ← requireSome (SectionId.ofNumber? number) (.unknownSection number)
  let size ← format.field
  let content ← split size.toNat
  if id = .custom then
    return { id, size, count := 0, payload := content }
  else
    let (count, payload) ← withinRest content format.field
    return { id, size, count, payload }

/-- Decode the entries of a section against the module made of the sections
before it. -/
def contentFor (module : Module) (raw : RawSection) : Except Failure Section :=
  outcome (Section.decode module raw.id raw.count) raw.payload

end RawSection

/-- The header and the sections of a binary, in input order, without custom
sections. -/
structure Frame where
  header : Header
  sections : List RawSection
  deriving DecidableEq

namespace Frame

/-- Check that a section may follow others, which are given last first: each
kind occurs once, and the kinds come in the order of their numbers. -/
def requirePlace (earlier : List RawSection) (raw : RawSection) : Decode Reader Unit := do
  require (earlier.all fun other => other.id != raw.id)
    (.duplicateSection raw.id.number)
  require (earlier.head?.all fun last => last.id.number ≤ raw.id.number)
    (.sectionOutOfOrder raw.id.number)

/-- Read one more section behind others, which are given last first. -/
def step
    (format : HeaderFormat)
    (earlier : List RawSection) :
    Decode Reader (List RawSection ⊕ List RawSection) := do
  let offset ← position
  let raw ← inContext (.frame offset) (RawSection.decode format)
  if raw.id = .custom then
    return .inl earlier
  else
    requirePlace earlier raw
    return .inl (raw :: earlier)

/-- Read the header and split off all sections. -/
def decode (format : HeaderFormat) : Decode Reader Frame := do
  let header ← Header.decode
  let reversed ← stepUntilEnd pure (step format) []
  return { header, sections := reversed.reverse }

/-- The frame of a binary. -/
def ofBytes (format : HeaderFormat) (input : List UInt8) : Except Failure Frame :=
  outcome (decode format) (Reader.ofBytes input)

end Frame

/-- A report on the parts of a binary, with the reader after each. It lists
custom sections and heeds neither order nor repetition, and it goes on behind a
bad header. -/
structure Scan where
  header : Except Failure Header
  afterHeader : Reader
  sections : List (RawSection × Reader)
  /-- What ended the scan before the end of the input, if anything did. -/
  failure : Option (Failure × Reader)

namespace Scan

/-- Split off sections until one fails or the input ends, for at most `rounds`
rounds; those split off so far are given last first. -/
def sectionsFrom
    (format : HeaderFormat) :
    (rounds : Nat) → Reader → List (RawSection × Reader) →
      List (RawSection × Reader) × Option (Failure × Reader)
  | 0, _, earlier => (earlier.reverse, none)
  | rounds + 1, reader, earlier =>
      if reader.isEnd then (earlier.reverse, none)
      else
        match RawSection.decode format reader with
        | .ok raw after => sectionsFrom format rounds after ((raw, after) :: earlier)
        | .error failure after => (earlier.reverse, some (failure, after))

/-- Scan a binary. -/
def ofBytes (format : HeaderFormat) (input : List UInt8) : Scan :=
  let (header, afterHeader) := attempt Header.decode (Reader.ofBytes input)
  let (sections, failure) := sectionsFrom format afterHeader.remaining afterHeader []
  { header, afterHeader, sections, failure }

end Scan

end WebAssembly
