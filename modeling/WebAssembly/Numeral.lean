import WebAssembly.Failure

/-!
# Numbers in a binary

Integers stand in a binary as groups of LEB128 bytes, each carrying seven bits,
least significant first; a byte below `0x80` ends its group. Floats are
little-endian words of four or eight bytes.

A reading function takes the bytes from some position on and yields a value
together with the number of bytes that it occupies. It does not know where
these bytes are; `Fault.at` places its faults.

The readers of integers, `unsigned` and `signed`, look at a group as a whole. The
byte loop that they stand for is defined beside them.
-/

namespace WebAssembly

namespace Numeral

-- Whatever else is imported, powers are those of the core library. A literal as an
-- exponent states its type, as a default would not heed this.
attribute [local instance (high)] instPowNat

/-- Why no number can be read. -/
inductive Fault
  /-- The bytes end before the group does. -/
  | unterminated
  /-- The value lies outside the integers of this many bits. -/
  | overflow (width : Nat)
  /-- There are fewer bytes than the word needs. -/
  | truncated
  deriving DecidableEq

/-- A fault met at an offset. -/
def Fault.at (offset : Nat) : Fault → Cause
  | .unterminated => .malformedVarint offset
  | .overflow width => .integerOverflow offset width
  | .truncated => .unexpectedEnd offset

/-- How many bytes the first group has before its last one. -/
def groupEnd? (bytes : List UInt8) : Option Nat :=
  bytes.findIdx? fun byte => byte < 0x80

/-- The number made of the low seven bits of each byte, least significant
first. -/
def payload : List UInt8 → Nat
  | [] => 0
  | byte :: rest => byte.toNat % 128 + 128 * payload rest

/-- A number of `width` bits as a two's complement integer. -/
def twosComplement (width number : Nat) : Int :=
  if number < 2 ^ (width - 1) then (number : Int) else (number : Int) - 2 ^ width

/-- The greatest number of bytes in a group, as ten times seven bits hold 64. -/
def maxGroupLength : Nat := 10

/-- The first group, complete and not overlong. An overlong group exceeds 64
bits whatever its bytes are. -/
def group (bytes : List UInt8) : Except Fault (List UInt8) :=
  match groupEnd? bytes with
  | none => throw .unterminated
  | some last =>
      if last < maxGroupLength then return bytes.take (last + 1)
      else throw (.overflow 64)

/-- Read an unsigned integer of at most 64 bits. -/
def unsigned (bytes : List UInt8) : Except Fault (Nat × Nat) := do
  let group ← group bytes
  let value := payload group
  if value < 2 ^ (64 : Nat) then return (value, group.length)
  else throw (.overflow 64)

/-- Whether an integer fits into a number of bits. -/
def fits (width : Nat) (value : Int) : Bool :=
  decide (-(2 ^ (width - 1) : Int) ≤ value ∧ value < (2 ^ (width - 1) : Int))

/-- Read a signed integer of at most `width` bits. The limit of 64 bits comes
first, and no width beyond it matters. -/
def signed (width : Nat) (bytes : List UInt8) : Except Fault (Int × Nat) := do
  let group ← group bytes
  let value := twosComplement (7 * group.length) (payload group)
  if !fits 64 value then throw (.overflow 64)
  else if width < 64 && !fits width value then throw (.overflow width)
  else return (value, group.length)

/-! ## The loop over bytes

A group is read from an input stream byte by byte and without room for the group itself:
the low seven bits of each byte go into a word of 64 bits, above those before. The tenth
byte is shifted by 63, so only few bytes may stand there. Behind any other the rest of the
group is skipped, and a group that never ends is not taken for one that is too great.

`collect` and `Collected.signed` are the loops of the `leb128` library in version 0.2.5,
`leb128::read::unsigned` and `leb128::read::signed`, which the readers above stand for:
both come to the same on all bytes. `streamSigned` adds the check of narrower widths. -/

/-- The bytes that may end an unsigned integer of ten bytes. -/
def TenthUnsigned (byte : UInt8) : Prop := byte ≤ 1

/-- The bytes that may end a signed integer of ten bytes. -/
def TenthSigned (byte : UInt8) : Prop := byte = 0x00 ∨ byte = 0x7F

instance (byte : UInt8) : Decidable (TenthUnsigned byte) :=
  inferInstanceAs (Decidable (byte ≤ 1))

instance (byte : UInt8) : Decidable (TenthSigned byte) :=
  inferInstanceAs (Decidable (byte = 0x00 ∨ byte = 0x7F))

/-- Whether the group goes on behind a byte. -/
def continues (byte : UInt8) : Bool := byte &&& 0x80 != 0

/-- The fault of a group without room, which shows at its end. -/
def skip : List UInt8 → Fault
  | [] => .unterminated
  | byte :: rest => if continues byte then skip rest else .overflow 64

/-- What a streaming reader knows at the end of a group. -/
structure Collected where
  word : UInt64
  lastByte : UInt8
  length : Nat

/-- Collect the first group in a word that holds `length` bytes of it already. -/
def collect
    (tenth : UInt8 → Prop)
    [DecidablePred tenth]
    (word : UInt64)
    (length : Nat) :
    List UInt8 → Except Fault Collected
  | [] => throw .unterminated
  | byte :: rest =>
      if 7 * length = 63 ∧ ¬ tenth byte then throw (skip (byte :: rest))
      else
        let word := word ||| (byte &&& 0x7F).toUInt64 <<< UInt64.ofNat (7 * length)
        if continues byte then collect tenth word (length + 1) rest
        else return { word, lastByte := byte, length := length + 1 }

/-- The word with the sign bit of the last byte in all bits above it, unless there are
none. -/
def Collected.signed (collected : Collected) : Int64 :=
  let shift := 7 * collected.length
  if shift < 64 ∧ collected.lastByte &&& 0x40 = 0x40 then
    (collected.word ||| (~~~0) <<< UInt64.ofNat shift).toInt64
  else collected.word.toInt64

/-- Read an unsigned integer of at most 64 bits byte by byte. It yields what `unsigned` does. -/
def streamUnsigned (bytes : List UInt8) : Except Fault (UInt64 × Nat) := do
  let collected ← collect TenthUnsigned 0 0 bytes
  return (collected.word, collected.length)

/-- Read a signed integer of at most `width` bits byte by byte. It yields what `signed`
does. -/
def streamSigned (width : Nat) (bytes : List UInt8) : Except Fault (Int64 × Nat) := do
  let collected ← collect TenthSigned 0 0 bytes
  let value := collected.signed
  let bound : Int64 := 1 <<< Int64.ofNat (width - 1)
  if width < 64 ∧ (value < -bound ∨ bound - 1 < value) then throw (.overflow width)
  else return (value, collected.length)

/-! ## Numbers as they are read -/

/-- Read an unsigned integer of 32 bits. -/
def u32 (bytes : List UInt8) : Except Fault (UInt32 × Nat) := do
  let (value, length) ← unsigned bytes
  if value < 2 ^ (32 : Nat) then return (UInt32.ofNat value, length)
  else throw (.overflow 32)

/-- Read a signed integer of 32 bits. -/
def i32 (bytes : List UInt8) : Except Fault (Int32 × Nat) := do
  let (value, length) ← signed 32 bytes
  return (Int32.ofInt value, length)

/-- Read a signed integer of 64 bits. -/
def i64 (bytes : List UInt8) : Except Fault (Int64 × Nat) := do
  let (value, length) ← signed 64 bytes
  return (Int64.ofInt value, length)

/-- The number whose base 256 digits are the bytes, least significant first. -/
def littleEndian : List UInt8 → Nat
  | [] => 0
  | byte :: rest => byte.toNat + 256 * littleEndian rest

/-- Read a word of `length` bytes. -/
def word (length : Nat) (bytes : List UInt8) : Except Fault (Nat × Nat) :=
  let bytes := bytes.take length
  if bytes.length < length then throw .truncated
  else return (littleEndian bytes, length)

/-- Read the bits of a 32-bit float. -/
def f32 (bytes : List UInt8) : Except Fault (UInt32 × Nat) := do
  let (bits, length) ← word 4 bytes
  return (UInt32.ofNat bits, length)

/-- Read the bits of a 64-bit float. -/
def f64 (bytes : List UInt8) : Except Fault (UInt64 × Nat) := do
  let (bits, length) ← word 8 bytes
  return (UInt64.ofNat bits, length)

/-- Read a number from the bytes of a buffer that start at an offset. -/
def readAt
    (read : List UInt8 → Except Fault (α × Nat))
    (buffer : List UInt8)
    (offset : Nat) :
    Except Cause (α × Nat) :=
  (read (buffer.drop offset)).mapError (Fault.at offset)

end Numeral

end WebAssembly
