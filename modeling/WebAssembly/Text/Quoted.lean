import WebAssembly.Hexadecimal

/-!
# Quoted strings

Names and data stand in the text between quotation marks. A backslash takes a
quotation mark, another backslash, or the two hexadecimal digits of a byte.
Names keep every other character than the control characters, while data is
written in printable ASCII alone.
-/

namespace WebAssembly

namespace Quoted

/-- A byte by its hexadecimal digits. -/
def escapedByte (byte : UInt8) : List Char := '\\' :: hexDigits byte

/-- A character of a name. -/
def nameChar (char : Char) : List Char :=
  if char = '"' then ['\\', '"']
  else if char = '\\' then ['\\', '\\']
  else if char.toNat < 0x20 ∨ char.toNat = 0x7F then escapedByte char.toNat.toUInt8
  else [char]

/-- A byte of data. -/
def dataByte (byte : UInt8) : List Char :=
  let char := Char.ofNat byte.toNat
  if char = '"' then ['\\', '"']
  else if char = '\\' then ['\\', '\\']
  else if 0x20 ≤ byte.toNat ∧ byte.toNat ≤ 0x7E then [char]
  else escapedByte byte

/-- Characters between quotation marks. -/
def enclose (chars : List Char) : String :=
  String.ofList ('"' :: (chars ++ ['"']))

/-- The literal of a name. -/
def name (text : String) : String :=
  enclose (text.toList.flatMap nameChar)

/-- The literal of data. -/
def data (bytes : List UInt8) : String :=
  enclose (bytes.flatMap dataByte)

end Quoted

end WebAssembly
