/-!
# Hexadecimal numbers

Offsets and payloads are written with the fewest lower case digits, bytes
always with two.
-/

namespace WebAssembly

/-- A number in hexadecimal, with the fewest digits. -/
def hexadecimal (number : Nat) : String :=
  "0x" ++ String.ofList (Nat.toDigits 16 number)

/-- A byte as two hexadecimal digits. -/
def hexDigits (byte : UInt8) : List Char :=
  [Nat.digitChar (byte.toNat / 16), Nat.digitChar (byte.toNat % 16)]

/-- A byte in hexadecimal, always with two digits. -/
def hexByte (byte : UInt8) : String :=
  "0x" ++ String.ofList (hexDigits byte)

end WebAssembly
