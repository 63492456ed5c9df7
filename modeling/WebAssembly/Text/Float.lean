import WebAssembly.Decimal.Shortest
import WebAssembly.Hexadecimal

/-!
# Float literals

A float is given by its bits, a sign, an exponent and a fraction, in one of the
two interchange formats. A finite number is written with the fewest digits
that read back to the same bits, a NaN with its fraction as payload, so that
every bit pattern has a literal of its own.
-/

namespace WebAssembly

/-- The layout of a binary float. -/
structure FloatFormat where
  fractionBits : Nat
  exponentBits : Nat
  deriving DecidableEq

namespace FloatFormat

-- Whatever else is imported, powers are those of the core library.
attribute [local instance (high)] instPowNat

/-- The format of 32 bits. -/
def binary32 : FloatFormat := { fractionBits := 23, exponentBits := 8 }

/-- The format of 64 bits. -/
def binary64 : FloatFormat := { fractionBits := 52, exponentBits := 11 }

variable (format : FloatFormat)

/-- The bits of the fraction. -/
def fraction (bits : Nat) : Nat := bits % 2 ^ format.fractionBits

/-- The bits of the exponent. -/
def biasedExponent (bits : Nat) : Nat :=
  bits / 2 ^ format.fractionBits % 2 ^ format.exponentBits

/-- Whether the sign bit is set. -/
def isNegative (bits : Nat) : Bool :=
  bits / 2 ^ (format.fractionBits + format.exponentBits) % 2 == 1

/-- The exponent that NaNs and infinities have. -/
def specialExponent : Nat := 2 ^ format.exponentBits - 1

/-- What is added to the exponent of one in its bits. -/
def bias : Nat := 2 ^ (format.exponentBits - 1) - 1

/-- The significand of a finite number, as a multiple of its last place. -/
def significand (bits : Nat) : Nat :=
  if format.biasedExponent bits = 0 then format.fraction bits
  else 2 ^ format.fractionBits + format.fraction bits

/-- The exponent of two of the last place of a finite number. -/
def lastPlace (bits : Nat) : Int :=
  (max 1 (format.biasedExponent bits) : Nat) - (format.bias + format.fractionBits : Nat)

/-- Whether the next smaller finite number is only half as far away as the next
greater one, which is so at the powers of two above the least exponent. -/
def hasNarrowGap (bits : Nat) : Bool :=
  format.fraction bits == 0 && decide (1 < format.biasedExponent bits)

/-- A power of two as a natural number of units, each a power of ten. -/
def powerOfTwo (exponent : Int) : Nat × Int :=
  match exponent with
  | .ofNat exponent => (2 ^ exponent, 0)
  | .negSucc exponent => (5 ^ (exponent + 1), .negSucc exponent)

/-- The interval of the numbers that round to a finite positive one, and the
exponent of ten of its unit. The ends are halfway to the next numbers and round
to the even significand. -/
def roundingInterval (bits : Nat) : Decimal.Interval × Int :=
  let (scale, exponent) := powerOfTwo (format.lastPlace bits - 2)
  let quarters := 4 * format.significand bits
  ({ low := (quarters - if format.hasNarrowGap bits then 1 else 2) * scale
     value := quarters * scale
     high := (quarters + 2) * scale
     closed := format.significand bits % 2 == 0 },
   exponent)

/-- The shortest decimal that rounds to a finite positive number. -/
def shortestDecimal (bits : Nat) : Decimal :=
  let (interval, exponent) := format.roundingInterval bits
  let decimal := interval.shortest
  { decimal with exponent := decimal.exponent + exponent }

/-- The literal of a number without its sign. -/
def unsignedLiteral (bits : Nat) : String :=
  if format.biasedExponent bits = format.specialExponent then
    if format.fraction bits = 0 then "inf"
    else "nan:" ++ hexadecimal (format.fraction bits)
  else if format.significand bits = 0 then "0e0"
  else (format.shortestDecimal bits).scientific

/-- The literal of a float. -/
def literal (bits : Nat) : String :=
  (if format.isNegative bits then "-" else "") ++ format.unsignedLiteral bits

end FloatFormat

/-- The literal of a 32-bit float. -/
def f32Literal (bits : UInt32) : String := FloatFormat.binary32.literal bits.toNat

/-- The literal of a 64-bit float. -/
def f64Literal (bits : UInt64) : String := FloatFormat.binary64.literal bits.toNat

end WebAssembly
