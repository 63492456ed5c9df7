import WebAssembly.Proofs.Quotation
import WebAssembly.Proofs.Rounding
import WebAssembly.Proofs.Shortest

/-!
# Reading float literals

A float literal is a sign, if any, and behind it an infinity, a NaN with its payload, or
a decimal, which is a rational number that is rounded to the nearest float. What a float
is printed as is read back as the same bits, since the number that the decimal stands for
lies in the interval of the float. No decimal that is read as these bits has fewer
significant digits than the one that is printed.
-/

namespace WebAssembly

/-! ## Numbers -/

/-- The number that hexadecimal digits stand for. -/
def hexNumeral? (digits : List Char) : Option Nat :=
  if digits = [] then none
  else digits.foldlM (fun number char => return 16 * number + (← Quoted.hexValue? char)) 0

/-- The digits of a number in base 16 are read back. -/
theorem hexNumeral?_toDigits (number : Nat) :
    hexNumeral? (Nat.toDigits 16 number) = some number := by
  rw [hexNumeral?, if_neg Nat.toDigits_ne_nil]
  induction number using Nat.strongRecOn with
  | ind number inductionHypothesis =>
      obtain small | large := Nat.lt_or_ge number 16
      · rw [Nat.toDigits_of_lt_base small]
        simp [Quoted.hexValue?_digitChar small]
      · have quotient := inductionHypothesis (number / 16) (by omega)
        rw [Nat.toDigits_of_base_le (by decide) large, List.foldlM_append, quotient]
        simp [Quoted.hexValue?_digitChar (Nat.mod_lt number (by decide : 16 > 0)),
          Nat.div_add_mod]

/-- The number that decimal digits stand for, which may have a sign. -/
def integer? (text : List Char) : Option Int :=
  match text with
  | '-' :: digits => (numeral? (String.ofList digits)).map fun number => -(number : Int)
  | '+' :: digits => (numeral? (String.ofList digits)).map Int.ofNat
  | digits => (numeral? (String.ofList digits)).map Int.ofNat

/-- An integer is read back from its decimal digits and its sign. -/
theorem integer?_toString (number : Int) : integer? (toString number).toList = some number := by
  cases number with
  | ofNat number =>
      have digit {char : Char} {rest : List Char}
          (same : (toString number).toList = char :: rest) :
          char.isDigit = true := by
        rw [Nat.toString_eq_repr, Nat.toList_repr] at same
        exact Nat.isDigit_of_mem_toDigits (by decide) (Nat.le_refl 10)
          (same ▸ List.mem_cons_self)
      have spelled : toString (Int.ofNat number) = toString number := rfl
      rw [spelled, integer?, String.ofList_toList, numeral?_toString]
      · rfl
      · exact fun _ same => absurd (digit same) (by decide)
      · exact fun _ same => absurd (digit same) (by decide)
  | negSucc number =>
      have spelled : (toString (Int.negSucc number)).toList =
          '-' :: (toString (number + 1)).toList :=
        String.toList_append
      rw [spelled, integer?, String.ofList_toList, numeral?_toString]
      rfl

/-! ## Decimals -/

namespace Decimal

/-- Whether a character marks the exponent. -/
def isMark (char : Char) : Bool := char == 'e' || char == 'E'

/-- The decimal that a literal without sign is: digits, among which there may be a point
behind the first ones, and an exponent, if any. Separators between digits are not read. -/
def read? (text : List Char) : Option Decimal :=
  let mantissa := text.takeWhile (!isMark ·)
  let whole := mantissa.takeWhile (· != '.')
  let fraction := (mantissa.dropWhile (· != '.')).drop 1
  if whole = [] then none
  else do
    let coefficient ← numeral? (String.ofList (whole ++ fraction))
    let exponent ←
      match text.dropWhile (!isMark ·) with
      | [] => some 0
      | _ :: exponent => integer? exponent
    return { coefficient, exponent := exponent - fraction.length }

/-- The digits of a literal in front of its exponent. -/
def digitCount (text : List Char) : Nat := (text.takeWhile (!isMark ·)).countP Char.isDigit

/-- The mark of the exponent is not in the mantissa. -/
theorem isMark_of_mem_mantissa
    {number : Nat}
    {char : Char}
    (among : char ∈ mantissa (significantDigits number)) :
    isMark char = false := by
  have digits : ∀ digit < 10, isMark (Nat.digitChar digit) = false := by decide
  obtain rfl | ⟨digit, below, rfl⟩ := mem_mantissa among
  · rfl
  · exact digits digit below

/-- A mantissa has digits and at most a point. -/
theorem isDigit_of_mem_mantissa
    {number : Nat}
    {char : Char}
    (among : char ∈ mantissa (significantDigits number)) :
    char.isDigit = (char != '.') := by
  have digits : ∀ digit < 10,
      (Nat.digitChar digit).isDigit = (Nat.digitChar digit != '.') := by decide
  obtain rfl | ⟨digit, below, rfl⟩ := mem_mantissa among
  · rfl
  · exact digits digit below

/-- A mantissa is one digit, and behind a point those that follow. -/
theorem exists_parts (number : Nat) :
    ∃ first others, shownDigits (significantDigits number) = first :: others ∧
      (mantissa (significantDigits number)).takeWhile (· != '.') = [first] ∧
      ((mantissa (significantDigits number)).dropWhile (· != '.')).drop 1 = others := by
  have notPoint {char : Char} (among : char ∈ significantDigits number) :=
    bne_point_of_mem_significantDigits among
  cases digits : significantDigits number with
  | nil => exact ⟨'0', [], rfl, rfl, rfl⟩
  | cons first others =>
      rw [digits] at notPoint
      have firstNotPoint := notPoint List.mem_cons_self
      refine ⟨first, others, shownDigits_cons fun _ => notPoint, ?_⟩
      cases others with
      | nil => simp [mantissa, firstNotPoint]
      | cons second rest => simp [mantissa_cons_cons, firstNotPoint]

section Scientific

variable (decimal : Decimal)

theorem takeWhile_scientific :
    decimal.scientific.toList.takeWhile (!isMark ·) =
      mantissa (significantDigits decimal.coefficient) := by
  rw [toList_scientific, List.takeWhile_append_of_pos fun char among => by
    rw [isMark_of_mem_mantissa among]; rfl]
  simp [isMark]

theorem dropWhile_scientific :
    decimal.scientific.toList.dropWhile (!isMark ·) =
      'e' :: (toString decimal.leadingExponent).toList := by
  rw [toList_scientific, List.dropWhile_append_of_pos fun char among => by
    rw [isMark_of_mem_mantissa among]; rfl]
  simp [isMark]

/-- What is written for a decimal is read as the same number. -/
theorem exists_read?_scientific :
    ∃ read, read? decimal.scientific.toList = some read ∧ read.value = decimal.value := by
  obtain ⟨first, others, shown, whole, fraction⟩ := exists_parts decimal.coefficient
  have digits : (first :: others).all Char.isDigit = true := by
    rw [← shown, shownDigits, List.all_filter, List.all_eq_true]
    intro char among
    rw [isDigit_of_mem_mantissa among]
    simp
  have coefficient : numeral? (String.ofList (first :: others)) =
      some (Nat.ofDigitChars 10 (first :: others) 0) := by
    rw [numeral?, String.toList_ofList, if_pos ⟨by simp, digits⟩]
  refine ⟨⟨Nat.ofDigitChars 10 (first :: others) 0, decimal.leadingExponent - others.length⟩,
    ?_, ?_⟩
  · simp only [read?, takeWhile_scientific, dropWhile_scientific, whole, fraction,
      List.singleton_append, coefficient, integer?_toString]
    rfl
  · rw [decimal.value_eq, shown, value, List.length_cons]
    congr 2
    push_cast
    omega

/-- A literal has as many digits as are shown of the coefficient. -/
theorem digitCount_scientific :
    digitCount decimal.scientific.toList =
      (shownDigits (significantDigits decimal.coefficient)).length := by
  rw [digitCount, takeWhile_scientific, List.countP_eq_length_filter, shownDigits]
  exact congrArg List.length (List.filter_congr fun _ among => isDigit_of_mem_mantissa among)

end Scientific

end Decimal

/-! ## Floats -/

namespace FloatFormat

variable (format : FloatFormat)

/-- The float that a number with a sign rounds to, if it is not too great. -/
def round? (negative : Bool) (number : ℚ) : Option Nat :=
  (format.nearest? number).map (format.withSign negative)

/-- The float that a literal without sign is. The payload of a NaN has at least one bit and
no more than the fraction. Hexadecimal numbers, which are never printed, are not read. -/
def readMagnitude? (text : List Char) : Option Nat :=
  match text with
  | ['i', 'n', 'f'] => some format.infinity
  | ['n', 'a', 'n'] => some (format.infinity + 2 ^ (format.fractionBits - 1))
  | 'n' :: 'a' :: 'n' :: ':' :: '0' :: 'x' :: digits => do
      let payload ← hexNumeral? digits
      if 1 ≤ payload ∧ payload < 2 ^ format.fractionBits then some (format.infinity + payload)
      else none
  | digits => do format.nearest? (← Decimal.read? digits).value

/-- The float that a literal is. -/
def read? (text : String) : Option Nat :=
  match text.toList with
  | '-' :: behind => (format.readMagnitude? behind).map (format.withSign true)
  | '+' :: behind => (format.readMagnitude? behind).map (format.withSign false)
  | text => (format.readMagnitude? text).map (format.withSign false)

/-! ## What is printed -/

/-- A literal that begins with a digit is read as a decimal and rounded. -/
theorem readMagnitude?_of_digit
    {text : List Char}
    (digit : ∃ char, text.head? = some char ∧ char.isDigit = true) :
    format.readMagnitude? text = (Decimal.read? text).bind fun decimal =>
      format.nearest? decimal.value := by
  obtain ⟨char, head, isDigit⟩ := digit
  rw [readMagnitude?.eq_def]
  split
  · cases head
    exact absurd isDigit (by decide)
  · cases head
    exact absurd isDigit (by decide)
  · cases head
    exact absurd isDigit (by decide)
  · rfl

/-- A negative float has a sign in front of its magnitude. -/
theorem toList_literal (bits : Nat) :
    (format.literal bits).toList =
      (if format.isNegative bits then ['-'] else []) ++ (format.unsignedLiteral bits).toList := by
  rw [literal, String.toList_append]
  split <;> simp

/-- Rounding without a sign gives the magnitude of what rounding with it does. -/
theorem nearest?_of_round?
    {negative : Bool}
    {number : ℚ}
    {bits : Nat}
    (rounded : format.round? negative number = some bits) :
    format.nearest? number = some (format.magnitude bits) := by
  obtain ⟨magnitude, nearest, rfl⟩ := Option.map_eq_some_iff.mp rounded
  have finite := (format.nearest?_eq_some.mp nearest).2
  rw [nearest, format.magnitude_withSign (finite.trans format.infinity_lt)]

/-- The literal of a finite float that is not zero has as many digits as the shortest decimal
that rounds to it. -/
theorem digitCount_literal
    {bits : Nat}
    (finite : format.biasedExponent bits ≠ format.specialExponent)
    (nonzero : format.significand bits ≠ 0) :
    Decimal.digitCount (format.literal bits).toList =
      (Decimal.significantDigits (format.shortestDecimal bits).coefficient).length := by
  have sign (digits : List Char) : Decimal.digitCount ('-' :: digits) =
      Decimal.digitCount digits := by
    simp [Decimal.digitCount, Decimal.isMark]
  have unsigned : Decimal.digitCount (format.literal bits).toList =
      Decimal.digitCount (format.unsignedLiteral bits).toList := by
    rw [toList_literal]
    split
    · exact sign _
    · rfl
  rw [unsigned, unsignedLiteral, if_neg finite, if_neg nonzero, Decimal.digitCount_scientific]
  cases digits : Decimal.significantDigits (format.shortestDecimal bits).coefficient with
  | nil => exact absurd digits (format.significantDigits_shortestDecimal_ne_nil nonzero)
  | cons first others =>
      rw [Decimal.shownDigits_cons fun char among =>
        Decimal.bne_point_of_mem_significantDigits (digits ▸ among)]

/-! ## What is read -/

/-- A literal preserves the bits of a float: it is read as these bits, and if they are
finite, as a decimal that rounds to them. What rounds to them has no nearer float, and
unless they are zero, no decimal that does so has fewer significant digits. -/
structure IsLossless (bits : Nat) (literal : String) : Prop where
  read : format.read? literal = some bits
  rounds : format.biasedExponent bits ≠ format.specialExponent →
    ∃ digits decimal, literal.toList = (if format.isNegative bits then ['-'] else []) ++ digits ∧
      Decimal.read? digits = some decimal ∧
      format.round? (format.isNegative bits) decimal.value = some bits
  nearest : ∀ (negative : Bool) (number : ℚ), 0 ≤ number →
    format.round? negative number = some bits → format.IsNearest (format.magnitude bits) number
  shortest : format.biasedExponent bits ≠ format.specialExponent → format.significand bits ≠ 0 →
    ∀ (negative : Bool) (decimal : Decimal), format.round? negative decimal.value = some bits →
      Decimal.digitCount literal.toList ≤
        (Decimal.significantDigits decimal.coefficient).length

section Formats

variable (hasFraction : 0 < format.fractionBits) (hasExponents : 2 ≤ format.exponentBits)
include hasFraction hasExponents

/-- The decimal of a finite float is read as a number that rounds to it. -/
theorem exists_read?_unsignedLiteral
    {bits : Nat}
    (below : bits < 2 ^ format.width)
    (finite : format.biasedExponent bits ≠ format.specialExponent) :
    ∃ decimal, Decimal.read? (format.unsignedLiteral bits).toList = some decimal ∧
      format.nearest? decimal.value = some bits := by
  obtain ⟨written, spelled, rounds⟩ := format.exists_rounds finite
  obtain ⟨read, isRead, same⟩ := written.exists_read?_scientific
  have inRange := format.lt_infinity below finite
  refine ⟨read, spelled ▸ isRead, format.nearest?_eq_some.mpr ⟨?_, inRange⟩⟩
  exact format.nearest_eq_of_rounds hasFraction hasExponents inRange read.value_nonneg
    (same ▸ rounds)

/-- The literal of a float without sign is read as its bits. -/
theorem readMagnitude?_unsignedLiteral {bits : Nat} (below : bits < 2 ^ format.width) :
    format.readMagnitude? (format.unsignedLiteral bits).toList = some bits := by
  by_cases finite : format.biasedExponent bits = format.specialExponent
  · have split := format.eq_infinity_add below finite
    rw [unsignedLiteral, if_pos finite]
    split
    · rename_i noFraction
      rw [noFraction] at split
      rw [split]
      rfl
    · rename_i someFraction
      have payload : 1 ≤ format.fraction bits ∧ format.fraction bits < 2 ^ format.fractionBits :=
        ⟨Nat.pos_of_ne_zero someFraction, Nat.mod_lt _ (Nat.pow_pos (by decide))⟩
      have spelled : ("nan:" ++ hexadecimal (format.fraction bits)).toList =
          'n' :: 'a' :: 'n' :: ':' :: '0' :: 'x' :: Nat.toDigits 16 (format.fraction bits) := by
        simp [hexadecimal]
      rw [spelled, readMagnitude?, hexNumeral?_toDigits]
      simp only [Option.bind_eq_bind, Option.bind_some, if_pos payload, ← split]
  · obtain ⟨decimal, isRead, nearest⟩ :=
      format.exists_read?_unsignedLiteral hasFraction hasExponents below finite
    obtain ⟨char, head, -, -, digit⟩ := format.head_unsignedLiteral bits
    rw [readMagnitude?_of_digit _ ⟨char, head, digit.mpr finite⟩, isRead]
    exact nearest

/-- The literal of a float is read as its bits. -/
theorem read?_literal {bits : Nat} (below : bits < 2 ^ (format.width + 1)) :
    format.read? (format.literal bits) = some bits := by
  have magnitude := format.readMagnitude?_unsignedLiteral hasFraction hasExponents
    (format.magnitude_lt bits)
  rw [unsignedLiteral_magnitude] at magnitude
  have whole := format.withSign_magnitude below
  rw [read?.eq_def, toList_literal]
  cases sign : format.isNegative bits
  · obtain ⟨char, head, notMinus, notPlus, -⟩ := format.head_unsignedLiteral bits
    rw [sign] at whole
    simp only [Bool.false_eq_true, if_false, List.nil_append]
    split
    · rename_i same
      rw [same, List.head?_cons, Option.some_inj] at head
      exact absurd head.symm notMinus
    · rename_i same
      rw [same, List.head?_cons, Option.some_inj] at head
      exact absurd head.symm notPlus
    · rw [magnitude, Option.map_some, whole]
  · rw [sign] at whole
    simp [magnitude, whole]

/-- The literal of a float preserves its bits. -/
theorem isLossless_literal {bits : Nat} (below : bits < 2 ^ (format.width + 1)) :
    format.IsLossless bits (format.literal bits) where
  read := format.read?_literal hasFraction hasExponents below
  rounds finite := by
    rw [← biasedExponent_magnitude] at finite
    obtain ⟨decimal, isRead, nearest⟩ := format.exists_read?_unsignedLiteral hasFraction
      hasExponents (format.magnitude_lt bits) finite
    rw [unsignedLiteral_magnitude] at isRead
    refine ⟨_, decimal, format.toList_literal bits, isRead, ?_⟩
    rw [round?, nearest, Option.map_some, format.withSign_magnitude below]
  nearest negative number notNegative rounded := by
    have nearest := format.nearest?_of_round? rounded
    exact (format.rounds_of_nearest? hasFraction notNegative nearest).isNearest
      (format.nearest?_eq_some.mp nearest).2
  shortest finite nonzero negative decimal rounded := by
    have rounds := format.rounds_of_nearest? hasFraction decimal.value_nonneg
      (format.nearest?_of_round? rounded)
    rw [format.digitCount_literal finite nonzero, ← shortestDecimal_magnitude]
    exact format.length_shortestDecimal_le (by rwa [significand_magnitude]) rounds

end Formats

end FloatFormat

/-- The literals of floats preserve every bit pattern, so that no two of them have the same
literal. -/
theorem floatLiterals_lossless :
    (∀ bits : UInt32, FloatFormat.binary32.IsLossless bits.toNat (f32Literal bits)) ∧
    (∀ bits : UInt64, FloatFormat.binary64.IsLossless bits.toNat (f64Literal bits)) ∧
    Function.Injective f32Literal ∧
    Function.Injective f64Literal :=
  ⟨fun bits => FloatFormat.binary32.isLossless_literal (by decide) (by decide) bits.toNat_lt,
    fun bits => FloatFormat.binary64.isLossless_literal (by decide) (by decide) bits.toNat_lt,
    fun _ _ same => f32Literal_injective same,
    fun _ _ same => f64Literal_injective same⟩

end WebAssembly
