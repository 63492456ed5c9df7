import WebAssembly.Proofs.Float
import Mathlib.Algebra.Order.Floor.Semiring
import Mathlib.Data.Int.Log
import Mathlib.Data.Rat.Floor

/-!
# Rounding to a float

A number that is not negative is rounded by counting the last places that floats of its
size have in it, to the nearest natural number or, of two, to the even one. A count that
reaches the next power of two carries into the exponent.

The result is a float that no other one is nearer to, and it is the only one in whose
interval of `FloatFormat.Rounds` the number lies.
-/

namespace WebAssembly

/-- The natural number nearest to one that is not negative, and of two the even one. -/
def roundHalfEven (number : ℚ) : Nat :=
  let below := ⌊number⌋₊
  if number - below < 1 / 2 ∨ number - below = 1 / 2 ∧ below % 2 = 0 then below
  else below + 1

/-- A natural number is at most a half away from a number, and as far only if it is even. -/
structure IsHalfEven (rounded : Nat) (number : ℚ) : Prop where
  lower : rounded - 1 / 2 ≤ number
  upper : number ≤ rounded + 1 / 2
  even : number = rounded - 1 / 2 ∨ number = rounded + 1 / 2 → rounded % 2 = 0

/-- Rounding goes to the nearest integer, and to the even one halfway. -/
theorem isHalfEven_roundHalfEven {number : ℚ} (notNegative : 0 ≤ number) :
    IsHalfEven (roundHalfEven number) number := by
  have lower := Nat.floor_le notNegative
  have upper := Nat.lt_floor_add_one number
  rw [roundHalfEven]
  generalize ⌊number⌋₊ = below at lower upper
  split
  · rename_i down
    refine ⟨by linarith, ?_, ?_⟩
    · obtain less | ⟨half, -⟩ := down <;> linarith
    · rintro (same | same)
      · linarith
      · obtain less | ⟨-, even⟩ := down
        · linarith
        · exact even
  · rename_i up
    have atLeastHalf : 1 / 2 ≤ number - below := not_lt.mp fun less => up (.inl less)
    refine ⟨?_, ?_, ?_⟩
    · push_cast
      linarith
    · push_cast
      linarith
    · push_cast
      rintro (same | same)
      · have odd : below % 2 ≠ 0 := fun even => up (.inr ⟨by linarith, even⟩)
        omega
      · linarith

/-- Rounding does not go below an integer below. -/
theorem le_roundHalfEven {number : ℚ} {bound : Nat} (above : bound ≤ number) :
    bound ≤ roundHalfEven number := by
  have floor := Nat.le_floor above
  rw [roundHalfEven]
  split <;> omega

/-- Rounding does not go above an integer above. -/
theorem roundHalfEven_le
    {number : ℚ}
    (notNegative : 0 ≤ number)
    {bound : Nat}
    (below : number < bound) :
    roundHalfEven number ≤ bound := by
  have floor := (Nat.floor_lt notNegative).mpr below
  rw [roundHalfEven]
  split <;> omega

namespace FloatFormat

variable (format : FloatFormat)

/-! ## The nearest float -/

/-- The exponent of two of the last place of the smallest floats. -/
def leastPlace : Int := 1 - (format.bias + format.fractionBits : Nat)

/-- The exponent of two of the last place that the floats around a number have. -/
def placeNear (number : ℚ) : Int :=
  max format.leastPlace (Int.log 2 number - format.fractionBits)

/-- The bits of the float that a number rounds to, as if exponents had no end. -/
def nearest (number : ℚ) : Nat :=
  if number = 0 then 0
  else
    (format.placeNear number - format.leastPlace).toNat * 2 ^ format.fractionBits +
      roundHalfEven (number / 2 ^ format.placeNear number)

/-- The bits of the infinity, behind those of the finite numbers. -/
def infinity : Nat := format.specialExponent * 2 ^ format.fractionBits

/-- The bits of the finite float that a number rounds to, if it is not too great. -/
def nearest? (number : ℚ) : Option Nat :=
  if format.nearest number < format.infinity then some (format.nearest number) else none

theorem infinity_lt : format.infinity < 2 ^ format.width := by
  have less : format.specialExponent < 2 ^ format.exponentBits :=
    Nat.sub_lt (Nat.pow_pos (by decide)) (by decide)
  rw [infinity, width, pow_add, Nat.mul_comm]
  exact Nat.mul_lt_mul_of_pos_left less (Nat.pow_pos (by decide))

/-- A float without sign that is neither an infinity nor a NaN is one of those before the
infinity. -/
theorem lt_infinity
    {bits : Nat}
    (below : bits < 2 ^ format.width)
    (finite : format.biasedExponent bits ≠ format.specialExponent) :
    bits < format.infinity := by
  have exponent := Nat.mod_lt (bits / 2 ^ format.fractionBits)
    (Nat.pow_pos (by decide) : 0 < 2 ^ format.exponentBits)
  rw [← biasedExponent, format.biasedExponent_eq below] at exponent
  rw [format.biasedExponent_eq below, specialExponent] at finite
  rw [infinity, specialExponent]
  exact Nat.lt_mul_of_div_lt (by omega) (Nat.pow_pos (by decide))

/-- The special floats are infinity and those behind it, told apart by their fractions.
-/
theorem eq_infinity_add
    {bits : Nat}
    (below : bits < 2 ^ format.width)
    (special : format.biasedExponent bits = format.specialExponent) :
    bits = format.infinity + format.fraction bits := by
  rw [infinity, ← special, format.biasedExponent_eq below, fraction, Nat.mul_comm, Nat.div_add_mod]

/-- A number is rounded to the nearest float, unless this is infinite. -/
theorem nearest?_eq_some {number : ℚ} {bits : Nat} :
    format.nearest? number = some bits ↔
      format.nearest number = bits ∧ bits < format.infinity := by
  rw [nearest?]
  split
  · rw [Option.some_inj]
    constructor
    · rintro rfl
      exact ⟨rfl, by assumption⟩
    · exact fun same => same.1
  · rename_i tooGreat
    refine iff_of_false (by simp) ?_
    rintro ⟨rfl, finite⟩
    exact tooGreat finite

/-- The fields of a float that is some last places of one of its rows away from zero. -/
theorem fields_of_places
    {row places : Nat}
    (below : row * 2 ^ format.fractionBits + places < 2 ^ format.width)
    (lower : row = 0 ∨ 2 ^ format.fractionBits ≤ places)
    (upper : places < 2 * 2 ^ format.fractionBits) :
    format.significand (row * 2 ^ format.fractionBits + places) = places ∧
      format.lastPlace (row * 2 ^ format.fractionBits + places) = format.leastPlace + row ∧
      (format.hasNarrowGap (row * 2 ^ format.fractionBits + places) = true ↔
        places = 2 ^ format.fractionBits ∧ 0 < row) := by
  have exponent := format.biasedExponent_eq below
  have positive : 0 < 2 ^ format.fractionBits := Nat.pow_pos (by decide)
  simp only [significand, lastPlace, hasNarrowGap, exponent, fraction, leastPlace, Bool.and_eq_true,
    beq_iff_eq, decide_eq_true_eq]
  generalize 2 ^ format.fractionBits = size at *
  obtain small | large := Nat.lt_or_ge places size
  · obtain rfl : row = 0 := by omega
    have quotient : (0 * size + places) / size = 0 := by simpa using Nat.div_eq_of_lt small
    have rest : (0 * size + places) % size = places := by simpa using Nat.mod_eq_of_lt small
    rw [quotient, rest]
    refine ⟨rfl, by simp, by omega⟩
  · obtain ⟨fraction, rfl⟩ := Nat.exists_eq_add_of_le large
    obtain ⟨quotient, rest⟩ := (Nat.div_mod_unique positive).mpr
      ⟨show fraction + size * (row + 1) = row * size + (size + fraction) by ring,
        (by omega : fraction < size)⟩
    rw [quotient, rest]
    refine ⟨rfl, ?_, by omega⟩
    push_cast
    omega

/-- A number lies in the interval of a float, given in quarters of its last place. -/
theorem rounds_of_quarters
    {bits : Nat}
    {number quarters : ℚ}
    (scaled : number = quarters * format.quarter bits)
    (lower : format.lowQuarters bits ≤ quarters)
    (upper : quarters ≤ (4 * format.significand bits + 2 : Nat))
    (even :
      quarters = format.lowQuarters bits ∨ quarters = (4 * format.significand bits + 2 : Nat) →
        format.significand bits % 2 = 0) :
    format.Rounds bits number := by
  subst scaled
  exact (format.rounds_iff_of_unit (format.quarter_pos bits) rfl rfl).mpr ⟨lower, upper, even⟩

theorem rounds_zero : format.Rounds 0 0 := by
  have noSignificand : format.significand 0 = 0 := by simp [significand, biasedExponent, fraction]
  have low : format.lowQuarters 0 = 0 := by rw [lowQuarters, noSignificand]; simp
  refine format.rounds_of_quarters (zero_mul _).symm (by rw [low]; simp) (by positivity) ?_
  rw [noSignificand]
  exact fun _ => rfl

/-- No float has its last digit below the least place. -/
theorem leastPlace_le (number : ℚ) : format.leastPlace ≤ format.placeNear number :=
  le_max_left _ _

/-- The place of a number, and how many rows it lies above the least one. -/
theorem placeNear_eq (number : ℚ) :
    format.placeNear number =
      format.leastPlace + (format.placeNear number - format.leastPlace).toNat := by
  have above := format.leastPlace_le number
  omega

/-- A number has fewer of its last places than the next power of two. -/
theorem lt_of_placeNear (number : ℚ) :
    number / 2 ^ format.placeNear number < (2 * 2 ^ format.fractionBits : Nat) := by
  have below : number < 2 ^ (Int.log 2 number + 1) := Int.lt_zpow_succ_log_self (by decide) number
  have places :
      Int.log 2 number + 1 ≤ format.placeNear number + (format.fractionBits + 1 : Nat) := by
    have : Int.log 2 number - format.fractionBits ≤ format.placeNear number := le_max_right _ _
    push_cast
    omega
  rw [div_lt_iff₀ (by positivity)]
  calc
    number < 2 ^ (Int.log 2 number + 1) := below
    _ ≤ 2 ^ (format.placeNear number + (format.fractionBits + 1 : Nat)) :=
      zpow_le_zpow_right₀ (by norm_num) places
    _ = (2 * 2 ^ format.fractionBits : Nat) * 2 ^ format.placeNear number := by
      rw [zpow_add₀ (by norm_num), zpow_natCast]
      push_cast
      ring

/-- Above the least row, a number has as many of its last places as a power of two. -/
theorem le_of_placeNear
    {number : ℚ}
    (positive : 0 < number)
    (above : format.leastPlace < format.placeNear number) :
    (2 ^ format.fractionBits : Nat) ≤ number / 2 ^ format.placeNear number := by
  have lower : 2 ^ Int.log 2 number ≤ number := Int.zpow_log_le_self (by decide) positive
  have place : Int.log 2 number = format.placeNear number + format.fractionBits := by
    have : format.placeNear number = Int.log 2 number - format.fractionBits :=
      max_eq_right_of_lt ((lt_max_iff.mp above).resolve_left (lt_irrefl _))
    omega
  rw [le_div_iff₀ (by positivity)]
  rw [place, zpow_add₀ (by norm_num), zpow_natCast] at lower
  push_cast
  linarith

/-- The interval of a float begins half a last place below it, or a quarter if the gap
there is narrow, but not below zero. -/
theorem lowQuarters_cases (bits : Nat) :
    (format.hasNarrowGap bits = true ∧
        (format.lowQuarters bits : ℚ) = 4 * format.significand bits - 1) ∨
      (format.lowQuarters bits : ℚ) = 4 * format.significand bits - 2 ∨
      format.significand bits = 0 ∧ format.lowQuarters bits = 0 := by
  rw [lowQuarters]
  obtain zero | positive := Nat.eq_zero_or_pos (format.significand bits)
  · exact .inr (.inr ⟨zero, by rw [zero]; simp⟩)
  · cases narrow : format.hasNarrowGap bits
    · have enough : 2 ≤ 4 * format.significand bits := by omega
      exact .inr (.inl (by simp [Nat.cast_sub enough]))
    · have enough : 1 ≤ 4 * format.significand bits := by omega
      exact .inl ⟨rfl, by simp [Nat.cast_sub enough]⟩

/-- A count of last places rounds to a float of its row. -/
theorem rounds_of_places
    {row places : Nat}
    {count number : ℚ}
    (scaled : number = count * 2 ^ (format.leastPlace + row))
    (below : row * 2 ^ format.fractionBits + places < 2 ^ format.width)
    (lower : row = 0 ∨ (2 ^ format.fractionBits : Nat) ≤ count)
    (placesLower : row = 0 ∨ 2 ^ format.fractionBits ≤ places)
    (placesUpper : places < 2 * 2 ^ format.fractionBits)
    (notNegative : 0 ≤ count)
    (rounded : IsHalfEven places count) :
    format.Rounds (row * 2 ^ format.fractionBits + places) number := by
  obtain ⟨significand, lastPlace, narrow⟩ :=
    format.fields_of_places below placesLower placesUpper
  obtain ⟨atLeast, atMost, tie⟩ := rounded
  generalize row * 2 ^ format.fractionBits + places = bits at *
  have quarters : number = 4 * count * format.quarter bits := by
    rw [quarter, lastPlace, zpow_sub₀ (by norm_num), scaled]
    ring
  -- Below a narrow gap there are counts that round to the float, but none of this row.
  have atLow : format.lowQuarters bits ≤ 4 * count ∧
      (4 * count = format.lowQuarters bits → places % 2 = 0) := by
    obtain ⟨isNarrow, low⟩ | low | ⟨zero, low⟩ := format.lowQuarters_cases bits
    · obtain ⟨same, above⟩ := narrow.mp isNarrow
      have bound := lower.resolve_left above.ne'
      rw [low, significand, same]
      exact ⟨by linarith, fun atEnd => by linarith⟩
    · rw [low, significand]
      exact ⟨by linarith, fun atEnd => tie (.inl (by linarith))⟩
    · rw [significand] at zero
      rw [low, zero]
      exact ⟨by push_cast; linarith, fun _ => rfl⟩
  refine format.rounds_of_quarters quarters atLow.1 ?_ ?_
  · rw [significand]
    push_cast
    linarith
  · rw [significand]
    rintro (atEnd | atEnd)
    · exact atLow.2 atEnd
    · push_cast at atEnd
      exact tie (.inr (by linarith))

/-- A count of last places that reaches the next power of two carries to it. -/
theorem rounds_of_carry
    (hasFraction : 0 < format.fractionBits)
    {row : Nat}
    {count number : ℚ}
    (scaled : number = count * 2 ^ (format.leastPlace + row))
    (below : row * 2 ^ format.fractionBits + 2 * 2 ^ format.fractionBits < 2 ^ format.width)
    (atLeast : (2 * 2 ^ format.fractionBits : Nat) - 1 / 2 ≤ count)
    (atMost : count < (2 * 2 ^ format.fractionBits : Nat)) :
    format.Rounds (row * 2 ^ format.fractionBits + 2 * 2 ^ format.fractionBits) number := by
  have next : row * 2 ^ format.fractionBits + 2 * 2 ^ format.fractionBits =
      (row + 1) * 2 ^ format.fractionBits + 2 ^ format.fractionBits := by ring
  have positive : 0 < 2 ^ format.fractionBits := Nat.pow_pos (by decide)
  rw [next] at below ⊢
  obtain ⟨significand, lastPlace, narrow⟩ :=
    format.fields_of_places below (.inr le_rfl) (by omega)
  have isNarrow := narrow.mpr ⟨rfl, Nat.succ_pos row⟩
  generalize (row + 1) * 2 ^ format.fractionBits + 2 ^ format.fractionBits = bits at *
  have low : (format.lowQuarters bits : ℚ) = 4 * (2 ^ format.fractionBits : Nat) - 1 := by
    rw [lowQuarters, significand, isNarrow, if_pos rfl, Nat.cast_sub (by omega)]
    push_cast
    ring
  have even : 2 ^ format.fractionBits % 2 = 0 :=
    Nat.mod_eq_zero_of_dvd (dvd_pow_self 2 hasFraction.ne')
  have quarters : number = 2 * count * format.quarter bits := by
    have place : format.leastPlace + (row + 1 : Nat) = 1 + (format.leastPlace + row) := by
      push_cast
      ring
    rw [quarter, lastPlace, scaled, zpow_sub₀ (by norm_num), place,
      zpow_add₀ two_ne_zero 1 (format.leastPlace + row)]
    ring
  push_cast at atLeast atMost
  refine format.rounds_of_quarters quarters ?_ ?_ ?_
  · rw [low]
    push_cast
    linarith
  · rw [significand]
    push_cast
    linarith
  · rw [significand]
    exact fun _ => even

/-- Rounding leads to a float in whose interval the number lies. -/
theorem rounds_nearest
    (hasFraction : 0 < format.fractionBits)
    {number : ℚ}
    (notNegative : 0 ≤ number)
    (below : format.nearest number < 2 ^ format.width) :
    format.Rounds (format.nearest number) number := by
  obtain rfl | positive := notNegative.eq_or_lt
  · rw [nearest, if_pos rfl]
    exact format.rounds_zero
  rw [nearest, if_neg positive.ne'] at below ⊢
  have place := format.placeNear_eq number
  have upper := format.lt_of_placeNear number
  have lower : (format.placeNear number - format.leastPlace).toNat = 0 ∨
      (2 ^ format.fractionBits : Nat) ≤ number / 2 ^ format.placeNear number := by
    obtain least | above := Int.le_iff_lt_or_eq.mp (format.leastPlace_le number) |>.symm
    · exact .inl (by rw [← least, Int.sub_self, Int.toNat_zero])
    · exact .inr (format.le_of_placeNear positive above)
  have countPositive : 0 < number / 2 ^ format.placeNear number := by positivity
  have scaled : number = number / 2 ^ format.placeNear number * 2 ^ format.placeNear number := by
    rw [div_mul_cancel₀ _ (by positivity)]
  generalize (format.placeNear number - format.leastPlace).toNat = row at *
  generalize number / 2 ^ format.placeNear number = count at *
  have rounded := isHalfEven_roundHalfEven countPositive.le
  have placesUpper := roundHalfEven_le countPositive.le upper
  have placesLower := lower.imp_right le_roundHalfEven
  generalize roundHalfEven count = places at *
  rw [place] at scaled
  obtain inside | rfl := placesUpper.lt_or_eq
  · exact format.rounds_of_places scaled below lower placesLower inside countPositive.le rounded
  · exact format.rounds_of_carry hasFraction scaled below rounded.lower upper

/-- What is nearest to a number is what it rounds to. -/
theorem rounds_of_nearest?
    (hasFraction : 0 < format.fractionBits)
    {number : ℚ}
    (notNegative : 0 ≤ number)
    {bits : Nat}
    (nearest : format.nearest? number = some bits) :
    format.Rounds bits number := by
  obtain ⟨rfl, finite⟩ := format.nearest?_eq_some.mp nearest
  exact format.rounds_nearest hasFraction notNegative (finite.trans format.infinity_lt)

/-- A significand has one bit more than the fraction. -/
theorem significand_lt (bits : Nat) : format.significand bits < 2 * 2 ^ format.fractionBits := by
  have fraction : format.fraction bits < 2 ^ format.fractionBits :=
    Nat.mod_lt _ (Nat.pow_pos (by decide))
  rw [significand]
  split <;> omega

/-- The interval of a float ends below the double of the power of two below it. -/
theorem high_lt (bits : Nat) :
    format.high bits < 2 ^ (format.lastPlace bits + (format.fractionBits + 1 : Nat)) := by
  have significand := format.significand_lt bits
  have fewer : 4 * format.significand bits + 2 < 8 * 2 ^ format.fractionBits := by omega
  have eighth : (2 : ℚ) ^ (format.lastPlace bits + (format.fractionBits + 1 : Nat)) =
      (8 * 2 ^ format.fractionBits : Nat) * format.quarter bits := by
    rw [quarter, zpow_add₀ two_ne_zero, zpow_sub₀ two_ne_zero, zpow_natCast]
    push_cast
    ring
  rw [high, eighth]
  exact mul_lt_mul_of_pos_right (Nat.cast_lt.mpr fewer) (format.quarter_pos bits)

/-- The last place of a number is none above that of a float to which it rounds. -/
theorem placeNear_le_of_rounds
    {bits : Nat}
    {number : ℚ}
    (positive : 0 < number)
    (rounds : format.Rounds bits number) :
    format.placeNear number ≤ format.lastPlace bits := by
  have less : number < (2 : Nat) ^ (format.lastPlace bits + (format.fractionBits + 1 : Nat)) :=
    rounds.le_high.trans_lt (by exact_mod_cast format.high_lt bits)
  have log := (Int.lt_zpow_iff_log_lt (by decide) positive).mp less
  refine max_le ?_ ?_
  · rw [leastPlace, lastPlace]
    omega
  · push_cast at log
    omega

/-- What rounds to a finite float has no exponent that is too great. -/
theorem nearest_lt_of_rounds
    (hasExponents : 2 ≤ format.exponentBits)
    {bits : Nat}
    (finite : bits < format.infinity)
    {number : ℚ}
    (notNegative : 0 ≤ number)
    (rounds : format.Rounds bits number) :
    format.nearest number < 2 ^ format.width := by
  rw [nearest]
  obtain rfl | positive := notNegative.eq_or_lt
  · rw [if_pos rfl]
    exact Nat.pow_pos (by decide)
  rw [if_neg positive.ne']
  have place := format.placeNear_le_of_rounds positive rounds
  have places := roundHalfEven_le (by positivity) (format.lt_of_placeNear number)
  have exponent : format.biasedExponent bits < format.specialExponent := by
    rw [format.biasedExponent_eq (finite.trans format.infinity_lt)]
    exact Nat.div_lt_of_lt_mul (by rwa [Nat.mul_comm])
  have row : (format.placeNear number - format.leastPlace).toNat ≤
      max 1 (format.biasedExponent bits) - 1 := by
    rw [lastPlace] at place
    rw [leastPlace]
    omega
  have four : 2 ^ 2 ≤ 2 ^ format.exponentBits := Nat.pow_le_pow_right (by decide) hasExponents
  have rows : (format.placeNear number - format.leastPlace).toNat + 2 <
      2 ^ format.exponentBits := by
    rw [specialExponent] at exponent
    omega
  calc
    (format.placeNear number - format.leastPlace).toNat * 2 ^ format.fractionBits +
        roundHalfEven (number / 2 ^ format.placeNear number)
      ≤ ((format.placeNear number - format.leastPlace).toNat + 2) * 2 ^ format.fractionBits := by
        rw [Nat.add_mul]
        omega
    _ < 2 ^ format.exponentBits * 2 ^ format.fractionBits :=
      Nat.mul_lt_mul_of_pos_right rows (Nat.pow_pos (by decide))
    _ = 2 ^ format.width := by rw [width, pow_add, Nat.mul_comm]

/-- A number rounds to the finite float in whose interval it lies. -/
theorem nearest_eq_of_rounds
    (hasFraction : 0 < format.fractionBits)
    (hasExponents : 2 ≤ format.exponentBits)
    {bits : Nat}
    (finite : bits < format.infinity)
    {number : ℚ}
    (notNegative : 0 ≤ number)
    (rounds : format.Rounds bits number) :
    format.nearest number = bits := by
  have below := format.nearest_lt_of_rounds hasExponents finite notNegative rounds
  exact format.eq_of_rounds hasFraction below (finite.trans format.infinity_lt)
    (format.rounds_nearest hasFraction notNegative below) rounds

/-! ## Distances -/

/-- The number that a finite float is. -/
def value (bits : Nat) : ℚ := format.significand bits * 2 ^ format.lastPlace bits

/-- No finite float is nearer to a number, and one that is as near is odd unless this one is
even. What stands behind the greatest finite float is counted as the next power of two. -/
structure IsNearest (bits : Nat) (number : ℚ) : Prop where
  nearest : ∀ other ≤ format.infinity, |format.value bits - number| ≤ |format.value other - number|
  even : ∀ other ≤ format.infinity, other ≠ bits →
    |format.value other - number| = |format.value bits - number| → format.significand bits % 2 = 0

/-- A float and the next one differ by one in the last place. -/
theorem value_succ {bits : Nat} (below : bits + 1 < 2 ^ format.width) :
    format.value (bits + 1) = format.value bits + 2 ^ format.lastPlace bits := by
  rw [value, value]
  obtain ⟨-, samePlace, next⟩ | ⟨-, nextPlace, next⟩ := format.significand_succ below
  · rw [samePlace, next]
    push_cast
    ring
  · have double : 2 * (format.significand (bits + 1) : ℚ) = format.significand bits + 1 := by
      exact_mod_cast next
    rw [nextPlace, zpow_add₀ two_ne_zero, zpow_one, ← add_one_mul, ← double]
    ring

/-- Floats are ordered as their bits are. -/
theorem value_lt_value
    {first second : Nat}
    (less : first < second)
    (below : second < 2 ^ format.width) :
    format.value first < format.value second := by
  have lt_succ {bits : Nat} (below : bits + 1 < 2 ^ format.width) :
      format.value bits < format.value (bits + 1) := by
    rw [format.value_succ below]
    exact lt_add_of_pos_right _ (by positivity)
  induction second, less using Nat.le_induction with
  | base => exact lt_succ below
  | succ second more inductionHypothesis =>
      exact (inductionHypothesis (Nat.lt_of_succ_lt below)).trans (lt_succ below)

theorem value_le_value
    {first second : Nat}
    (notAfter : first ≤ second)
    (below : second < 2 ^ format.width) :
    format.value first ≤ format.value second := by
  obtain less | rfl := notAfter.lt_or_eq
  · exact (format.value_lt_value less below).le
  · exact le_rfl

/-- The interval of a float ends halfway to the next one. -/
theorem high_eq_midpoint {bits : Nat} (below : bits + 1 < 2 ^ format.width) :
    2 * format.high bits = format.value bits + format.value (bits + 1) := by
  rw [format.value_succ below, high, value, quarter, zpow_sub₀ two_ne_zero]
  push_cast
  ring

/-- A number that is not beyond the middle is no nearer to the far end than to the near
one. -/
theorem abs_sub_le_of_le_middle
    {near far number : ℚ}
    (apart : near < far)
    (inside : 2 * number ≤ near + far) :
    |near - number| ≤ |far - number| ∧
      (|far - number| = |near - number| → 2 * number = near + far) := by
  have ahead : 0 < far - number := by linarith
  rw [abs_of_pos ahead]
  obtain before | behind := le_total near number
  · rw [abs_of_nonpos (by linarith)]
    exact ⟨by linarith, fun same => by linarith⟩
  · rw [abs_of_nonneg (by linarith)]
    exact ⟨by linarith, fun same => by linarith⟩

/-- A float in whose interval a number lies is nearest to it. -/
theorem Rounds.isNearest
    {format : FloatFormat}
    {bits : Nat}
    (finite : bits < format.infinity)
    {number : ℚ}
    (rounds : format.Rounds bits number) :
    format.IsNearest bits number := by
  -- Every other float lies beyond the one next to it, halfway to which the interval ends.
  have compare (other : Nat) (inRange : other ≤ format.infinity) (different : other ≠ bits) :
      |format.value bits - number| ≤ |format.value other - number| ∧
        (|format.value other - number| = |format.value bits - number| →
          number = format.low bits ∨ number = format.high bits) := by
    have otherBelow := inRange.trans_lt format.infinity_lt
    obtain before | behind := different.lt_or_gt
    · have predecessor : bits - 1 + 1 = bits := by omega
      have bitsBelow : bits - 1 + 1 < 2 ^ format.width := by
        rw [predecessor]
        exact finite.trans format.infinity_lt
      have halfway := format.high_eq_midpoint bitsBelow
      rw [← format.low_succ bitsBelow, predecessor] at halfway
      have beyond := format.value_le_value (show other ≤ bits - 1 by omega) (by omega)
      have apart := format.value_lt_value before (finite.trans format.infinity_lt)
      have inside := rounds.low_le
      obtain ⟨nearer, same⟩ := abs_sub_le_of_le_middle (neg_lt_neg apart)
        (show 2 * -number ≤ -format.value bits + -format.value other by linarith)
      rw [neg_sub_neg, neg_sub_neg, abs_sub_comm, abs_sub_comm number] at nearer same
      exact ⟨nearer, fun equal => .inl (by linarith [same equal])⟩
    · have bitsBelow : bits + 1 < 2 ^ format.width := by omega
      have halfway := format.high_eq_midpoint bitsBelow
      have beyond := format.value_le_value (show bits + 1 ≤ other by omega) otherBelow
      have apart := format.value_lt_value behind otherBelow
      have inside := rounds.le_high
      obtain ⟨nearer, same⟩ := abs_sub_le_of_le_middle apart
        (show 2 * number ≤ format.value bits + format.value other by linarith)
      exact ⟨nearer, fun equal => .inr (by linarith [same equal])⟩
  constructor
  · intro other inRange
    obtain rfl | different := eq_or_ne other bits
    · exact le_rfl
    · exact (compare other inRange different).1
  · intro other inRange different same
    exact rounds.even ((compare other inRange different).2 same)

end FloatFormat

end WebAssembly
