import WebAssembly.Proofs.Literals
import Mathlib.Algebra.Order.Field.Power
import Mathlib.Algebra.Order.Field.Rat
import Mathlib.Data.List.TakeWhile
import Mathlib.Tactic.FieldSimp
import Mathlib.Tactic.IntervalCases
import Mathlib.Tactic.Linarith
import Mathlib.Tactic.NormNum
import Mathlib.Tactic.Positivity
import Mathlib.Tactic.Ring

/-!
# Float literals

A float is determined by its literal. The decimal that stands for a finite number
rounds to it, and no number rounds to two floats: the numbers that round to a float
end where those that round to the next one begin, and the end belongs to one of the
two at most, as only one of two neighbours is even.
-/

namespace WebAssembly

/-! ## Decimals -/

namespace Decimal

/-- The number that a decimal is. -/
def value (decimal : Decimal) : ℚ := decimal.coefficient * 10 ^ decimal.exponent

theorem value_nonneg (decimal : Decimal) : 0 ≤ decimal.value := by
  rw [value]
  positivity

namespace Interval

/-- The test for an interval looks at its ends only if they belong to it. -/
theorem contains_iff (interval : Interval) (number : Nat) :
    interval.contains number = true ↔
      interval.low ≤ number ∧ number ≤ interval.high ∧
        (number = interval.low ∨ number = interval.high → interval.closed = true) := by
  cases closed : interval.closed
  · simp [contains, closed]
    omega
  · simp [contains, closed]

/-- What is found next to the value lies in the interval, one step away at most. -/
theorem contains_of_neighbour?
    {interval : Interval}
    {step coefficient : Nat}
    (hit : interval.neighbour? step = some coefficient) :
    interval.contains (coefficient * step) = true ∧ coefficient ≤ interval.value / step + 1 := by
  simp only [neighbour?] at hit
  split at hit
  · split at hit <;> (obtain rfl := Option.some.inj hit; exact ⟨by assumption, by omega⟩)
  · obtain rfl := Option.some.inj hit
    exact ⟨by assumption, by omega⟩
  · obtain rfl := Option.some.inj hit
    exact ⟨by assumption, by omega⟩
  · cases hit

/-- What is found lies in the interval, if the value does, and on no coarser grid there is
anything next to the value. -/
theorem shortestFrom_spec
    {interval : Interval}
    (inside : interval.contains interval.value = true)
    (places : Nat) :
    ∃ exponent ≤ places, (interval.shortestFrom places).exponent = exponent ∧
      interval.contains ((interval.shortestFrom places).coefficient * 10 ^ exponent) = true ∧
      (interval.shortestFrom places).coefficient ≤ interval.value / 10 ^ exponent + 1 ∧
      (exponent < places → interval.neighbour? (10 ^ (exponent + 1)) = none) := by
  induction places with
  | zero =>
      exact ⟨0, le_rfl, rfl, by simpa [shortestFrom] using inside, by simp [shortestFrom],
        fun less => absurd less (lt_irrefl 0)⟩
  | succ places inductionHypothesis =>
      rw [shortestFrom]
      split
      · rename_i coefficient hit
        obtain ⟨contained, near⟩ := contains_of_neighbour? hit
        exact ⟨places + 1, le_rfl, rfl, contained, near, fun less => (less.ne rfl).elim⟩
      · rename_i noHit
        obtain ⟨exponent, notMore, same, contained, near, coarser⟩ := inductionHypothesis
        refine ⟨exponent, Nat.le_succ_of_le notMore, same, contained, near, fun less => ?_⟩
        obtain less | rfl := Nat.lt_succ_iff_lt_or_eq.mp less
        · exact coarser less
        · exact noHit

/-- A rational number lies in the interval, to which its ends belong if it is closed. -/
structure Holds (interval : Interval) (number : ℚ) : Prop where
  low_le : interval.low ≤ number
  le_high : number ≤ interval.high
  closed : number = interval.low ∨ number = interval.high → interval.closed = true

/-- What the test decides is whether the interval holds. -/
theorem contains_iff_holds (interval : Interval) (number : Nat) :
    interval.contains number = true ↔ interval.Holds number := by
  rw [contains_iff]
  constructor
  · rintro ⟨lowLe, leHigh, closed⟩
    exact ⟨by exact_mod_cast lowLe, by exact_mod_cast leHigh, by exact_mod_cast closed⟩
  · rintro ⟨lowLe, leHigh, closed⟩
    exact ⟨by exact_mod_cast lowLe, by exact_mod_cast leHigh, by exact_mod_cast closed⟩

end Interval

/-- The digits of a number are the significant ones and some zeros. -/
theorem exists_zeros (number : Nat) :
    ∃ zeros, Nat.toDigits 10 number = significantDigits number ++ List.replicate zeros '0' := by
  have split := congrArg List.reverse
    (List.takeWhile_append_dropWhile (p := (· == '0')) (l := (Nat.toDigits 10 number).reverse))
  have zeros := List.eq_replicate_of_mem (a := '0')
    (l := (Nat.toDigits 10 number).reverse.takeWhile (· == '0'))
    fun char among => by simpa using List.mem_takeWhile_imp among
  rw [List.reverse_append, List.reverse_reverse, zeros, List.reverse_replicate] at split
  exact ⟨_, split.symm⟩

/-- A number is what its significant digits spell, with as many zeros behind them. -/
theorem eq_of_zeros
    {number zeros : Nat}
    (split : Nat.toDigits 10 number = significantDigits number ++ List.replicate zeros '0') :
    number = 10 ^ zeros * Nat.ofDigitChars 10 (significantDigits number) 0 := by
  rw [← Nat.ofDigitChars_replicate_zero, ← Nat.ofDigitChars_append, ← split,
    Nat.ofDigitChars_ten_toDigits]

theorem bne_point_of_mem_significantDigits
    {number : Nat}
    {char : Char}
    (among : char ∈ significantDigits number) :
    (char != '.') = true := by
  have digits : ∀ digit < 10, (Nat.digitChar digit != '.') = true := by decide
  obtain ⟨digit, below, rfl⟩ := exists_digitChar_of_mem_significantDigits among
  exact digits digit below

/-- The digits that a mantissa shows. -/
def shownDigits (digits : List Char) : List Char := (mantissa digits).filter (· != '.')

/-- Without a point, all characters are shown as digits. -/
theorem shownDigits_cons
    {first : Char}
    {others : List Char}
    (notPoint : ∀ char ∈ first :: others, (char != '.') = true) :
    shownDigits (first :: others) = first :: others := by
  have firstNotPoint := notPoint first List.mem_cons_self
  have othersKept : others.filter (· != '.') = others :=
    List.filter_eq_self.mpr fun char among => notPoint char (List.mem_cons_of_mem _ among)
  cases others with
  | nil => simp [shownDigits, mantissa, firstNotPoint]
  | cons second rest =>
      rw [shownDigits, mantissa_cons_cons, List.filter_cons, if_pos firstNotPoint,
        List.filter_cons_of_neg (by decide), othersKept]

/-- A decimal is the number that its mantissa and its exponent spell. -/
theorem value_eq (decimal : Decimal) :
    decimal.value =
      (Nat.ofDigitChars 10 (shownDigits (significantDigits decimal.coefficient)) 0 : ℚ) *
        10 ^ (decimal.leadingExponent + 1 -
          (shownDigits (significantDigits decimal.coefficient)).length) := by
  obtain ⟨zeros, split⟩ := exists_zeros decimal.coefficient
  have number := eq_of_zeros split
  cases digits : significantDigits decimal.coefficient with
  | nil =>
      rw [digits, Nat.ofDigitChars_nil, Nat.mul_zero] at number
      have shown : Nat.ofDigitChars 10 (shownDigits []) 0 = 0 := by decide
      rw [value, number, shown]
      simp
  | cons first others =>
      have notPoint : ∀ char ∈ first :: others, (char != '.') = true := fun char among =>
        bne_point_of_mem_significantDigits (digits ▸ among)
      rw [shownDigits_cons notPoint, ← digits]
      have places : decimal.leadingExponent + 1 -
          (significantDigits decimal.coefficient).length = decimal.exponent + zeros := by
        rw [leadingExponent, split, List.length_append, List.length_replicate, digits,
          List.length_cons]
        omega
      rw [places, zpow_add₀ (by norm_num), zpow_natCast, value]
      nth_rewrite 1 [number]
      push_cast
      ring

/-- No character in front of the exponent is the mark of the exponent. -/
theorem mark_notMem_mantissa (number : Nat) : 'e' ∉ mantissa (significantDigits number) := by
  intro among
  have digits : ∀ digit < 10, 'e' ≠ Nat.digitChar digit := by decide
  obtain isPoint | ⟨digit, below, same⟩ := mem_mantissa among
  · exact absurd isPoint (by decide)
  · exact digits digit below same

theorem mark_notMem_integer (number : Int) : 'e' ∉ (toString number).toList := by
  have natural (number : Nat) : 'e' ∉ (toString number).toList := by
    rw [Nat.toString_eq_repr, Nat.toList_repr]
    exact fun among =>
      absurd (Nat.isDigit_of_mem_toDigits (by decide) (Nat.le_refl 10) among) (by decide)
  cases number with
  | ofNat number => exact natural number
  | negSucc number =>
      have spelled : toString (Int.negSucc number) = "-" ++ toString (number + 1) := rfl
      rw [spelled, String.toList_append]
      exact List.not_mem_append (by decide) (natural _)

/-- Decimals that are spelled alike are the same number. -/
theorem scientific_injective
    {first second : Decimal}
    (same : first.scientific = second.scientific) :
    first.value = second.value := by
  have sameChars := congrArg String.toList same
  rw [toList_scientific, toList_scientific,
    List.append_cons_inj_of_notMem (mark_notMem_mantissa _) (mark_notMem_integer _)] at sameChars
  obtain ⟨sameMantissa, -, sameExponent⟩ := sameChars
  have sameShown : shownDigits (significantDigits first.coefficient) =
      shownDigits (significantDigits second.coefficient) := by
    rw [shownDigits, sameMantissa, shownDigits]
  rw [value_eq, value_eq, sameShown,
    Token.toString_int_injective (String.toList_inj.mp sameExponent)]

end Decimal

namespace FloatFormat

variable (format : FloatFormat)

/-! ## Rounding -/

/-- A power of two has a positive coefficient. -/
theorem powerOfTwo_pos (exponent : Int) : 0 < (powerOfTwo exponent).1 := by
  cases exponent with
  | ofNat exponent => exact Nat.pow_pos (by decide)
  | negSucc exponent => exact Nat.pow_pos (by decide)

/-- A power of two is what its coefficient and its exponent say. -/
theorem powerOfTwo_eq (exponent : Int) :
    ((powerOfTwo exponent).1 : ℚ) * 10 ^ (powerOfTwo exponent).2 = 2 ^ exponent := by
  cases exponent with
  | ofNat exponent => simp [powerOfTwo]
  | negSucc exponent =>
      have factors : (10 : ℚ) ^ (exponent + 1) = 5 ^ (exponent + 1) * 2 ^ (exponent + 1) := by
        rw [← mul_pow]
        norm_num
      simp only [powerOfTwo, zpow_negSucc, factors]
      push_cast
      field_simp

/-- A quarter of the last place of a finite number. -/
def quarter (bits : Nat) : ℚ := 2 ^ (format.lastPlace bits - 2)

theorem quarter_pos (bits : Nat) : 0 < format.quarter bits := by
  rw [quarter]
  positivity

/-- The quarters below the least number that may round to a finite one. -/
def lowQuarters (bits : Nat) : Nat :=
  4 * format.significand bits - if format.hasNarrowGap bits then 1 else 2

/-- The least number that may round to a finite one. -/
def low (bits : Nat) : ℚ := format.lowQuarters bits * format.quarter bits

/-- The greatest number that may round to a finite one. -/
def high (bits : Nat) : ℚ := (4 * format.significand bits + 2 : Nat) * format.quarter bits

/-- The interval of a float is not empty. -/
theorem low_lt_high (bits : Nat) : format.low bits < format.high bits := by
  have fewer : format.lowQuarters bits < 4 * format.significand bits + 2 := by
    rw [lowQuarters]
    omega
  exact mul_lt_mul_of_pos_right (Nat.cast_lt.mpr fewer) (format.quarter_pos bits)

/-- A number rounds to a finite one, which is even if the number is halfway to
another. -/
structure Rounds (bits : Nat) (number : ℚ) : Prop where
  low_le : format.low bits ≤ number
  le_high : number ≤ format.high bits
  even : number = format.low bits ∨ number = format.high bits → format.significand bits % 2 = 0

/-- Whether a number rounds to a float may be told in any unit. -/
theorem rounds_iff_of_unit
    {bits : Nat}
    {unit low high number : ℚ}
    (positive : 0 < unit)
    (lowUnits : format.low bits = low * unit)
    (highUnits : format.high bits = high * unit) :
    format.Rounds bits (number * unit) ↔
      low ≤ number ∧ number ≤ high ∧
        (number = low ∨ number = high → format.significand bits % 2 = 0) := by
  constructor
  · rintro ⟨lowLe, leHigh, even⟩
    rw [lowUnits] at lowLe even
    rw [highUnits] at leHigh even
    rw [mul_left_inj' positive.ne', mul_left_inj' positive.ne'] at even
    exact ⟨le_of_mul_le_mul_right lowLe positive, le_of_mul_le_mul_right leHigh positive, even⟩
  · rintro ⟨lowLe, leHigh, even⟩
    constructor
    · rw [lowUnits]
      exact mul_le_mul_of_nonneg_right lowLe positive.le
    · rw [highUnits]
      exact mul_le_mul_of_nonneg_right leHigh positive.le
    · rwa [lowUnits, highUnits, mul_left_inj' positive.ne', mul_left_inj' positive.ne']

/-- A float lies in its own interval. -/
theorem contains_value (bits : Nat) :
    (format.roundingInterval bits).1.contains (format.roundingInterval bits).1.value = true := by
  have positive := powerOfTwo_pos (format.lastPlace bits - 2)
  have lowLe : format.lowQuarters bits ≤ 4 * format.significand bits := Nat.sub_le _ _
  rw [Decimal.Interval.contains_iff]
  refine ⟨Nat.mul_le_mul_right _ lowLe, Nat.mul_le_mul_right _ (by omega), fun ends => ?_⟩
  -- Only zero is an end of its own interval.
  obtain atLow | atHigh := ends
  · have same : 4 * format.significand bits = format.lowQuarters bits :=
      Nat.eq_of_mul_eq_mul_right positive atLow
    have isZero : format.significand bits = 0 := by
      rw [lowQuarters] at same
      split at same <;> omega
    exact beq_iff_eq.mpr (by rw [isZero])
  · have same : 4 * format.significand bits = 4 * format.significand bits + 2 :=
      Nat.eq_of_mul_eq_mul_right positive atHigh
    omega

theorem low_eq (bits : Nat) :
    format.low bits =
      (format.roundingInterval bits).1.low * 10 ^ (format.roundingInterval bits).2 := by
  rw [low, quarter, ← powerOfTwo_eq, ← mul_assoc, ← Nat.cast_mul]
  rfl

theorem high_eq (bits : Nat) :
    format.high bits =
      (format.roundingInterval bits).1.high * 10 ^ (format.roundingInterval bits).2 := by
  rw [high, quarter, ← powerOfTwo_eq, ← mul_assoc, ← Nat.cast_mul]
  rfl

/-- The interval of a float is that of the numbers that round to it, in units. -/
theorem rounds_iff_holds (bits : Nat) (number : ℚ) :
    format.Rounds bits (number * 10 ^ (format.roundingInterval bits).2) ↔
      (format.roundingInterval bits).1.Holds number := by
  have closed : (format.roundingInterval bits).1.closed = true ↔
      format.significand bits % 2 = 0 := beq_iff_eq
  rw [format.rounds_iff_of_unit (by positivity) (format.low_eq bits) (format.high_eq bits),
    ← closed]
  constructor
  · rintro ⟨lowLe, leHigh, ends⟩
    exact ⟨lowLe, leHigh, ends⟩
  · rintro ⟨lowLe, leHigh, ends⟩
    exact ⟨lowLe, leHigh, ends⟩

/-- The shortest decimal, in the unit of its interval. -/
theorem value_shortestDecimal (bits : Nat) :
    (format.shortestDecimal bits).value =
      (format.roundingInterval bits).1.shortest.value * 10 ^ (format.roundingInterval bits).2 := by
  have value : (format.shortestDecimal bits).value =
      (format.roundingInterval bits).1.shortest.coefficient *
        10 ^ ((format.roundingInterval bits).1.shortest.exponent +
          (format.roundingInterval bits).2) := rfl
  rw [value, zpow_add₀ (by norm_num), ← mul_assoc, Decimal.value]

/-- The shortest decimal of a number rounds to it. -/
theorem rounds_shortestDecimal (bits : Nat) :
    format.Rounds bits (format.shortestDecimal bits).value := by
  rw [value_shortestDecimal, rounds_iff_holds]
  obtain ⟨places, -, sameExponent, contained, -⟩ :=
    Decimal.Interval.shortestFrom_spec (format.contains_value bits)
      ((Nat.toDigits 10 (format.roundingInterval bits).1.value).length - 1)
  rw [Decimal.value, Decimal.Interval.shortest, sameExponent, zpow_natCast]
  rw [Decimal.Interval.contains_iff_holds] at contained
  exact_mod_cast contained

/-! ## Neighbours -/

/-- The number of bits of a float without its sign. -/
def width : Nat := format.fractionBits + format.exponentBits

/-- The exponent field is what stands above the fraction. -/
theorem biasedExponent_eq {bits : Nat} (below : bits < 2 ^ format.width) :
    format.biasedExponent bits = bits / 2 ^ format.fractionBits := by
  rw [biasedExponent]
  apply Nat.mod_eq_of_lt
  apply Nat.div_lt_of_lt_mul
  rwa [← pow_add]

/-- The next float has the next fraction, or none and the next exponent. -/
theorem fields_succ {bits : Nat} (below : bits + 1 < 2 ^ format.width) :
    (format.fraction (bits + 1) = format.fraction bits + 1 ∧
      format.biasedExponent (bits + 1) = format.biasedExponent bits) ∨
    (format.fraction bits + 1 = 2 ^ format.fractionBits ∧ format.fraction (bits + 1) = 0 ∧
      format.biasedExponent (bits + 1) = format.biasedExponent bits + 1) := by
  rw [format.biasedExponent_eq below, format.biasedExponent_eq (Nat.lt_of_succ_lt below), fraction,
    fraction]
  have positive : 0 < 2 ^ format.fractionBits := Nat.pow_pos (by decide)
  generalize 2 ^ format.fractionBits = size at positive
  have split := Nat.mod_add_div bits size
  have rest := Nat.mod_lt bits positive
  obtain inside | last : bits % size + 1 < size ∨ bits % size + 1 = size := by omega
  · obtain ⟨sameExponent, sameFraction⟩ := (Nat.div_mod_unique positive).mpr
      ⟨show bits % size + 1 + size * (bits / size) = bits + 1 by omega, inside⟩
    exact .inl ⟨sameFraction, sameExponent⟩
  · obtain ⟨sameExponent, sameFraction⟩ := (Nat.div_mod_unique positive).mpr
      ⟨show 0 + size * (bits / size + 1) = bits + 1 by rw [Nat.mul_add]; omega, positive⟩
    exact .inr ⟨last, sameFraction, sameExponent⟩

/-- From one float to the next, the significand goes on by one, or it starts again with
half as many of the next last place, and the gap below is narrow. -/
theorem significand_succ {bits : Nat} (below : bits + 1 < 2 ^ format.width) :
    (format.hasNarrowGap (bits + 1) = false ∧
      format.lastPlace (bits + 1) = format.lastPlace bits ∧
      format.significand (bits + 1) = format.significand bits + 1) ∨
    (format.hasNarrowGap (bits + 1) = true ∧
      format.lastPlace (bits + 1) = format.lastPlace bits + 1 ∧
      2 * format.significand (bits + 1) = format.significand bits + 1) := by
  obtain ⟨sameFraction, sameExponent⟩ | ⟨last, noFraction, nextExponent⟩ :=
    format.fields_succ below
  · refine .inl ⟨?_, ?_, ?_⟩
    · simp [hasNarrowGap, sameFraction]
    · rw [lastPlace, lastPlace, sameExponent]
    · rw [significand, significand, sameExponent, sameFraction]
      split <;> rfl
  -- The least exponent is that of two rows of floats, which have the same last place.
  obtain least | more := Nat.eq_zero_or_pos (format.biasedExponent bits)
  · refine .inl ⟨?_, ?_, ?_⟩
    · simp [hasNarrowGap, nextExponent, least]
    · rw [lastPlace, lastPlace, nextExponent, least]
      rfl
    · rw [significand, significand, nextExponent, noFraction, least, if_pos rfl,
        if_neg (by decide), last, Nat.add_zero]
  · refine .inr ⟨?_, ?_, ?_⟩
    · simp [hasNarrowGap, noFraction, nextExponent, more]
    · rw [lastPlace, lastPlace, nextExponent]
      omega
    · rw [significand, significand, nextExponent, noFraction, if_neg (by omega),
        if_neg (by omega), ← last]
      omega

/-- The numbers that round to a float end where those begin that round to the next. -/
theorem low_succ {bits : Nat} (below : bits + 1 < 2 ^ format.width) :
    format.low (bits + 1) = format.high bits := by
  obtain ⟨notNarrow, samePlace, next⟩ | ⟨narrow, nextPlace, next⟩ := format.significand_succ below
  · rw [low, high, quarter, quarter, samePlace, lowQuarters, notNarrow, next]
    congr 2
  · have places : format.lastPlace (bits + 1) - 2 = 1 + (format.lastPlace bits - 2) := by omega
    have quarters : 2 * format.lowQuarters (bits + 1) = 4 * format.significand bits + 2 := by
      rw [lowQuarters, narrow, if_pos rfl]
      omega
    rw [low, high, quarter, quarter, places, zpow_add₀ (by norm_num), zpow_one, ← quarters]
    push_cast
    ring

/-- The intervals of different floats meet at an end at most. -/
theorem high_le_low
    {first second : Nat}
    (less : first < second)
    (below : second < 2 ^ format.width) :
    format.high first ≤ format.low second := by
  induction second, less using Nat.le_induction with
  | base => exact (format.low_succ below).ge
  | succ second more inductionHypothesis =>
      rw [format.low_succ below]
      exact (inductionHypothesis (by omega)).trans (format.low_lt_high second).le

/-- A significand is even exactly if the bits are. -/
theorem significand_mod_two (hasFraction : 0 < format.fractionBits) (bits : Nat) :
    format.significand bits % 2 = bits % 2 := by
  have even : 2 ∣ 2 ^ format.fractionBits := dvd_pow_self 2 hasFraction.ne'
  have sameFraction : format.fraction bits % 2 = bits % 2 := Nat.mod_mod_of_dvd bits even
  rw [significand]
  split
  · exact sameFraction
  · rw [Nat.add_mod, Nat.mod_eq_zero_of_dvd even, sameFraction, Nat.zero_add, Nat.mod_mod]

/-- A number rounds to one float only. -/
theorem not_rounds_of_lt
    (hasFraction : 0 < format.fractionBits)
    {first second : Nat}
    (less : first < second)
    (below : second < 2 ^ format.width)
    {number : ℚ}
    (roundsFirst : format.Rounds first number)
    (roundsSecond : format.Rounds second number) :
    False := by
  have apart := format.high_le_low less below
  have atFirst : number = format.high first :=
    le_antisymm roundsFirst.le_high (apart.trans roundsSecond.low_le)
  have atSecond : number = format.low second :=
    le_antisymm (roundsFirst.le_high.trans apart) roundsSecond.low_le
  have firstEven := roundsFirst.even (.inr atFirst)
  have secondEven := roundsSecond.even (.inl atSecond)
  rw [significand_mod_two _ hasFraction] at firstEven secondEven
  -- Between two even floats there is another one, to which some numbers round.
  have next : first + 1 < second := by omega
  have between := format.high_le_low next below
  rw [← atSecond, atFirst, ← format.low_succ (next.trans below)] at between
  exact absurd (format.low_lt_high (first + 1)) between.not_gt

/-- No number rounds to two floats. -/
theorem eq_of_rounds
    (hasFraction : 0 < format.fractionBits)
    {first second : Nat}
    (firstBelow : first < 2 ^ format.width)
    (secondBelow : second < 2 ^ format.width)
    {number : ℚ}
    (roundsFirst : format.Rounds first number)
    (roundsSecond : format.Rounds second number) :
    first = second := by
  obtain less | same | more := Nat.lt_trichotomy first second
  · exact (format.not_rounds_of_lt hasFraction less secondBelow roundsFirst roundsSecond).elim
  · exact same
  · exact (format.not_rounds_of_lt hasFraction more firstBelow roundsSecond roundsFirst).elim

/-! ## Literals -/

/-- The bits of a float without its sign. -/
def magnitude (bits : Nat) : Nat := bits % 2 ^ format.width

/-- Without its sign, a float has one bit less. -/
theorem magnitude_lt (bits : Nat) : format.magnitude bits < 2 ^ format.width :=
  Nat.mod_lt _ (Nat.pow_pos (by decide))

theorem fraction_magnitude (bits : Nat) :
    format.fraction (format.magnitude bits) = format.fraction bits := by
  rw [fraction, magnitude, width, pow_add, Nat.mod_mul_right_mod, fraction]

theorem biasedExponent_magnitude (bits : Nat) :
    format.biasedExponent (format.magnitude bits) = format.biasedExponent bits := by
  rw [biasedExponent, magnitude, width, pow_add, Nat.mod_mul_right_div_self, Nat.mod_mod,
    biasedExponent]

theorem significand_magnitude (bits : Nat) :
    format.significand (format.magnitude bits) = format.significand bits := by
  rw [significand, fraction_magnitude, biasedExponent_magnitude, significand]

/-- The digits of a float do not depend on its sign. -/
theorem shortestDecimal_magnitude (bits : Nat) :
    format.shortestDecimal (format.magnitude bits) = format.shortestDecimal bits := by
  rw [shortestDecimal, roundingInterval, hasNarrowGap, lastPlace, significand_magnitude,
    fraction_magnitude, biasedExponent_magnitude]
  rfl

/-- The sign is no part of the literal behind it. -/
theorem unsignedLiteral_magnitude (bits : Nat) :
    format.unsignedLiteral (format.magnitude bits) = format.unsignedLiteral bits := by
  rw [unsignedLiteral, significand_magnitude, shortestDecimal_magnitude, fraction_magnitude,
    biasedExponent_magnitude, unsignedLiteral]

/-- The bits of a float with a sign. -/
def withSign (negative : Bool) (magnitude : Nat) : Nat :=
  negative.toNat * 2 ^ format.width + magnitude

/-- Sign and magnitude make the float. -/
theorem withSign_magnitude {bits : Nat} (below : bits < 2 ^ (format.width + 1)) :
    format.withSign (format.isNegative bits) (format.magnitude bits) = bits := by
  have quotient : bits / 2 ^ format.width < 2 := Nat.div_lt_of_lt_mul (by rwa [← pow_succ])
  have sign : (format.isNegative bits).toNat = bits / 2 ^ format.width := by
    have isSign : format.isNegative bits = (bits / 2 ^ format.width % 2 == 1) := rfl
    rw [isSign, Nat.mod_eq_of_lt quotient]
    generalize bits / 2 ^ format.width = digit at quotient
    interval_cases digit <;> rfl
  rw [withSign, sign, magnitude, Nat.mul_comm, Nat.div_add_mod]

/-- A sign that is put on a magnitude does not change it. -/
theorem magnitude_withSign
    {negative : Bool}
    {magnitude : Nat}
    (below : magnitude < 2 ^ format.width) :
    format.magnitude (format.withSign negative magnitude) = magnitude := by
  rw [FloatFormat.magnitude, withSign, Nat.mul_add_mod_self_right, Nat.mod_eq_of_lt below]

/-- A float without sign is its fraction and its exponent. -/
theorem eq_of_fields
    {first second : Nat}
    (firstBelow : first < 2 ^ format.width)
    (secondBelow : second < 2 ^ format.width)
    (sameExponent : format.biasedExponent first = format.biasedExponent second)
    (sameFraction : format.fraction first = format.fraction second) :
    first = second := by
  rw [format.biasedExponent_eq firstBelow, format.biasedExponent_eq secondBelow] at sameExponent
  rw [fraction, fraction] at sameFraction
  rw [← Nat.div_add_mod first (2 ^ format.fractionBits), sameExponent, sameFraction,
    Nat.div_add_mod]

/-- The literal of a finite number is that of a decimal that rounds to it. -/
theorem exists_rounds
    {bits : Nat}
    (finite : format.biasedExponent bits ≠ format.specialExponent) :
    ∃ decimal : Decimal, format.unsignedLiteral bits = decimal.scientific ∧
      format.Rounds bits decimal.value := by
  rw [unsignedLiteral, if_neg finite]
  split
  · rename_i isZero
    have positive := format.quarter_pos bits
    refine ⟨⟨0, 0⟩, by decide, ?_, ?_, fun _ => by rw [isZero]⟩
    · rw [low, lowQuarters, isZero]
      simp [Decimal.value]
    · rw [high, isZero, Decimal.value]
      simpa using positive.le
  · exact ⟨_, rfl, format.rounds_shortestDecimal bits⟩

/-- The first character of a literal without sign tells whether it is finite. -/
theorem head_unsignedLiteral (bits : Nat) :
    ∃ char, (format.unsignedLiteral bits).toList.head? = some char ∧ char ≠ '-' ∧ char ≠ '+' ∧
      (char.isDigit = true ↔ format.biasedExponent bits ≠ format.specialExponent) := by
  by_cases finite : format.biasedExponent bits = format.specialExponent
  · rw [unsignedLiteral, if_pos finite]
    split
    · exact ⟨'i', by simp, by decide, by decide, by simp [finite]⟩
    · exact ⟨'n', by simp, by decide, by decide, by simp [finite]⟩
  · have digits : ∀ digit < 10, Nat.digitChar digit ≠ '-' ∧ Nat.digitChar digit ≠ '+' ∧
        (Nat.digitChar digit).isDigit = true := by
      decide
    obtain ⟨decimal, same, -⟩ := format.exists_rounds finite
    obtain ⟨digit, below, head⟩ := decimal.head_scientific
    obtain ⟨notMinus, notPlus, isDigit⟩ := digits digit below
    exact ⟨_, by rw [same, head], notMinus, notPlus, by simp [isDigit, finite]⟩

/-- Floats without a sign that are written alike are the same, whether finite or not. -/
theorem unsignedLiteral_injective
    (hasFraction : 0 < format.fractionBits)
    {first second : Nat}
    (firstBelow : first < 2 ^ format.width)
    (secondBelow : second < 2 ^ format.width)
    (same : format.unsignedLiteral first = format.unsignedLiteral second) :
    first = second := by
  have sameKind : format.biasedExponent first ≠ format.specialExponent ↔
      format.biasedExponent second ≠ format.specialExponent := by
    obtain ⟨char, head, -, -, digit⟩ := format.head_unsignedLiteral first
    obtain ⟨other, otherHead, -, -, otherDigit⟩ := format.head_unsignedLiteral second
    rw [same, otherHead, Option.some_inj] at head
    rw [← digit, ← otherDigit, head]
  by_cases finite : format.biasedExponent first = format.specialExponent
  · have secondSpecial : format.biasedExponent second = format.specialExponent :=
      by_contra fun secondFinite => sameKind.mpr secondFinite finite
    refine format.eq_of_fields firstBelow secondBelow (finite.trans secondSpecial.symm) ?_
    have distinct (payload : Nat) : "inf" ≠ "nan:" ++ hexadecimal payload := by
      intro spelled
      have sameChars := congrArg String.toList spelled
      simp at sameChars
    rw [unsignedLiteral, if_pos finite, unsignedLiteral, if_pos secondSpecial] at same
    split at same <;> split at same
    · exact Eq.trans (by assumption) (Eq.symm (by assumption))
    · exact absurd same (distinct _)
    · exact absurd same.symm (distinct _)
    · have samePayload : hexadecimal (format.fraction first) =
          hexadecimal (format.fraction second) :=
        (String.append_right_inj "nan:").mp same
      have sameDigits := String.ofList_inj.mp ((String.append_right_inj "0x").mp samePayload)
      exact Token.toDigits_injective (by decide) (by decide) sameDigits
  · obtain ⟨firstDecimal, spelled, roundsFirst⟩ := format.exists_rounds finite
    obtain ⟨secondDecimal, secondSpelled, roundsSecond⟩ :=
      format.exists_rounds (sameKind.mp finite)
    rw [spelled, secondSpelled] at same
    rw [Decimal.scientific_injective same] at roundsFirst
    exact format.eq_of_rounds hasFraction firstBelow secondBelow roundsFirst roundsSecond

/-- A float is determined by its literal. -/
theorem literal_injective
    (hasFraction : 0 < format.fractionBits)
    {first second : Nat}
    (firstBelow : first < 2 ^ (format.width + 1))
    (secondBelow : second < 2 ^ (format.width + 1))
    (same : format.literal first = format.literal second) :
    first = second := by
  have distinct (first second : Nat) :
      "-" ++ format.unsignedLiteral first ≠ format.unsignedLiteral second := by
    intro spelled
    obtain ⟨char, head, notSign, -⟩ := format.head_unsignedLiteral second
    rw [← spelled] at head
    simp [notSign.symm] at head
  obtain ⟨sameSign, sameRest⟩ : format.isNegative first = format.isNegative second ∧
      format.unsignedLiteral first = format.unsignedLiteral second := by
    rw [literal, literal] at same
    cases firstSign : format.isNegative first <;> cases secondSign : format.isNegative second <;>
      simp only [firstSign, secondSign, if_true, Bool.false_eq_true, if_false,
        String.empty_append] at same
    · exact ⟨rfl, same⟩
    · exact absurd same.symm (distinct _ _)
    · exact absurd same (distinct _ _)
    · exact ⟨rfl, (String.append_right_inj "-").mp same⟩
  have sameMagnitude : format.magnitude first = format.magnitude second :=
    format.unsignedLiteral_injective hasFraction (format.magnitude_lt _) (format.magnitude_lt _)
      (by rw [unsignedLiteral_magnitude, sameRest, unsignedLiteral_magnitude])
  rw [← format.withSign_magnitude firstBelow, sameSign, sameMagnitude,
    format.withSign_magnitude secondBelow]

end FloatFormat

/-- The literal of a 32-bit float tells its bits. -/
theorem f32Literal_injective {first second : UInt32} (same : f32Literal first = f32Literal second) :
    first = second :=
  UInt32.toNat_inj.mp
    (FloatFormat.binary32.literal_injective (by decide) first.toNat_lt second.toNat_lt same)

theorem f64Literal_injective {first second : UInt64} (same : f64Literal first = f64Literal second) :
    first = second :=
  UInt64.toNat_inj.mp
    (FloatFormat.binary64.literal_injective (by decide) first.toNat_lt second.toNat_lt same)

end WebAssembly
