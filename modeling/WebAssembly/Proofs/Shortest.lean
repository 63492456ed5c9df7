import WebAssembly.Proofs.Float

/-!
# Shortest digits

No decimal that rounds to a float has fewer digits than the one found on the coarsest grid
that has a point in the interval of the float. On the next coarser grid there is none, so
that all the numbers in the interval lie between two neighbours there. A decimal with fewer
digits than the hit would lie on the coarser grid itself, or before a power of ten that is
a point of it, while the hit lies behind that power.
-/

namespace WebAssembly

namespace Decimal

/-- A number below a power of ten has no more digits than its exponent says. -/
theorem length_significantDigits_le
    {number count : Nat}
    (positive : 0 < count)
    (below : number < 10 ^ count) :
    (significantDigits number).length ≤ count := by
  obtain ⟨zeros, split⟩ := exists_zeros number
  have total := (Nat.length_toDigits_le_iff (by decide) positive).mpr below
  rw [split, List.length_append] at total
  omega

/-- The number that the significant digits spell has no more of them. -/
theorem ofDigitChars_significantDigits_lt (number : Nat) :
    Nat.ofDigitChars 10 (significantDigits number) 0 < 10 ^ (significantDigits number).length := by
  obtain ⟨zeros, split⟩ := exists_zeros number
  have below : number < 10 ^ (Nat.toDigits 10 number).length :=
    (Nat.length_toDigits_le_iff (by decide) Nat.length_toDigits_pos).mp le_rfl
  rw [split, List.length_append, List.length_replicate, Nat.add_comm, pow_add] at below
  nth_rewrite 1 [eq_of_zeros split] at below
  exact Nat.lt_of_mul_lt_mul_left below

/-- A decimal is its significant digits, times a power of ten. -/
theorem exists_value_eq (decimal : Decimal) :
    ∃ exponent : Int, decimal.value =
      Nat.ofDigitChars 10 (significantDigits decimal.coefficient) 0 * 10 ^ exponent := by
  obtain ⟨zeros, split⟩ := exists_zeros decimal.coefficient
  refine ⟨zeros + decimal.exponent, ?_⟩
  rw [value, zpow_add₀ (by norm_num), zpow_natCast]
  nth_rewrite 1 [eq_of_zeros split]
  push_cast
  ring

namespace Interval

variable {interval : Interval}

/-- What lies between numbers of an interval belongs to it. -/
theorem Holds.between
    {first middle last : ℚ}
    (holdsFirst : interval.Holds first)
    (holdsLast : interval.Holds last)
    (behind : first ≤ middle)
    (before : middle ≤ last) :
    interval.Holds middle where
  low_le := holdsFirst.low_le.trans behind
  le_high := before.trans holdsLast.le_high
  closed ends := by
    obtain rfl | rfl := ends
    · exact holdsFirst.closed (.inl (le_antisymm behind holdsFirst.low_le))
    · exact holdsLast.closed (.inr (le_antisymm holdsLast.le_high before))

/-- If the neighbours of the value on a grid lie outside the interval, the whole grid
does. -/
theorem not_holds_of_neighbour?_eq_none
    (inside : interval.contains interval.value = true)
    {step : Nat}
    (positive : 0 < step)
    (noNeighbour : interval.neighbour? step = none)
    (count : Nat) :
    ¬ interval.Holds (count * step : Nat) := by
  intro holds
  rw [contains_iff_holds] at inside
  have outside : ¬ interval.Holds (interval.value / step * step : Nat) ∧
      ¬ interval.Holds ((interval.value / step + 1) * step : Nat) := by
    simp only [← contains_iff_holds]
    simp only [neighbour?] at noNeighbour
    split at noNeighbour
    · split at noNeighbour <;> cases noNeighbour
    · cases noNeighbour
    · cases noNeighbour
    · simp_all
  have floor : interval.value / step * step ≤ interval.value := Nat.div_mul_le_self _ _
  have ceiling : interval.value < (interval.value / step + 1) * step :=
    Nat.lt_mul_of_div_lt (Nat.lt_succ_self _) positive
  obtain notMore | more := Nat.lt_or_ge (interval.value / step) count |>.symm
  · have behind : count * step ≤ interval.value / step * step := Nat.mul_le_mul_right _ notMore
    exact outside.1 (holds.between inside (by exact_mod_cast behind) (by exact_mod_cast floor))
  · have before : (interval.value / step + 1) * step ≤ count * step := Nat.mul_le_mul_right _ more
    exact outside.2 (inside.between holds (by exact_mod_cast ceiling.le) (by exact_mod_cast before))

/-- No decimal in the interval has fewer digits than the shortest one. -/
theorem length_shortest_le
    (inside : interval.contains interval.value = true)
    {coefficient count : Nat}
    {exponent : Int}
    (positive : 0 < coefficient)
    (below : coefficient < 10 ^ count)
    (holds : interval.Holds (coefficient * 10 ^ exponent)) :
    (significantDigits interval.shortest.coefficient).length ≤ count := by
  have someDigit : 0 < count := by
    by_contra noDigit
    rw [Nat.eq_zero_of_not_pos noDigit, pow_zero] at below
    omega
  obtain ⟨places, notMore, -, contained, near, coarser⟩ :=
    shortestFrom_spec inside ((Nat.toDigits 10 interval.value).length - 1)
  change (significantDigits (interval.shortestFrom _).coefficient).length ≤ count
  generalize (interval.shortestFrom _).coefficient = hit at *
  rw [contains_iff_holds] at contained
  obtain less | rfl := notMore.lt_or_eq
  · have noPoint := not_holds_of_neighbour?_eq_none inside (Nat.pow_pos (by decide)) (coarser less)
    by_contra tooMany
    have large : 10 ^ count ≤ hit :=
      not_lt.mp fun small => tooMany (length_significantDigits_le someDigit small)
    obtain fine | coarse := Int.lt_or_le exponent (places + 1 : Nat)
    · -- A power of ten parts the two decimals.
      have power : (10 ^ (count - 1) * 10 ^ (places + 1) : Nat) = 10 ^ count * 10 ^ places := by
        rw [← pow_add, ← pow_add]
        congr 1
        omega
      refine noPoint (10 ^ (count - 1)) (holds.between contained ?_ ?_)
      · rw [power]
        push_cast
        have place : (10 : ℚ) ^ exponent ≤ 10 ^ places := by
          rw [← zpow_natCast]
          exact zpow_le_zpow_right₀ (by norm_num) (by omega)
        have fewer : (coefficient : ℚ) ≤ 10 ^ count := by exact_mod_cast below.le
        exact mul_le_mul fewer place (by positivity) (by positivity)
      · rw [power]
        exact_mod_cast Nat.mul_le_mul_right _ large
    · -- The decimal itself is a point of the coarser grid.
      obtain ⟨more, rfl⟩ := Int.le.dest coarse
      refine noPoint (coefficient * 10 ^ more) ?_
      have same : (coefficient * 10 ^ ((places + 1 : Nat) + more : Int) : ℚ) =
          (coefficient * 10 ^ more * 10 ^ (places + 1) : Nat) := by
        rw [zpow_add₀ (by norm_num), zpow_natCast, zpow_natCast]
        push_cast
        ring
      rwa [same] at holds
  · have oneDigit : ∀ number ≤ 10, (significantDigits number).length ≤ 1 := by decide
    have leading : interval.value < 10 ^ ((Nat.toDigits 10 interval.value).length - 1 + 1) :=
      (Nat.length_toDigits_le_iff (by decide) (Nat.succ_pos _)).mp (by omega)
    have digit := Nat.div_lt_of_lt_mul (by rwa [pow_succ] at leading)
    exact (oneDigit hit (by omega)).trans someDigit

end Interval

end Decimal

namespace FloatFormat

variable (format : FloatFormat)

/-- The interval of a float other than zero has no zero in it. -/
theorem low_pos {bits : Nat} (nonzero : format.significand bits ≠ 0) : 0 < format.low bits := by
  have positive : 0 < format.lowQuarters bits := by
    rw [lowQuarters]
    split <;> omega
  exact mul_pos (Nat.cast_pos.mpr positive) (format.quarter_pos bits)

/-- The decimal of a float that is not zero has some digits. -/
theorem significantDigits_shortestDecimal_ne_nil
    {bits : Nat}
    (nonzero : format.significand bits ≠ 0) :
    Decimal.significantDigits (format.shortestDecimal bits).coefficient ≠ [] := by
  intro noDigits
  obtain ⟨exponent, value⟩ := (format.shortestDecimal bits).exists_value_eq
  rw [noDigits, Nat.ofDigitChars_nil, Nat.cast_zero, zero_mul] at value
  have rounds := format.rounds_shortestDecimal bits
  rw [value] at rounds
  exact rounds.low_le.not_gt (format.low_pos nonzero)

/-- No decimal that rounds to a float has fewer significant digits than the shortest one. -/
theorem length_shortestDecimal_le
    {bits : Nat}
    (nonzero : format.significand bits ≠ 0)
    {decimal : Decimal}
    (rounds : format.Rounds bits decimal.value) :
    (Decimal.significantDigits (format.shortestDecimal bits).coefficient).length ≤
      (Decimal.significantDigits decimal.coefficient).length := by
  obtain ⟨exponent, value⟩ := decimal.exists_value_eq
  have scaled : decimal.value =
      Nat.ofDigitChars 10 (Decimal.significantDigits decimal.coefficient) 0 *
        10 ^ (exponent - (format.roundingInterval bits).2) *
          10 ^ (format.roundingInterval bits).2 := by
    rw [value, mul_assoc, ← zpow_add₀ (by norm_num), Int.sub_add_cancel]
  have positive : 0 < Nat.ofDigitChars 10 (Decimal.significantDigits decimal.coefficient) 0 := by
    refine Nat.pos_of_ne_zero fun zero => ?_
    rw [zero, Nat.cast_zero, zero_mul] at value
    exact absurd rounds.low_le (by rw [value]; exact (format.low_pos nonzero).not_ge)
  rw [scaled, rounds_iff_holds] at rounds
  exact Decimal.Interval.length_shortest_le (format.contains_value bits) positive
    (Decimal.ofDigitChars_significantDigits_lt _) rounds

end FloatFormat

end WebAssembly
