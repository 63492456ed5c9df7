import WebAssembly.Numeral
import WebAssembly.Proofs.Except
import Mathlib.Tactic.Positivity
import Mathlib.Tactic.Zify

/-!
# Spellings of integers

A group of LEB128 bytes is determined by its length and its payload, so the
spellings of an integer are one group for each length that is long enough for
it. The readers of `WebAssembly.Numeral` accept exactly the spellings of at
most ten bytes of the integers of their width, and leave what follows them.
-/

namespace WebAssembly

namespace Numeral

/-! ## Groups -/

/-- A complete group: its last byte, and no other one, is below `0x80`. -/
def IsGroup : List UInt8 → Prop
  | [] => False
  | byte :: rest => if byte < 0x80 then rest = [] else IsGroup rest

/-- A group begins with its only byte or is continued by a group. -/
theorem isGroup_cons (byte : UInt8) (rest : List UInt8) :
    IsGroup (byte :: rest) ↔
      (byte < 0x80 ∧ rest = []) ∨ (¬ byte < 0x80 ∧ IsGroup rest) := by
  by_cases last : byte < 0x80 <;> simp [IsGroup, last]

theorem IsGroup.length_pos {bytes : List UInt8} (isGroup : IsGroup bytes) :
    0 < bytes.length := by
  cases bytes with
  | nil => exact isGroup.elim
  | cons byte rest => simp

/-- No group begins with another one. -/
theorem IsGroup.eq_of_append_eq
    {first second firstRest secondRest : List UInt8}
    (firstGroup : IsGroup first)
    (secondGroup : IsGroup second)
    (same : first ++ firstRest = second ++ secondRest) :
    first = second := by
  induction first generalizing second with
  | nil => exact firstGroup.elim
  | cons byte rest inductionHypothesis =>
      cases second with
      | nil => exact secondGroup.elim
      | cons other otherRest =>
          simp only [List.cons_append, List.cons.injEq] at same
          obtain ⟨rfl, same⟩ := same
          obtain ⟨small, rfl⟩ | ⟨large, restGroup⟩ := (isGroup_cons byte rest).mp firstGroup
          · simp [IsGroup, small] at secondGroup
            rw [secondGroup]
          · simp only [IsGroup, large, if_false] at secondGroup
            rw [inductionHypothesis restGroup secondGroup same]

/-- The end of the first group is found exactly where a group ends. -/
theorem groupEnd?_eq_some_iff (bytes : List UInt8) (last : Nat) :
    groupEnd? bytes = some last ↔
      IsGroup (bytes.take (last + 1)) ∧ last < bytes.length := by
  induction bytes generalizing last with
  | nil => simp [groupEnd?, IsGroup]
  | cons byte rest inductionHypothesis =>
      unfold groupEnd? at inductionHypothesis ⊢
      rw [List.findIdx?_cons]
      by_cases ends : byte < 0x80
      · cases last <;> simp [IsGroup, ends]
        rintro rfl
        simp
      · cases last with
        | zero => simp [IsGroup, ends]
        | succ last =>
            simp [IsGroup, ends, inductionHypothesis]

/-- The first group is read if it is complete and not overlong. -/
theorem group_eq_ok_iff (bytes prefixGroup : List UInt8) :
    group bytes = .ok prefixGroup ↔
      IsGroup prefixGroup ∧ prefixGroup.length ≤ maxGroupLength ∧
        ∃ rest, bytes = prefixGroup ++ rest := by
  unfold group
  constructor
  · intro read
    cases found : groupEnd? bytes with
    | none => simp [found, throw, throwThe, MonadExceptOf.throw] at read
    | some last =>
        obtain ⟨isGroup, available⟩ := (groupEnd?_eq_some_iff bytes last).mp found
        simp only [found, Except.guarded_eq_ok_iff] at read
        obtain ⟨short, rfl⟩ := read
        refine ⟨isGroup, ?_, bytes.drop (last + 1), (List.take_append_drop _ _).symm⟩
        rw [List.length_take]
        omega
  · rintro ⟨isGroup, short, rest, rfl⟩
    have positive := isGroup.length_pos
    have taken : (prefixGroup ++ rest).take (prefixGroup.length - 1 + 1) = prefixGroup := by
      rw [Nat.sub_add_cancel positive, List.take_left]
    have found : groupEnd? (prefixGroup ++ rest) = some (prefixGroup.length - 1) := by
      rw [groupEnd?_eq_some_iff, taken]
      refine ⟨isGroup, ?_⟩
      rw [List.length_append]
      omega
    have notOverlong : prefixGroup.length - 1 < maxGroupLength := by omega
    simp only [found, notOverlong, if_true, taken]
    rfl

/-- The group of a length whose payload is a number, cut off to the bits that
the group has room for. -/
def groupOf : (length number : Nat) → List UInt8
  | 0, _ => []
  | 1, number => [(number % 128).toUInt8]
  | length + 2, number =>
      (number % 128 + 128).toUInt8 :: groupOf (length + 1) (number / 128)

@[simp] theorem length_groupOf (length number : Nat) :
    (groupOf length number).length = length := by
  fun_induction groupOf length number with
  | case1 number => rfl
  | case2 number => rfl
  | case3 length number inductionHypothesis => simp [inductionHypothesis]

/-- The group of a number in some bytes is a group. -/
theorem isGroup_groupOf {length : Nat} (positive : 0 < length) (number : Nat) :
    IsGroup (groupOf length number) := by
  fun_induction groupOf length number with
  | case1 number => exact absurd positive (lt_irrefl 0)
  | case2 number =>
      have small : number % 128 < 128 := Nat.mod_lt _ (by decide)
      simp only [isGroup_cons, UInt8.lt_iff_toNat_lt]
      left
      simp
      omega
  | case3 length number inductionHypothesis =>
      simp only [isGroup_cons, UInt8.lt_iff_toNat_lt]
      right
      refine ⟨?_, inductionHypothesis (Nat.succ_pos length)⟩
      simp
      omega

/-- A group spells its number, as far as it has room for it. -/
theorem payload_groupOf (length number : Nat) :
    payload (groupOf length number) = number % 128 ^ length := by
  fun_induction groupOf length number with
  | case1 number => simp [payload, Nat.mod_one]
  | case2 number => simp [payload]
  | case3 length number inductionHypothesis =>
      have head : (number % 128 + 128).toUInt8.toNat % 128 = number % 128 := by
        simp
      rw [payload, inductionHypothesis, head, Nat.pow_succ 128 (length + 1), mul_comm _ 128,
        Nat.mod_mul]

/-- A payload has seven bits of each byte. -/
theorem payload_lt (bytes : List UInt8) : payload bytes < 128 ^ bytes.length := by
  induction bytes with
  | nil => simp [payload]
  | cons byte rest inductionHypothesis =>
      rw [payload, List.length_cons, pow_succ]
      omega

/-- A group is determined by its length and its payload. -/
theorem IsGroup.eq_groupOf {bytes : List UInt8} (isGroup : IsGroup bytes) :
    bytes = groupOf bytes.length (payload bytes) := by
  induction bytes with
  | nil => exact isGroup.elim
  | cons byte rest inductionHypothesis =>
      obtain ⟨small, rfl⟩ | ⟨large, restGroup⟩ := (isGroup_cons byte rest).mp isGroup
      · rw [UInt8.lt_iff_toNat_lt] at small
        simp only [List.length_cons, List.length_nil, groupOf, payload, List.cons.injEq, and_true]
        apply UInt8.toNat_inj.mp
        simp at small ⊢
        omega
      · have positive := restGroup.length_pos
        obtain ⟨length, lengthEq⟩ := Nat.exists_eq_succ_of_ne_zero positive.ne'
        have restEq := inductionHypothesis restGroup
        rw [lengthEq] at restEq
        rw [UInt8.lt_iff_toNat_lt] at large
        have byteSmall := byte.toNat_lt
        have quotient : payload (byte :: rest) / 128 = payload rest := by
          rw [payload]
          omega
        simp only [List.length_cons, lengthEq, groupOf, quotient, List.cons.injEq]
        refine ⟨?_, restEq⟩
        apply UInt8.toNat_inj.mp
        simp [payload] at large ⊢
        omega

/-! ## Unsigned integers -/

/-- A group of at most ten bytes spells a natural number. -/
def SpellsUnsigned (value : Nat) (bytes : List UInt8) : Prop :=
  IsGroup bytes ∧ bytes.length ≤ maxGroupLength ∧ payload bytes = value

/-- The reader of unsigned integers accepts the spellings of numbers of 64 bits. -/
theorem unsigned_eq_ok_iff (bytes : List UInt8) (value length : Nat) :
    unsigned bytes = .ok (value, length) ↔
      value < 2 ^ 64 ∧ ∃ spelling rest,
        bytes = spelling ++ rest ∧ spelling.length = length ∧
          SpellsUnsigned value spelling := by
  simp only [unsigned, Except.bind_eq_ok_iff, group_eq_ok_iff, Except.guarded_eq_ok_iff,
    Prod.mk.injEq]
  constructor
  · rintro ⟨spelling, ⟨isGroup, short, rest, rfl⟩, fits, rfl, rfl⟩
    exact ⟨fits, spelling, rest, rfl, rfl, isGroup, short, rfl⟩
  · rintro ⟨fits, spelling, rest, rfl, rfl, isGroup, short, rfl⟩
    exact ⟨spelling, ⟨isGroup, short, rest, rfl⟩, fits, rfl, rfl⟩

/-- The reader of unsigned 32-bit integers accepts every spelling of theirs. -/
theorem u32_eq_ok_iff (bytes : List UInt8) (value : UInt32) (length : Nat) :
    u32 bytes = .ok (value, length) ↔
      ∃ spelling rest, bytes = spelling ++ rest ∧ spelling.length = length ∧
        SpellsUnsigned value.toNat spelling := by
  simp only [u32, Except.bind_eq_ok_iff, Prod.exists, unsigned_eq_ok_iff, Except.guarded_eq_ok_iff,
    Prod.mk.injEq]
  constructor
  · rintro ⟨number, numberLength, ⟨-, spelled⟩, fits, rfl, rfl⟩
    rwa [UInt32.toNat_ofNat_of_lt' fits]
  · intro spelled
    have narrow := value.toNat_lt
    exact ⟨value.toNat, length, ⟨by omega, spelled⟩, narrow, UInt32.ofNat_toNat, rfl⟩

/-- How many bytes the shortest spelling of a natural number has. -/
def unsignedLength (value : Nat) : Nat := value.log2 / 7 + 1

/-- The shortest spelling of a natural number. -/
def leastUnsigned (value : Nat) : List UInt8 :=
  groupOf (unsignedLength value) value

theorem two_pow_seven_mul (length : Nat) : 2 ^ (7 * length) = 128 ^ length :=
  pow_mul 2 7 length

/-- A number has room in a group exactly if its shortest spelling has. -/
theorem lt_pow_iff_unsignedLength_le (value length : Nat) (positive : 0 < length) :
    value < 128 ^ length ↔ unsignedLength value ≤ length := by
  unfold unsignedLength
  rw [← two_pow_seven_mul]
  obtain rfl | nonzero := Nat.eq_zero_or_pos value
  · simp
    omega
  · rw [← Nat.log2_lt nonzero.ne']
    omega

/-- A number has a spelling of each length from that of its shortest one on. -/
theorem spellsUnsigned_groupOf
    {value length : Nat}
    (enough : unsignedLength value ≤ length)
    (short : length ≤ maxGroupLength) :
    SpellsUnsigned value (groupOf length value) := by
  have positive : 0 < length := (Nat.succ_pos _).trans_le enough
  have room := (lt_pow_iff_unsignedLength_le value length positive).mpr enough
  refine ⟨isGroup_groupOf positive _, by simpa using short, ?_⟩
  rw [payload_groupOf, Nat.mod_eq_of_lt room]

/-- A number is spelled by its shortest group. -/
theorem spellsUnsigned_leastUnsigned
    (value : Nat)
    (short : unsignedLength value ≤ maxGroupLength) :
    SpellsUnsigned value (leastUnsigned value) :=
  spellsUnsigned_groupOf le_rfl short

/-- No spelling takes fewer bytes than the shortest one. -/
theorem SpellsUnsigned.unsignedLength_le
    {value : Nat}
    {bytes : List UInt8}
    (spells : SpellsUnsigned value bytes) :
    unsignedLength value ≤ bytes.length := by
  obtain ⟨isGroup, -, rfl⟩ := spells
  exact (lt_pow_iff_unsignedLength_le _ _ isGroup.length_pos).mp (payload_lt bytes)

/-- Greater numbers need no fewer bytes. -/
theorem unsignedLength_mono {value other : Nat} (notAbove : value ≤ other) :
    unsignedLength value ≤ unsignedLength other := by
  have positive : 0 < unsignedLength other := Nat.succ_pos _
  have room := (lt_pow_iff_unsignedLength_le other _ positive).mpr le_rfl
  exact (lt_pow_iff_unsignedLength_le value _ positive).mp (notAbove.trans_lt room)

/-- Only one spelling of a number is as short as its shortest one. -/
theorem SpellsUnsigned.eq_leastUnsigned
    {value : Nat}
    {bytes : List UInt8}
    (spells : SpellsUnsigned value bytes)
    (shortest : ∀ other, SpellsUnsigned value other → bytes.length ≤ other.length) :
    bytes = leastUnsigned value := by
  have lower := spells.unsignedLength_le
  have upper := shortest _ (spellsUnsigned_leastUnsigned value
    (lower.trans spells.2.1))
  rw [leastUnsigned, length_groupOf] at upper
  obtain ⟨isGroup, -, rfl⟩ := spells
  rw [leastUnsigned, le_antisymm lower upper]
  exact isGroup.eq_groupOf

/-! ## Signed integers -/

/-- The integers of `width` bits in two's complement. -/
def InWidth (width : Nat) (value : Int) : Prop :=
  -(2 ^ (width - 1) : Int) ≤ value ∧ value < (2 ^ (width - 1) : Int)

/-- The test for a width decides whether an integer is in it. -/
theorem fits_eq_true_iff (width : Nat) (value : Int) :
    fits width value = true ↔ InWidth width value := by
  simp [fits, InWidth]

theorem two_pow_eq_double (width : Nat) (positive : 0 < width) :
    2 ^ width = 2 * 2 ^ (width - 1) := by
  rw [← pow_succ', Nat.sub_add_cancel positive]

/-- Every bit pattern stands for an integer of its width. -/
theorem inWidth_twosComplement
    (width number : Nat)
    (positive : 0 < width)
    (room : number < 2 ^ width) :
    InWidth width (twosComplement width number) := by
  have double := two_pow_eq_double width positive
  have doubleInt : (2 ^ width : Int) = 2 * 2 ^ (width - 1) := by exact_mod_cast double
  unfold InWidth twosComplement
  rw [doubleInt]
  rw [double] at room
  zify at room ⊢
  split <;> omega

/-- A bit pattern is recovered from the integer it stands for. -/
theorem twosComplement_emod
    (width number : Nat)
    (room : number < 2 ^ width) :
    (twosComplement width number % 2 ^ width).toNat = number := by
  have roomInt : (number : Int) < 2 ^ width := by exact_mod_cast room
  have residue : twosComplement width number % 2 ^ width = number := by
    unfold twosComplement
    split
    · exact Int.emod_eq_of_lt (by omega) roomInt
    · rw [Int.sub_emod_right]
      exact Int.emod_eq_of_lt (by omega) roomInt
  rw [residue]
  rfl

/-- An integer of a width is recovered from its bit pattern. -/
theorem twosComplement_toNat_emod
    (width : Nat)
    (value : Int)
    (positive : 0 < width)
    (inWidth : InWidth width value) :
    twosComplement width (value % 2 ^ width).toNat = value := by
  have double : (2 ^ width : Int) = 2 * 2 ^ (width - 1) := by
    exact_mod_cast two_pow_eq_double width positive
  obtain ⟨lower, upper⟩ := inWidth
  unfold twosComplement
  zify
  by_cases negative : value < 0
  · have residue : value % 2 ^ width = value + 2 ^ width := by
      rw [← Int.add_emod_right]
      exact Int.emod_eq_of_lt (by omega) (by omega)
    rw [residue, Int.toNat_of_nonneg (by omega), if_neg (by omega)]
    omega
  · have residue : value % 2 ^ width = value :=
      Int.emod_eq_of_lt (by omega) (by omega)
    rw [residue, Int.toNat_of_nonneg (by omega), if_pos (by omega)]

/-- A group of at most ten bytes spells an integer in two's complement. -/
def SpellsSigned (value : Int) (bytes : List UInt8) : Prop :=
  IsGroup bytes ∧ bytes.length ≤ maxGroupLength ∧
    twosComplement (7 * bytes.length) (payload bytes) = value

/-- The reader of signed integers accepts the spellings of integers of its width
and of 64 bits. -/
theorem signed_eq_ok_iff (width : Nat) (bytes : List UInt8) (value : Int) (length : Nat) :
    signed width bytes = .ok (value, length) ↔
      InWidth 64 value ∧ (width < 64 → InWidth width value) ∧ ∃ spelling rest,
        bytes = spelling ++ rest ∧ spelling.length = length ∧ SpellsSigned value spelling := by
  have outcome (integer : Int) (size : Nat) :
      ((if !fits 64 integer then throw (.overflow 64)
        else if width < 64 && !fits width integer then throw (.overflow width)
        else return (integer, size) : Except Fault (Int × Nat)) = .ok (value, length)) ↔
        InWidth 64 integer ∧ (width < 64 → InWidth width integer) ∧
          integer = value ∧ size = length := by
    rw [← fits_eq_true_iff, ← fits_eq_true_iff]
    by_cases narrow : width < 64 <;>
      cases fits 64 integer <;> cases fits width integer <;>
      simp [narrow, pure, Except.pure, throw, throwThe, MonadExceptOf.throw]
  simp only [signed, Except.bind_eq_ok_iff, group_eq_ok_iff, outcome]
  constructor
  · rintro ⟨spelling, ⟨isGroup, short, rest, rfl⟩, wide, narrow, rfl, rfl⟩
    exact ⟨wide, narrow, spelling, rest, rfl, rfl, isGroup, short, rfl⟩
  · rintro ⟨wide, narrow, spelling, rest, rfl, rfl, isGroup, short, rfl⟩
    exact ⟨spelling, ⟨isGroup, short, rest, rfl⟩, wide, narrow, rfl, rfl⟩

/-- The reader of signed 32-bit integers accepts every spelling of theirs. -/
theorem i32_eq_ok_iff (bytes : List UInt8) (value : Int32) (length : Nat) :
    i32 bytes = .ok (value, length) ↔
      ∃ spelling rest, bytes = spelling ++ rest ∧ spelling.length = length ∧
        SpellsSigned value.toInt spelling := by
  simp only [i32, Except.bind_eq_ok_iff, Prod.exists, signed_eq_ok_iff, pure, Except.pure,
    Except.ok.injEq, Prod.mk.injEq]
  constructor
  · rintro ⟨integer, size, ⟨-, narrow, spelled⟩, rfl, rfl⟩
    obtain ⟨lower, upper⟩ := narrow (by decide)
    rwa [Int32.toInt_ofInt_of_le lower upper]
  · intro spelled
    have lower := value.le_toInt
    have upper := value.toInt_lt
    refine ⟨value.toInt, length, ⟨?_, ?_, spelled⟩, Int32.ofInt_toInt value, rfl⟩
    · constructor <;> omega
    · intro narrow
      exact ⟨lower, upper⟩

/-- The reader of signed 64-bit integers accepts every spelling of theirs. -/
theorem i64_eq_ok_iff (bytes : List UInt8) (value : Int64) (length : Nat) :
    i64 bytes = .ok (value, length) ↔
      ∃ spelling rest, bytes = spelling ++ rest ∧ spelling.length = length ∧
        SpellsSigned value.toInt spelling := by
  simp only [i64, Except.bind_eq_ok_iff, Prod.exists, signed_eq_ok_iff, pure, Except.pure,
    Except.ok.injEq, Prod.mk.injEq]
  constructor
  · rintro ⟨integer, size, ⟨⟨lower, upper⟩, -, spelled⟩, rfl, rfl⟩
    rwa [Int64.toInt_ofInt_of_le lower upper]
  · intro spelled
    exact ⟨value.toInt, length, ⟨⟨value.le_toInt, value.toInt_lt⟩,
      fun narrow => absurd narrow (by decide), spelled⟩, Int64.ofInt_toInt value, rfl⟩

/-- The number of which an integer is the value or the complement. -/
def magnitude : Int → Nat
  | .ofNat number => number
  | .negSucc number => number

/-- How many bytes the shortest spelling of an integer has. -/
def signedLength (value : Int) : Nat := ((magnitude value).log2 + 1) / 7 + 1

/-- The shortest spelling of an integer. -/
def leastSigned (value : Int) : List UInt8 :=
  groupOf (signedLength value) (value % 2 ^ (7 * signedLength value)).toNat

/-- An integer is in a width exactly if its magnitude is. -/
theorem inWidth_iff_magnitude_lt (width : Nat) (value : Int) :
    InWidth width value ↔ magnitude value < 2 ^ (width - 1) := by
  have positive : (0 : Int) < 2 ^ (width - 1) := by positivity
  unfold InWidth
  zify
  cases value with
  | ofNat number =>
      simp only [magnitude, Int.ofNat_eq_natCast]
      omega
  | negSucc number =>
      simp only [magnitude, Int.negSucc_eq]
      omega

/-- An integer has room in a group exactly if its shortest spelling has. -/
theorem inWidth_iff_signedLength_le (value : Int) (length : Nat) (positive : 0 < length) :
    InWidth (7 * length) value ↔ signedLength value ≤ length := by
  rw [inWidth_iff_magnitude_lt]
  unfold signedLength
  obtain zero | nonzero := Nat.eq_zero_or_pos (magnitude value)
  · simp [zero]
    omega
  · rw [← Nat.log2_lt nonzero.ne']
    omega

/-- An integer has a spelling of each length from that of its shortest one on, which
repeats the sign. -/
theorem spellsSigned_groupOf
    {value : Int}
    {length : Nat}
    (enough : signedLength value ≤ length)
    (short : length ≤ maxGroupLength) :
    SpellsSigned value (groupOf length (value % 2 ^ (7 * length)).toNat) := by
  have positive : 0 < length := (Nat.succ_pos _).trans_le enough
  have inWidth := (inWidth_iff_signedLength_le value length positive).mpr enough
  have room : (value % 2 ^ (7 * length)).toNat < 128 ^ length := by
    rw [← two_pow_seven_mul]
    zify
    rw [Int.toNat_of_nonneg (Int.emod_nonneg _ (by positivity))]
    exact Int.emod_lt_of_pos _ (by positivity)
  refine ⟨isGroup_groupOf positive _, by simpa using short, ?_⟩
  rw [payload_groupOf, length_groupOf, Nat.mod_eq_of_lt room]
  exact twosComplement_toNat_emod _ _ (by omega) inWidth

/-- An integer is spelled by its shortest group. -/
theorem spellsSigned_leastSigned
    (value : Int)
    (short : signedLength value ≤ maxGroupLength) :
    SpellsSigned value (leastSigned value) :=
  spellsSigned_groupOf le_rfl short

/-- No group of an integer is shorter than its shortest one. -/
theorem SpellsSigned.signedLength_le
    {value : Int}
    {bytes : List UInt8}
    (spells : SpellsSigned value bytes) :
    signedLength value ≤ bytes.length := by
  obtain ⟨isGroup, -, rfl⟩ := spells
  have positive := isGroup.length_pos
  apply (inWidth_iff_signedLength_le _ _ positive).mp
  apply inWidth_twosComplement _ _ (by omega)
  rw [two_pow_seven_mul]
  exact payload_lt bytes

/-- Only one spelling of an integer is as short as its shortest one. -/
theorem SpellsSigned.eq_leastSigned
    {value : Int}
    {bytes : List UInt8}
    (spells : SpellsSigned value bytes)
    (shortest : ∀ other, SpellsSigned value other → bytes.length ≤ other.length) :
    bytes = leastSigned value := by
  have lower := spells.signedLength_le
  have upper := shortest _ (spellsSigned_leastSigned value (lower.trans spells.2.1))
  rw [leastSigned, length_groupOf] at upper
  obtain ⟨isGroup, -, rfl⟩ := spells
  have positive := isGroup.length_pos
  have room : payload bytes < 2 ^ (7 * bytes.length) := by
    rw [two_pow_seven_mul]
    exact payload_lt bytes
  rw [leastSigned, le_antisymm lower upper, twosComplement_emod _ _ room]
  exact isGroup.eq_groupOf

/-! ## Words -/

/-- The `length` lowest base 256 digits of a number, least significant first. -/
def littleEndianBytes : (length number : Nat) → List UInt8
  | 0, _ => []
  | length + 1, number => number.toUInt8 :: littleEndianBytes length (number / 256)

@[simp] theorem length_littleEndianBytes (length number : Nat) :
    (littleEndianBytes length number).length = length := by
  induction length generalizing number with
  | zero => rfl
  | succ length inductionHypothesis => simp [littleEndianBytes, inductionHypothesis]

/-- A word holds its number, as far as it has room for it. -/
theorem littleEndian_littleEndianBytes (length number : Nat) :
    littleEndian (littleEndianBytes length number) = number % 256 ^ length := by
  induction length generalizing number with
  | zero => simp [littleEndianBytes, littleEndian, Nat.mod_one]
  | succ length inductionHypothesis =>
      rw [littleEndianBytes, littleEndian, inductionHypothesis, pow_succ, mul_comm _ 256,
        Nat.mod_mul]
      simp

/-- Bytes are found again in their number. -/
theorem littleEndianBytes_littleEndian (bytes : List UInt8) :
    littleEndianBytes bytes.length (littleEndian bytes) = bytes := by
  induction bytes with
  | nil => rfl
  | cons byte rest inductionHypothesis =>
      have small := byte.toNat_lt
      have head : (byte.toNat + 256 * littleEndian rest).toUInt8 = byte := by
        apply UInt8.toNat_inj.mp
        simp
      have tail : (byte.toNat + 256 * littleEndian rest) / 256 = littleEndian rest := by
        omega
      rw [List.length_cons, littleEndian, littleEndianBytes, head, tail, inductionHypothesis]

/-- A word has eight bits of each byte. -/
theorem littleEndian_lt (bytes : List UInt8) :
    littleEndian bytes < 256 ^ bytes.length := by
  have residue := littleEndian_littleEndianBytes bytes.length (littleEndian bytes)
  rw [littleEndianBytes_littleEndian] at residue
  rw [residue]
  exact Nat.mod_lt _ (by positivity)

/-- A word is read from its bytes, whatever follows them. -/
theorem word_eq_ok_iff (size : Nat) (bytes : List UInt8) (number length : Nat) :
    word size bytes = .ok (number, length) ↔
      number < 256 ^ size ∧ length = size ∧
        ∃ rest, bytes = littleEndianBytes size number ++ rest := by
  have outcome : word size bytes = .ok (number, length) ↔
      size ≤ bytes.length ∧ littleEndian (bytes.take size) = number ∧ size = length := by
    unfold word
    by_cases short : bytes.length < size
    · simp [short, throw, throwThe, MonadExceptOf.throw]
    · simp [short, pure, Except.pure]
      omega
  rw [outcome]
  constructor
  · rintro ⟨available, rfl, rfl⟩
    have taken : (bytes.take size).length = size := by simp [available]
    have bound := littleEndian_lt (bytes.take size)
    have digits := littleEndianBytes_littleEndian (bytes.take size)
    rw [taken] at bound digits
    refine ⟨bound, rfl, bytes.drop size, ?_⟩
    rw [digits, List.take_append_drop]
  · rintro ⟨bound, rfl, rest, rfl⟩
    refine ⟨by simp, ?_, rfl⟩
    rw [List.take_append_of_le_length (by simp), List.take_of_length_le (by simp),
      littleEndian_littleEndianBytes, Nat.mod_eq_of_lt bound]

/-- The reader of 32-bit floats accepts every word of four bytes. -/
theorem f32_eq_ok_iff (bytes : List UInt8) (bits : UInt32) (length : Nat) :
    f32 bytes = .ok (bits, length) ↔
      length = 4 ∧ ∃ rest, bytes = littleEndianBytes 4 bits.toNat ++ rest := by
  simp only [f32, Except.bind_eq_ok_iff, Prod.exists, word_eq_ok_iff, pure, Except.pure,
    Except.ok.injEq, Prod.mk.injEq]
  constructor
  · rintro ⟨number, size, ⟨bound, rfl, rest, rfl⟩, rfl, rfl⟩
    rw [UInt32.toNat_ofNat_of_lt' bound]
    exact ⟨rfl, rest, rfl⟩
  · rintro ⟨rfl, rest, rfl⟩
    exact ⟨bits.toNat, 4, ⟨bits.toNat_lt, rfl, rest, rfl⟩, UInt32.ofNat_toNat, rfl⟩

/-- The reader of 64-bit floats accepts every word of eight bytes. -/
theorem f64_eq_ok_iff (bytes : List UInt8) (bits : UInt64) (length : Nat) :
    f64 bytes = .ok (bits, length) ↔
      length = 8 ∧ ∃ rest, bytes = littleEndianBytes 8 bits.toNat ++ rest := by
  simp only [f64, Except.bind_eq_ok_iff, Prod.exists, word_eq_ok_iff, pure, Except.pure,
    Except.ok.injEq, Prod.mk.injEq]
  constructor
  · rintro ⟨number, size, ⟨bound, rfl, rest, rfl⟩, rfl, rfl⟩
    rw [UInt64.toNat_ofNat_of_lt' bound]
    exact ⟨rfl, rest, rfl⟩
  · rintro ⟨rfl, rest, rfl⟩
    exact ⟨bits.toNat, 8, ⟨bits.toNat_lt, rfl, rest, rfl⟩, UInt64.ofNat_toNat, rfl⟩

/-! ## Reading within the bytes -/

/-- A reading function takes up no more bytes than there are, and finds no end of a
number only if no byte can end it. -/
structure Faithful (read : List UInt8 → Except Fault (α × Nat)) : Prop where
  length_le : ∀ bytes value length, read bytes = .ok (value, length) → length ≤ bytes.length
  endless : ∀ bytes, read bytes = .error .unterminated → ∀ byte ∈ bytes, 0x80 ≤ byte

/-- Without an end, all bytes go on. -/
theorem endless_of_groupEnd?_eq_none
    {bytes : List UInt8}
    (none : groupEnd? bytes = none) :
    ∀ byte ∈ bytes, 0x80 ≤ byte := by
  intro byte among
  have large := List.findIdx?_eq_none_iff.mp none byte among
  simpa using large

theorem groupEnd?_eq_none_of_group
    {bytes : List UInt8}
    (failed : group bytes = .error .unterminated) :
    groupEnd? bytes = none := by
  unfold group at failed
  split at failed
  · assumption
  · split at failed <;> cases failed

theorem groupEnd?_eq_none_of_unsigned
    {bytes : List UInt8}
    (failed : unsigned bytes = .error .unterminated) :
    groupEnd? bytes = none := by
  obtain failed | ⟨spelling, -, failed⟩ := (Except.bind_eq_error_iff _ _ _).mp failed
  · exact groupEnd?_eq_none_of_group failed
  · dsimp only at failed
    split at failed <;> cases failed

theorem groupEnd?_eq_none_of_signed
    {width : Nat}
    {bytes : List UInt8}
    (failed : signed width bytes = .error .unterminated) :
    groupEnd? bytes = none := by
  obtain failed | ⟨spelling, -, failed⟩ := (Except.bind_eq_error_iff _ _ _).mp failed
  · exact groupEnd?_eq_none_of_group failed
  · dsimp only at failed
    split at failed
    · cases failed
    · split at failed <;> cases failed

/-- The readers of integers and floats look at the bytes of their number alone. -/
theorem faithful_u32 : Faithful u32 where
  length_le bytes value length read := by
    obtain ⟨spelling, rest, rfl, rfl, -⟩ := (u32_eq_ok_iff _ _ _).mp read
    simp
  endless bytes failed := by
    apply endless_of_groupEnd?_eq_none
    obtain failed | ⟨⟨value, length⟩, -, failed⟩ := (Except.bind_eq_error_iff _ _ _).mp failed
    · exact groupEnd?_eq_none_of_unsigned failed
    · dsimp only at failed
      split at failed <;> cases failed

theorem faithful_i32 : Faithful i32 where
  length_le bytes value length read := by
    obtain ⟨spelling, rest, rfl, rfl, -⟩ := (i32_eq_ok_iff _ _ _).mp read
    simp
  endless bytes failed := by
    apply endless_of_groupEnd?_eq_none
    obtain failed | ⟨⟨value, length⟩, -, failed⟩ := (Except.bind_eq_error_iff _ _ _).mp failed
    · exact groupEnd?_eq_none_of_signed failed
    · cases failed

theorem faithful_i64 : Faithful i64 where
  length_le bytes value length read := by
    obtain ⟨spelling, rest, rfl, rfl, -⟩ := (i64_eq_ok_iff _ _ _).mp read
    simp
  endless bytes failed := by
    apply endless_of_groupEnd?_eq_none
    obtain failed | ⟨⟨value, length⟩, -, failed⟩ := (Except.bind_eq_error_iff _ _ _).mp failed
    · exact groupEnd?_eq_none_of_signed failed
    · cases failed

/-- A word is too short, but it is never unterminated. -/
theorem word_ne_unterminated (size : Nat) (bytes : List UInt8) :
    word size bytes ≠ .error .unterminated := by
  intro failed
  unfold word at failed
  dsimp only at failed
  split at failed <;> cases failed

theorem faithful_f32 : Faithful f32 where
  length_le bytes value length read := by
    obtain ⟨rfl, rest, rfl⟩ := (f32_eq_ok_iff _ _ _).mp read
    simp
  endless bytes failed := by
    obtain failed | ⟨⟨value, length⟩, -, failed⟩ := (Except.bind_eq_error_iff _ _ _).mp failed
    · exact absurd failed (word_ne_unterminated _ _)
    · cases failed

theorem faithful_f64 : Faithful f64 where
  length_le bytes value length read := by
    obtain ⟨rfl, rest, rfl⟩ := (f64_eq_ok_iff _ _ _).mp read
    simp
  endless bytes failed := by
    obtain failed | ⟨⟨value, length⟩, -, failed⟩ := (Except.bind_eq_error_iff _ _ _).mp failed
    · exact absurd failed (word_ne_unterminated _ _)
    · cases failed

end Numeral

end WebAssembly
