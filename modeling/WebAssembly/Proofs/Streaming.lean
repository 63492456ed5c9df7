import WebAssembly.Proofs.Varint

/-!
# Reading integers into a word

The loop of a streaming reader collects the digits of a group in a word and heeds its room
at the tenth byte. As long as there is room, each round adds the digit of its byte to the
number that the word holds; without room the rest of the group decides on the fault.

So the loop on words yields what the readers of `WebAssembly.Numeral` do, which is then
stated for the bytes of a buffer from an offset on.
-/

namespace WebAssembly

namespace Numeral

/-! ## Bytes that go on -/

/-- The bytes behind which a group goes on are those from `0x80` on. -/
theorem continues_iff (byte : UInt8) : continues byte = true ↔ 0x80 ≤ byte := by
  have table : ∀ number < 256, continues (UInt8.ofNat number) = true ↔ 128 ≤ number := by
    decide +kernel
  have entry := table byte.toNat byte.toNat_lt
  rw [UInt8.ofNat_toNat] at entry
  rwa [UInt8.le_iff_toNat_le]

theorem continues_eq_false {byte : UInt8} (small : byte < 0x80) : continues byte = false := by
  rw [← Bool.not_eq_true, continues_iff]
  exact UInt8.not_le.mpr small

/-- Skipping bytes without an end finds none. -/
theorem skip_of_endless {bytes : List UInt8} (endless : Endless bytes) :
    skip bytes = .unterminated := by
  induction bytes with
  | nil => rfl
  | cons byte bytes inductionHypothesis =>
      obtain ⟨large, others⟩ := (endless_cons byte bytes).mp endless
      rw [skip, if_pos ((continues_iff byte).mpr large), inductionHypothesis others]

/-- Skipping to the end of a group reports that it is too great. -/
theorem skip_of_end
    {front : List UInt8}
    {last : UInt8}
    (continued : Endless front)
    (small : last < 0x80)
    (rest : List UInt8) :
    skip (front ++ last :: rest) = .overflow 64 := by
  induction front with
  | nil => rw [List.nil_append, skip, continues_eq_false small, if_neg Bool.false_ne_true]
  | cons byte front inductionHypothesis =>
      obtain ⟨large, others⟩ := (endless_cons byte front).mp continued
      rw [List.cons_append, skip, if_pos ((continues_iff byte).mpr large),
        inductionHypothesis others]

/-- Bits above all those of a word are added to it; what goes beyond 64 bits is lost. -/
theorem or_shiftLeft
    {number shift : Nat}
    (room : number < 2 ^ shift)
    (inWord : shift < 64)
    (word : UInt64) :
    UInt64.ofNat number ||| word <<< UInt64.ofNat shift =
      UInt64.ofNat (number + 2 ^ shift * word.toNat) := by
  apply UInt64.toNat_inj.mp
  have sizes : 2 ^ 64 = 2 ^ shift * 2 ^ (64 - shift) := by
    rw [← pow_add, Nat.add_sub_cancel' inWord.le]
  have small : number < 2 ^ 64 := room.trans_le (Nat.pow_le_pow_right (by decide) inWord.le)
  have shifted : 2 ^ shift * word.toNat % 2 ^ 64 = 2 ^ shift * (word.toNat % 2 ^ (64 - shift)) := by
    rw [sizes, Nat.mul_mod_mul_left]
  have below : 2 ^ shift * (word.toNat % 2 ^ (64 - shift)) + number < 2 ^ 64 := by
    have digits : word.toNat % 2 ^ (64 - shift) < 2 ^ (64 - shift) := Nat.mod_lt _ (by positivity)
    calc
      2 ^ shift * (word.toNat % 2 ^ (64 - shift)) + number
        < 2 ^ shift * (word.toNat % 2 ^ (64 - shift)) + 2 ^ shift := by omega
      _ = 2 ^ shift * (word.toNat % 2 ^ (64 - shift) + 1) := by ring
      _ ≤ 2 ^ shift * 2 ^ (64 - shift) := Nat.mul_le_mul_left _ digits
      _ = 2 ^ 64 := sizes.symm
  have amount : (UInt64.ofNat shift).toNat % 64 = shift := by
    rw [UInt64.toNat_ofNat_of_lt' (inWord.trans (by decide)), Nat.mod_eq_of_lt inWord]
  rw [UInt64.toNat_or, UInt64.toNat_shiftLeft, amount, UInt64.toNat_ofNat_of_lt' small,
    Nat.shiftLeft_eq, Nat.mul_comm word.toNat, shifted, Nat.or_comm,
    ← Nat.two_pow_add_eq_or_of_lt room, UInt64.toNat_ofNat', Nat.add_mod, shifted,
    Nat.mod_eq_of_lt small, Nat.add_comm number, Nat.mod_eq_of_lt below]

/-- The low seven bits of a byte are its digit. -/
theorem toNat_lowBits (byte : UInt8) : (byte &&& 0x7F).toUInt64.toNat = byte.toNat % 128 := by
  rw [UInt8.toNat_toUInt64, UInt8.toNat_and]
  exact Nat.and_two_pow_sub_one_eq_mod byte.toNat 7

/-! ## What the loop collects -/

section Loop

variable {tenth : UInt8 → Prop} [DecidablePred tenth]

/-- One round of the loop: a byte that has room adds its digit to the number. -/
theorem collect_cons
    {number length : Nat}
    (room : number < 2 ^ (7 * length))
    {byte : UInt8}
    (fits : HasRoom tenth length byte)
    (rest : List UInt8) :
    collect tenth (UInt64.ofNat number) length (byte :: rest) =
      let next := number + 2 ^ (7 * length) * (byte.toNat % 128)
      if continues byte then collect tenth (UInt64.ofNat next) (length + 1) rest
      else .ok ⟨UInt64.ofNat next, byte, length + 1⟩ := by
  have admitted : ¬ (7 * length = 63 ∧ ¬ tenth byte) := by
    rintro ⟨full, refused⟩
    obtain short | ⟨-, admissible⟩ := fits
    · omega
    · exact refused admissible
  have inWord : 7 * length < 64 := by
    have := fits.le_nine
    omega
  rw [collect, if_neg admitted, or_shiftLeft room inWord, toNat_lowBits]
  rfl

/-- The rounds over bytes that go on. -/
theorem collect_append
    {front : List UInt8}
    (continued : Endless front)
    {number length : Nat}
    (room : number < 2 ^ (7 * length))
    (short : length + front.length ≤ 9)
    (rest : List UInt8) :
    collect tenth (UInt64.ofNat number) length (front ++ rest) =
      collect tenth (UInt64.ofNat (number + 2 ^ (7 * length) * payload front))
        (length + front.length) rest := by
  induction front generalizing number length with
  | nil => rfl
  | cons byte front inductionHypothesis =>
      obtain ⟨large, others⟩ := (endless_cons byte front).mp continued
      rw [List.length_cons] at short
      have nextPower : 2 ^ (7 * (length + 1)) = 2 ^ (7 * length) * 128 := by
        rw [Nat.mul_succ, pow_add]
        rfl
      have digit : byte.toNat % 128 + 1 ≤ 128 := Nat.mod_lt _ (by decide)
      have nextRoom : number + 2 ^ (7 * length) * (byte.toNat % 128) < 2 ^ (7 * (length + 1)) := by
        calc
          number + 2 ^ (7 * length) * (byte.toNat % 128)
            < 2 ^ (7 * length) * (byte.toNat % 128 + 1) := by rw [Nat.mul_succ]; omega
          _ ≤ 2 ^ (7 * length) * 128 := Nat.mul_le_mul_left _ digit
          _ = 2 ^ (7 * (length + 1)) := nextPower.symm
      have nextNumber : number + 2 ^ (7 * length) * (byte.toNat % 128) +
          2 ^ (7 * (length + 1)) * payload front =
            number + 2 ^ (7 * length) * payload (byte :: front) := by
        rw [payload, nextPower]
        ring
      have fits : HasRoom tenth length byte := .inl (by omega)
      rw [List.cons_append, collect_cons room fits]
      simp only [(continues_iff byte).mpr large, if_true]
      rw [inductionHypothesis others nextRoom (by omega), nextNumber, List.length_cons,
        Nat.add_right_comm, Nat.add_assoc]

/-- The rounds over the first bytes of a buffer. -/
theorem collect_start
    {front : List UInt8}
    (continued : Endless front)
    (short : front.length ≤ 9)
    (rest : List UInt8) :
    collect tenth 0 0 (front ++ rest) =
      collect tenth (UInt64.ofNat (payload front)) front.length rest := by
  have started : collect tenth (UInt64.ofNat 0) 0 (front ++ rest) =
      collect tenth (UInt64.ofNat (0 + 2 ^ (7 * 0) * payload front)) (0 + front.length) rest :=
    collect_append continued (by decide) (by omega) rest
  simpa using started

/-- Behind nine bytes that go on, one without room leads to the end of the group. -/
theorem collect_of_full
    {front : List UInt8}
    (continued : Endless front)
    (full : front.length = 9)
    {byte : UInt8}
    (refused : ¬ tenth byte)
    (rest : List UInt8) :
    collect tenth 0 0 (front ++ byte :: rest) = .error (skip (byte :: rest)) := by
  have isFull : 7 * front.length = 63 := by omega
  rw [collect_start continued full.le, collect, if_pos ⟨isFull, refused⟩]
  rfl

variable (small : ∀ byte, tenth byte → byte < 0x80)
include small

/-- Of a group with ten bytes that go on, the tenth one has no room. -/
theorem collect_of_long
    {front : List UInt8}
    (continued : Endless front)
    (long : 10 ≤ front.length)
    (rest : List UInt8) :
    collect tenth 0 0 (front ++ rest) = .error (skip (front.drop 9 ++ rest)) := by
  have inside : 9 < front.length := long
  have behind : front.drop 9 = front[9] :: front.drop 10 := List.drop_eq_getElem_cons inside
  have large : (0x80 : UInt8) ≤ front[9] := continued _ (List.getElem_mem inside)
  have refused : ¬ tenth front[9] := fun admissible =>
    absurd (small _ admissible) (UInt8.not_lt.mpr large)
  have nine : (front.take 9).length = 9 := List.length_take_of_le inside.le
  have continuedNine : Endless (front.take 9) := fun byte among =>
    continued byte (List.mem_of_mem_take among)
  have skipped := collect_of_full continuedNine nine refused (front.drop 10 ++ rest)
  rwa [← List.cons_append, ← behind, ← List.append_assoc, List.take_append_drop] at skipped

/-- Without an end, the loop finds none, whether it runs out of room or not. -/
theorem collect_of_endless {bytes : List UInt8} (endless : Endless bytes) :
    collect tenth 0 0 bytes = .error .unterminated := by
  obtain short | long := Nat.lt_or_ge bytes.length 10
  · have started : collect tenth 0 0 (bytes ++ []) = .error .unterminated :=
      collect_start endless (Nat.le_of_lt_succ short) []
    rwa [List.append_nil] at started
  · have endlessRest : Endless (bytes.drop 9) := fun byte among =>
      endless byte (List.mem_of_mem_drop among)
    have skipped := collect_of_long small endless long []
    rwa [List.append_nil, List.append_nil, skip_of_endless endlessRest] at skipped

/-- The loop, where the first group ends. -/
theorem collect_of_end
    {front : List UInt8}
    {last : UInt8}
    (continued : Endless front)
    (isLast : last < 0x80)
    (rest : List UInt8) :
    collect tenth 0 0 (front ++ last :: rest) =
      if HasRoom tenth front.length last then
        .ok ⟨UInt64.ofNat (payload (front ++ [last])), last, front.length + 1⟩
      else .error (.overflow 64) := by
  by_cases room : HasRoom tenth front.length last
  · have bound : payload front < 2 ^ (7 * front.length) := by
      rw [two_pow_seven_mul]
      exact payload_lt front
    have digit : last.toNat % 128 = last.toNat := Nat.mod_eq_of_lt (UInt8.lt_iff_toNat_lt.mp isLast)
    rw [if_pos room, collect_start continued room.le_nine, collect_cons bound room,
      continues_eq_false isLast, payload_concat isLast, digit, two_pow_seven_mul]
    rfl
  · rw [if_neg room]
    obtain long | full : 10 ≤ front.length ∨ front.length = 9 := by
      have : ¬ front.length ≤ 8 := fun short => room (.inl short)
      omega
    · have endless : Endless (front.drop 9) := fun byte among =>
        continued byte (List.mem_of_mem_drop among)
      rw [collect_of_long small continued long, skip_of_end endless isLast]
    · have refused : ¬ tenth last := fun admissible => room (.inr ⟨full, admissible⟩)
      have continuedNone : Endless [] := fun _ among => absurd among List.not_mem_nil
      have atEnd : skip ([] ++ last :: rest) = .overflow 64 := skip_of_end continuedNone isLast rest
      rw [collect_of_full continued full refused]
      exact congrArg Except.error atEnd

end Loop

/-! ## Unsigned integers -/

theorem TenthUnsigned.lt {byte : UInt8} (tenth : TenthUnsigned byte) : byte < 0x80 :=
  UInt8.lt_of_le_of_lt tenth (by decide)

/-- The loop on words reads what the arithmetic on groups does. -/
theorem map_streamUnsigned (bytes : List UInt8) :
    (streamUnsigned bytes).map (fun (word, length) => (word.toNat, length)) = unsigned bytes := by
  obtain endless | ⟨front, last, rest, rfl, continued, small⟩ := endless_or_exists_end bytes
  · rw [streamUnsigned, collect_of_endless (fun _ => TenthUnsigned.lt) endless,
      unsigned_of_endless endless]
    rfl
  · rw [streamUnsigned, collect_of_end (fun _ => TenthUnsigned.lt) continued small,
      unsigned_of_end continued small]
    split
    · rename_i room
      have bound := (payload_lt_iff_hasRoom small room.le_nine).mpr room
      have sameNumber : (UInt64.ofNat (payload (front ++ [last]))).toNat =
          payload (front ++ [last]) := UInt64.toNat_ofNat_of_lt' bound
      exact congrArg (fun number => Except.ok (number, front.length + 1)) sameNumber
    · rfl

/-! ## Signed integers -/

theorem TenthSigned.lt {byte : UInt8} (tenth : TenthSigned byte) : byte < 0x80 := by
  obtain rfl | rfl := tenth <;> decide

/-- A word stands for every integer that differs from its number by a multiple of
`2 ^ 64`. -/
theorem toInt64_ofNat {number : Nat} {value : Int} (multiple : (2 ^ 64 : Int) ∣ number - value) :
    (UInt64.ofNat number).toInt64 = Int64.ofInt value := by
  have sameResidue : (number : Int) % (2 ^ 64 : Nat) = value % (2 ^ 64 : Nat) :=
    Int.emod_eq_emod_iff_emod_sub_eq_zero.mpr (Int.emod_eq_zero_of_dvd (by exact_mod_cast multiple))
  have sameBits : BitVec.ofNat 64 number = BitVec.ofInt 64 value := by
    rw [← BitVec.ofInt_natCast]
    apply BitVec.eq_of_toNat_eq
    rw [BitVec.toNat_ofInt, BitVec.toNat_ofInt, sameResidue]
  exact congrArg (fun bits : BitVec 64 => (UInt64.ofBitVec bits).toInt64) sameBits

/-- The sign bit of a group is the seventh bit of its last byte. -/
theorem signBit_iff {byte : UInt8} (small : byte < 0x80) :
    byte &&& 0x40 = 0x40 ↔ 64 ≤ byte.toNat := by
  have table : ∀ number < 128,
      UInt8.ofNat number &&& 0x40 = 0x40 ↔ 64 ≤ number := by
    decide +kernel
  have entry := table byte.toNat (UInt8.lt_iff_toNat_lt.mp small)
  rwa [UInt8.ofNat_toNat] at entry

/-- The sign bit of the last byte stands for a negative power of two. -/
theorem signedValue_of_end {front : List UInt8} {last : UInt8} (small : last < 0x80) :
    signedValue (front ++ [last]) =
      payload (front ++ [last]) - if 64 ≤ last.toNat then 2 ^ (7 * (front.length + 1)) else 0 := by
  have below := payload_lt front
  have half : 2 ^ (7 * (front.length + 1) - 1) = 128 ^ front.length * 64 := by
    rw [← two_pow_seven_mul, show 7 * (front.length + 1) - 1 = 7 * front.length + 6 by omega,
      pow_add]
    rfl
  have negative : payload (front ++ [last]) < 128 ^ front.length * 64 ↔ ¬ 64 ≤ last.toNat := by
    rw [payload_concat small, Nat.not_le]
    constructor
    · intro less
      exact Nat.lt_of_mul_lt_mul_left (by omega : 128 ^ front.length * last.toNat < _)
    · intro less
      have digit : 128 ^ front.length * (last.toNat + 1) ≤ 128 ^ front.length * 64 :=
        Nat.mul_le_mul_left _ less
      rw [Nat.mul_succ] at digit
      omega
  rw [signedValue, twosComplement, List.length_append, List.length_singleton, half]
  simp only [negative, ite_not]
  split <;> simp

/-- The word of a group with room stands for the integer that the group spells. -/
theorem signed_collected
    {front : List UInt8}
    {last : UInt8}
    (room : HasRoom TenthSigned front.length last)
    (small : last < 0x80) :
    (Collected.mk (UInt64.ofNat (payload (front ++ [last]))) last (front.length + 1)).signed =
      Int64.ofInt (signedValue (front ++ [last])) := by
  rw [Collected.signed, signedValue_of_end small]
  simp only [signBit_iff small]
  by_cases isNegative : 64 ≤ last.toNat
  · by_cases inWord : 7 * (front.length + 1) < 64
    · have below : payload (front ++ [last]) < 2 ^ (7 * (front.length + 1)) := by
        rw [two_pow_seven_mul]
        simpa using payload_lt (front ++ [last])
      have ones : (~~~0 : UInt64).toNat = 2 ^ 64 - 1 := rfl
      rw [if_pos ⟨inWord, isNegative⟩, if_pos isNegative, or_shiftLeft below inWord, ones]
      apply toInt64_ofNat
      refine ⟨2 ^ (7 * (front.length + 1)), ?_⟩
      push_cast
      ring
    · have tenByte : 7 * (front.length + 1) = 64 + 6 := by
        have := room.le_nine
        omega
      rw [if_neg fun signed => inWord signed.1, if_pos isNegative, tenByte]
      exact toInt64_ofNat ⟨2 ^ 6, by ring⟩
  · rw [if_neg fun signed => isNegative signed.2, if_neg isNegative]
    exact toInt64_ofNat ⟨0, by ring⟩

/-- The bounds of a width are shifted and negated within a word. -/
theorem outside_bounds_iff {width : Nat} (narrow : width < 64) (value : Int64) :
    (value < -(1 <<< Int64.ofNat (width - 1)) ∨ 1 <<< Int64.ofNat (width - 1) - 1 < value) ↔
      ¬ InWidth width value.toInt := by
  have table : ∀ places < 63,
      (-(1 <<< Int64.ofNat places) : Int64).toInt = -(2 ^ places) ∧
        (1 <<< Int64.ofNat places - 1 : Int64).toInt = 2 ^ places - 1 := by
    decide +kernel
  obtain ⟨least, greatest⟩ := table (width - 1) (by omega)
  rw [Int64.lt_iff_toInt_lt, Int64.lt_iff_toInt_lt, least, greatest, InWidth]
  omega

/-- The loop on words reads what the arithmetic on groups does. -/
theorem map_streamSigned (width : Nat) (bytes : List UInt8) :
    (streamSigned width bytes).map (fun (value, length) => (value.toInt, length)) =
      signed width bytes := by
  obtain endless | ⟨front, last, rest, rfl, continued, small⟩ := endless_or_exists_end bytes
  · rw [streamSigned, collect_of_endless (fun _ => TenthSigned.lt) endless,
      signed_of_endless width endless]
    rfl
  · rw [streamSigned, collect_of_end (fun _ => TenthSigned.lt) continued small,
      signed_of_end width continued small]
    split
    · rename_i room
      obtain ⟨lower, upper⟩ := (inWidth_iff_hasRoom small room.le_nine).mpr room
      have sameValue := Int64.toInt_ofInt_of_le lower upper
      simp only [bind, Except.bind, signed_collected room small]
      by_cases narrow : width < 64
      · simp only [outside_bounds_iff narrow, sameValue]
        split <;>
          simp [Except.map, pure, Except.pure, throw, throwThe, MonadExceptOf.throw, sameValue]
      · simp [narrow, Except.map, pure, Except.pure, sameValue]
    · rfl

/-! ## Bytes from an offset on -/

section Buffers

variable (buffer : List UInt8) (offset : Nat)

/-- A number is read at an offset exactly if it is read from the bytes behind it. -/
theorem readAt_eq_ok_iff
    (read : List UInt8 → Except Fault (α × Nat))
    (result : α × Nat) :
    readAt read buffer offset = .ok result ↔ read (buffer.drop offset) = .ok result := by
  rw [readAt]
  cases read (buffer.drop offset) <;> simp [Except.mapError]

/-- Faults at one offset are told apart. -/
theorem fault_at_inj (first second : Fault) :
    first.at offset = second.at offset ↔ first = second := by
  refine ⟨fun same => ?_, fun same => same ▸ rfl⟩
  cases first <;> cases second <;> simp_all [Fault.at]

/-- A number is refused at an offset exactly if it is refused from the bytes behind it.
-/
theorem readAt_eq_error_iff
    (read : List UInt8 → Except Fault (α × Nat))
    (fault : Fault) :
    readAt read buffer offset = .error (fault.at offset) ↔
      read (buffer.drop offset) = .error fault := by
  rw [readAt]
  cases read (buffer.drop offset) <;> simp [Except.mapError, fault_at_inj]

/-- The number of 32 bits is that of 64 bits, if it is small enough. -/
theorem readAt_u32 :
    readAt u32 buffer offset =
      match readAt unsigned buffer offset with
      | .ok (value, length) =>
          if value < 2 ^ 32 then .ok (UInt32.ofNat value, length)
          else .error (.integerOverflow offset 32)
      | .error cause => .error cause := by
  rw [readAt, readAt, u32]
  cases unsigned (buffer.drop offset) with
  | error fault => rfl
  | ok pair =>
      obtain ⟨value, length⟩ := pair
      simp only [bind, Except.bind, Except.mapError]
      by_cases small : value < 2 ^ 32
      · rw [if_pos small, if_pos small]
        rfl
      · rw [if_neg small, if_neg small]
        rfl

/-- The integer of 32 bits is the one that is read. -/
theorem map_readAt_i32 :
    (readAt i32 buffer offset).map (fun (value, length) => (value.toInt, length)) =
      readAt (signed 32) buffer offset := by
  rw [readAt, readAt, i32]
  cases outcome : signed 32 (buffer.drop offset) with
  | error fault => rfl
  | ok pair =>
      obtain ⟨value, length⟩ := pair
      obtain ⟨-, narrow, -⟩ := (signed_eq_ok_iff _ _ _ _).mp outcome
      obtain ⟨lower, upper⟩ := narrow (by decide)
      have sameValue := Int32.toInt_ofInt_of_le lower upper
      exact congrArg (fun number => Except.ok (number, length)) sameValue

/-- The integer of 64 bits is the one that is read. -/
theorem map_readAt_i64 :
    (readAt i64 buffer offset).map (fun (value, length) => (value.toInt, length)) =
      readAt (signed 64) buffer offset := by
  rw [readAt, readAt, i64]
  cases outcome : signed 64 (buffer.drop offset) with
  | error fault => rfl
  | ok pair =>
      obtain ⟨value, length⟩ := pair
      obtain ⟨⟨lower, upper⟩, -⟩ := (signed_eq_ok_iff _ _ _ _).mp outcome
      have sameValue := Int64.toInt_ofInt_of_le lower upper
      exact congrArg (fun number => Except.ok (number, length)) sameValue

/-- An unsigned integer is read exactly: from which bytes and with which value, and why it
is not. One of 32 bits is read from every spelling of it, padded to up to ten bytes. A
loop on words comes to the same. -/
theorem unsigned_exact :
    let bytes := buffer.drop offset
    let hasRoom (last : Nat) (byte : UInt8) := last ≤ 8 ∨ last = 9 ∧ byte ≤ 1
    (∀ value length,
      readAt unsigned buffer offset = .ok (value, length) ↔
        ∃ last byte, EndsAt bytes last byte ∧ hasRoom last byte ∧
          value = base128 bytes (last + 1) ∧ length = last + 1) ∧
    (∀ value length, readAt unsigned buffer offset = .ok (value, length) → value < 2 ^ 64) ∧
    (readAt unsigned buffer offset = .error (.malformedVarint offset) ↔
      ∀ last byte, ¬ EndsAt bytes last byte) ∧
    (readAt unsigned buffer offset = .error (.integerOverflow offset 64) ↔
      ∃ last byte, EndsAt bytes last byte ∧ ¬ hasRoom last byte) ∧
    (readAt u32 buffer offset =
      match readAt unsigned buffer offset with
      | .ok (value, length) =>
          if value < 2 ^ 32 then .ok (UInt32.ofNat value, length)
          else .error (.integerOverflow offset 32)
      | .error cause => .error cause) ∧
    (∀ (value : UInt32) (spelling rest : List UInt8),
      SpellsUnsigned value.toNat spelling → bytes = spelling ++ rest →
        readAt u32 buffer offset = .ok (value, spelling.length)) ∧
    (∀ (value : UInt32) (length : Nat),
      unsignedLength value.toNat ≤ length → length ≤ 10 →
        SpellsUnsigned value.toNat (groupOf length value.toNat)) ∧
    (streamUnsigned bytes).map (fun (word, length) => (word.toNat, length)) = unsigned bytes := by
  intro bytes hasRoom
  refine ⟨fun value length => ?_, fun value length read => ?_, ?_, ?_, ?_, ?_, ?_, ?_⟩
  · rw [readAt_eq_ok_iff]
    exact unsigned_eq_ok_iff_endsAt bytes value length
  · rw [readAt_eq_ok_iff, unsigned_eq_ok_iff] at read
    exact read.1
  · exact (readAt_eq_error_iff buffer offset unsigned .unterminated).trans
      (unsigned_eq_unterminated_iff bytes)
  · exact (readAt_eq_error_iff buffer offset unsigned (.overflow 64)).trans
      (unsigned_eq_overflow_iff bytes)
  · exact readAt_u32 buffer offset
  · intro value spelling rest spells same
    rw [readAt_eq_ok_iff]
    exact (u32_eq_ok_iff _ _ _).mpr ⟨spelling, rest, same, rfl, spells⟩
  · intro value length enough short
    exact spellsUnsigned_groupOf enough short
  · exact map_streamUnsigned bytes

/-- A signed integer of any width is read exactly, as an unsigned one is; its value is that
of the bits in two's complement. One of 32 or 64 bits keeps its value when it is put into
a word of that size, and is read from every spelling of it. -/
theorem signed_exact (width : Nat) :
    let bytes := buffer.drop offset
    let hasRoom (last : Nat) (byte : UInt8) :=
      last ≤ 8 ∨ last = 9 ∧ (byte = 0x00 ∨ byte = 0x7F)
    let value (last : Nat) : Int :=
      (BitVec.ofNat (7 * (last + 1)) (base128 bytes (last + 1))).toInt
    let inWidth (last : Nat) := -(2 ^ (width - 1)) ≤ value last ∧ value last < 2 ^ (width - 1)
    (∀ number length,
      readAt (signed width) buffer offset = .ok (number, length) ↔
        ∃ last byte, EndsAt bytes last byte ∧ hasRoom last byte ∧
          (width < 64 → inWidth last) ∧ number = value last ∧ length = last + 1) ∧
    (readAt (signed width) buffer offset = .error (.malformedVarint offset) ↔
      ∀ last byte, ¬ EndsAt bytes last byte) ∧
    (readAt (signed width) buffer offset = .error (.integerOverflow offset 64) ↔
      ∃ last byte, EndsAt bytes last byte ∧ ¬ hasRoom last byte) ∧
    (width < 64 →
      (readAt (signed width) buffer offset = .error (.integerOverflow offset width) ↔
        ∃ last byte, EndsAt bytes last byte ∧ hasRoom last byte ∧ ¬ inWidth last)) ∧
    ((readAt i32 buffer offset).map (fun (value, length) => (value.toInt, length)) =
      readAt (signed 32) buffer offset) ∧
    ((readAt i64 buffer offset).map (fun (value, length) => (value.toInt, length)) =
      readAt (signed 64) buffer offset) ∧
    (∀ (value : Int32) (spelling rest : List UInt8),
      SpellsSigned value.toInt spelling → bytes = spelling ++ rest →
        readAt i32 buffer offset = .ok (value, spelling.length)) ∧
    (∀ (value : Int64) (spelling rest : List UInt8),
      SpellsSigned value.toInt spelling → bytes = spelling ++ rest →
        readAt i64 buffer offset = .ok (value, spelling.length)) ∧
    (∀ (value : Int) (length : Nat),
      signedLength value ≤ length → length ≤ 10 →
        SpellsSigned value (groupOf length (value % 2 ^ (7 * length)).toNat)) ∧
    (streamSigned width bytes).map (fun (value, length) => (value.toInt, length)) =
      signed width bytes := by
  intro bytes hasRoom value inWidth
  refine ⟨fun number length => ?_, ?_, ?_, fun narrow => ?_, ?_, ?_, ?_, ?_, ?_, ?_⟩
  · rw [readAt_eq_ok_iff]
    exact signed_eq_ok_iff_endsAt bytes width number length
  · exact (readAt_eq_error_iff buffer offset (signed width) .unterminated).trans
      (signed_eq_unterminated_iff bytes width)
  · exact (readAt_eq_error_iff buffer offset (signed width) (.overflow 64)).trans
      (signed_eq_overflow_iff bytes width)
  · exact (readAt_eq_error_iff buffer offset (signed width) (.overflow width)).trans
      (signed_eq_overflow_width_iff bytes narrow)
  · exact map_readAt_i32 buffer offset
  · exact map_readAt_i64 buffer offset
  · intro value spelling rest spells same
    rw [readAt_eq_ok_iff]
    exact (i32_eq_ok_iff _ _ _).mpr ⟨spelling, rest, same, rfl, spells⟩
  · intro value spelling rest spells same
    rw [readAt_eq_ok_iff]
    exact (i64_eq_ok_iff _ _ _).mpr ⟨spelling, rest, same, rfl, spells⟩
  · intro value length enough short
    exact spellsSigned_groupOf enough short
  · exact map_streamSigned width bytes

end Buffers

end Numeral

end WebAssembly
