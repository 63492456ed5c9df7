import WebAssembly.Proofs.Numeral
import Mathlib.Algebra.BigOperators.Ring.Finset
import Mathlib.Tactic.Ring

/-!
# Which integers fit

A buffer either has no byte below `0x80`, or it is split at the first one, which ends its
first group. The two readers of integers decide on that split alone: nine bytes always
fit into 64 bits, a tenth one only if it adds nothing but the highest bit or, in a signed
integer, copies of it.

The place of the end and the number of a group are also given by the indices of the
bytes, which is how they are known in a buffer.
-/

namespace WebAssembly

namespace Numeral

/-! ## The first group -/

/-- No byte ends a group. -/
def Endless (bytes : List UInt8) : Prop := ∀ byte ∈ bytes, 0x80 ≤ byte

/-- Bytes without an end begin with one that goes on. -/
theorem endless_cons (byte : UInt8) (rest : List UInt8) :
    Endless (byte :: rest) ↔ 0x80 ≤ byte ∧ Endless rest :=
  List.forall_mem_cons

/-- Where all bytes go on, there is no end. -/
theorem groupEnd?_of_endless {bytes : List UInt8} (endless : Endless bytes) :
    groupEnd? bytes = none := by
  rw [groupEnd?, List.findIdx?_eq_none_iff]
  intro byte among
  simpa using endless byte among

/-- The first byte that does not go on is the end. -/
theorem groupEnd?_of_end
    {front : List UInt8}
    {last : UInt8}
    (continued : Endless front)
    (small : last < 0x80)
    (rest : List UInt8) :
    groupEnd? (front ++ last :: rest) = some front.length := by
  have notInFront : front.findIdx? (fun byte => decide (byte < 0x80)) = none :=
    groupEnd?_of_endless continued
  rw [groupEnd?, List.findIdx?_append, notInFront, List.findIdx?_cons]
  simp [small]

/-- A buffer without a complete group has no end of a group at all. -/
theorem endless_or_exists_end (bytes : List UInt8) :
    Endless bytes ∨
      ∃ front last rest, bytes = front ++ last :: rest ∧ Endless front ∧ last < 0x80 := by
  induction bytes with
  | nil => exact .inl fun _ among => absurd among List.not_mem_nil
  | cons byte bytes inductionHypothesis =>
      obtain small | large := UInt8.lt_or_le byte 0x80
      · exact .inr ⟨[], byte, bytes, rfl, fun _ among => absurd among List.not_mem_nil, small⟩
      · obtain endless | ⟨front, last, rest, rfl, continued, small⟩ := inductionHypothesis
        · exact .inl ((endless_cons byte bytes).mpr ⟨large, endless⟩)
        · exact .inr ⟨byte :: front, last, rest, rfl,
            (endless_cons byte front).mpr ⟨large, continued⟩, small⟩

/-- Without an end there is no group. -/
theorem group_of_endless {bytes : List UInt8} (endless : Endless bytes) :
    group bytes = .error .unterminated := by
  rw [group, groupEnd?_of_endless endless]
  rfl

theorem unsigned_of_endless {bytes : List UInt8} (endless : Endless bytes) :
    unsigned bytes = .error .unterminated := by
  rw [unsigned, group_of_endless endless]
  rfl

theorem signed_of_endless (width : Nat) {bytes : List UInt8} (endless : Endless bytes) :
    signed width bytes = .error .unterminated := by
  rw [signed, group_of_endless endless]
  rfl

section Ends

variable {front : List UInt8} {last : UInt8}

/-- The group up to an end is complete if it has ten bytes or fewer. -/
theorem group_of_end
    (continued : Endless front)
    (small : last < 0x80)
    (rest : List UInt8) :
    group (front ++ last :: rest) =
      if front.length ≤ 9 then .ok (front ++ [last]) else .error (.overflow 64) := by
  have taken : (front ++ last :: rest).take (front.length + 1) = front ++ [last] := by
    rw [List.take_length_add_append]
    rfl
  have short : front.length < maxGroupLength ↔ front.length ≤ 9 := Nat.lt_succ_iff
  simp only [group, groupEnd?_of_end continued small, taken, short]
  rfl

/-- Bytes further on stand above those in front. -/
theorem payload_append (front behind : List UInt8) :
    payload (front ++ behind) = payload front + 128 ^ front.length * payload behind := by
  induction front with
  | nil => simp [payload]
  | cons byte front inductionHypothesis =>
      rw [List.cons_append, payload, inductionHypothesis, payload, List.length_cons]
      ring

/-- The last byte stands above the bytes in front of it. -/
theorem payload_concat (small : last < 0x80) :
    payload (front ++ [last]) = payload front + 128 ^ front.length * last.toNat := by
  have bound : last.toNat < 128 := UInt8.lt_iff_toNat_lt.mp small
  have single : payload [last] = last.toNat := by simpa [payload] using bound
  rw [payload_append, single]

end Ends

/-! ## Integers of 64 bits -/

/-- A group has room in 64 bits if it has nine bytes or fewer, or ten with a last one
that is admissible there. -/
def HasRoom (tenth : UInt8 → Prop) (last : Nat) (byte : UInt8) : Prop :=
  last ≤ 8 ∨ last = 9 ∧ tenth byte

instance (tenth : UInt8 → Prop) [DecidablePred tenth] (last : Nat) (byte : UInt8) :
    Decidable (HasRoom tenth last byte) :=
  inferInstanceAs (Decidable (last ≤ 8 ∨ last = 9 ∧ tenth byte))

/-- No group that has room is longer than ten bytes. -/
theorem HasRoom.le_nine
    {tenth : UInt8 → Prop}
    {last : Nat}
    {byte : UInt8}
    (room : HasRoom tenth last byte) :
    last ≤ 9 := by
  obtain short | ⟨long, -⟩ := room <;> omega

section Ends

variable {front : List UInt8} {last : UInt8}

/-- An unsigned integer of ten bytes or fewer fits into 64 bits exactly if its last byte
has room. -/
theorem payload_lt_iff_hasRoom (small : last < 0x80) (short : front.length ≤ 9) :
    payload (front ++ [last]) < 2 ^ 64 ↔ HasRoom TenthUnsigned front.length last := by
  have below := payload_lt (front ++ [last])
  rw [List.length_append, List.length_singleton] at below
  obtain few | all := Nat.lt_or_eq_of_le short
  · have bounded : 128 ^ (front.length + 1) ≤ 128 ^ 9 := Nat.pow_le_pow_right (by decide) few
    exact iff_of_true (by omega) (.inl (Nat.le_of_lt_succ few))
  · have frontBelow := payload_lt front
    have tenth : last ≤ 1 ↔ last.toNat ≤ 1 := UInt8.le_iff_toNat_le
    rw [all] at frontBelow
    rw [payload_concat small, HasRoom, TenthUnsigned, all, tenth]
    omega

/-- The unsigned reader, where the first group ends. -/
theorem unsigned_of_end
    (continued : Endless front)
    (small : last < 0x80)
    (rest : List UInt8) :
    unsigned (front ++ last :: rest) =
      if HasRoom TenthUnsigned front.length last then
        .ok (payload (front ++ [last]), front.length + 1)
      else .error (.overflow 64) := by
  rw [unsigned, group_of_end continued small]
  by_cases short : front.length ≤ 9
  · have inRange := payload_lt_iff_hasRoom small short
    rw [if_pos short]
    by_cases room : HasRoom TenthUnsigned front.length last
    · rw [if_pos room]
      simp only [bind, Except.bind, inRange.mpr room, if_true, List.length_append,
        List.length_singleton]
      rfl
    · rw [if_neg room]
      simp only [bind, Except.bind, mt inRange.mp room, if_false]
      rfl
  · rw [if_neg short, if_neg fun room => short room.le_nine]
    rfl

/-- What is in a width is in any greater one. -/
theorem InWidth.mono
    {narrow wide : Nat}
    {value : Int}
    (notWider : narrow ≤ wide)
    (inWidth : InWidth narrow value) :
    InWidth wide value := by
  rw [inWidth_iff_magnitude_lt] at inWidth ⊢
  exact inWidth.trans_le (Nat.pow_le_pow_right (by decide) (Nat.sub_le_sub_right notWider 1))

instance (width : Nat) (value : Int) : Decidable (InWidth width value) :=
  inferInstanceAs (Decidable (_ ∧ _))

/-- The integer that a group spells. -/
def signedValue (group : List UInt8) : Int := twosComplement (7 * group.length) (payload group)

/-- A signed integer of ten bytes or fewer fits into 64 bits exactly if its last byte
has room. -/
theorem inWidth_iff_hasRoom (small : last < 0x80) (short : front.length ≤ 9) :
    InWidth 64 (signedValue (front ++ [last])) ↔ HasRoom TenthSigned front.length last := by
  obtain few | all := Nat.lt_or_eq_of_le short
  · refine iff_of_true (InWidth.mono ?_ (inWidth_twosComplement _ _ ?_ ?_))
      (.inl (Nat.le_of_lt_succ few))
    · simp only [List.length_append, List.length_singleton]
      omega
    · simp
    · rw [two_pow_seven_mul]
      exact payload_lt _
  · have frontBelow := payload_lt front
    have bound : last.toNat < 128 := UInt8.lt_iff_toNat_lt.mp small
    have isTenth : TenthSigned last ↔ last.toNat = 0 ∨ last.toNat = 127 := by
      rw [TenthSigned, ← UInt8.toNat_inj, ← UInt8.toNat_inj]
      rfl
    rw [all] at frontBelow
    rw [signedValue, payload_concat small, HasRoom, isTenth, List.length_append, all,
      List.length_singleton, InWidth, twosComplement]
    norm_num at frontBelow ⊢
    split <;> omega

/-- The signed reader, where the first group ends. -/
theorem signed_of_end
    (width : Nat)
    (continued : Endless front)
    (small : last < 0x80)
    (rest : List UInt8) :
    signed width (front ++ last :: rest) =
      if HasRoom TenthSigned front.length last then
        if width < 64 ∧ ¬ InWidth width (signedValue (front ++ [last])) then
          .error (.overflow width)
        else .ok (signedValue (front ++ [last]), front.length + 1)
      else .error (.overflow 64) := by
  have value (integer : Int) (length : Nat) :
      (if !fits 64 integer then throw (.overflow 64)
        else if width < 64 && !fits width integer then throw (.overflow width)
        else return (integer, length) : Except Fault (Int × Nat)) =
      if InWidth 64 integer then
        if width < 64 ∧ ¬ InWidth width integer then .error (.overflow width)
        else .ok (integer, length)
      else .error (.overflow 64) := by
    simp only [← fits_eq_true_iff]
    cases fits 64 integer <;> cases fits width integer <;> simp <;> rfl
  rw [signed, group_of_end continued small]
  by_cases short : front.length ≤ 9
  · have lengthEq : (front ++ [last]).length = front.length + 1 := by simp
    rw [if_pos short]
    simp only [← inWidth_iff_hasRoom small short, ← lengthEq]
    exact value (signedValue (front ++ [last])) _
  · rw [if_neg short, if_neg fun room => short room.le_nine]
    rfl

end Ends

/-! ## Places in a buffer -/

/-- The first byte below `0x80` is the one at an index. -/
structure EndsAt (bytes : List UInt8) (last : Nat) (byte : UInt8) : Prop where
  byte_eq : bytes[last]? = some byte
  small : byte < 0x80
  continued : ∀ index < last, ∀ other, bytes[index]? = some other → 0x80 ≤ other

/-- The low seven bits of the first bytes as digits to the base 128, the least
significant first. -/
def base128 (bytes : List UInt8) (count : Nat) : Nat :=
  ∑ index ∈ Finset.range count, (bytes.getD index 0).toNat % 128 * 128 ^ index

/-- The sum of digits by their indices is the payload of the bytes. -/
theorem base128_eq_payload (bytes : List UInt8) {count : Nat} (inside : count ≤ bytes.length) :
    base128 bytes count = payload (bytes.take count) := by
  induction bytes generalizing count with
  | nil =>
      obtain rfl : count = 0 := Nat.le_zero.mp inside
      rfl
  | cons byte bytes inductionHypothesis =>
      cases count with
      | zero => rfl
      | succ count =>
          have others := inductionHypothesis (Nat.le_of_succ_le_succ inside)
          rw [List.take_succ_cons, payload, ← others, base128, base128, Finset.sum_range_succ',
            Finset.mul_sum, Nat.add_comm]
          refine congrArg₂ _ (by simp) (Finset.sum_congr rfl fun index _ => ?_)
          rw [List.getD_cons_succ]
          ring

/-- A group ends at an index exactly if the bytes are split there by their first small
one. -/
theorem endsAt_iff (bytes : List UInt8) (last : Nat) (byte : UInt8) :
    EndsAt bytes last byte ↔
      ∃ front rest, bytes = front ++ byte :: rest ∧ front.length = last ∧ Endless front ∧
        byte < 0x80 := by
  constructor
  · rintro ⟨found, small, continued⟩
    obtain ⟨inside, isByte⟩ := List.getElem?_eq_some_iff.mp found
    refine ⟨bytes.take last, bytes.drop (last + 1), ?_, List.length_take_of_le inside.le, ?_, small⟩
    · rw [← isByte, List.getElem_cons_drop, List.take_append_drop]
    · intro other among
      obtain ⟨index, below, rfl⟩ := List.mem_take_iff_getElem.mp among
      exact continued index (by omega) _ (List.getElem?_eq_getElem _)
  · rintro ⟨front, rest, rfl, rfl, continued, small⟩
    refine ⟨by simp, small, fun index below other found => ?_⟩
    rw [List.getElem?_append_left below] at found
    exact continued other (List.mem_of_getElem? found)

theorem not_endsAt_of_endless
    {bytes : List UInt8}
    (endless : Endless bytes)
    (last : Nat)
    (byte : UInt8) :
    ¬ EndsAt bytes last byte := by
  intro ends
  have large := endless byte (List.mem_of_getElem? ends.byte_eq)
  exact absurd ends.small (UInt8.not_lt.mpr large)

/-- A buffer has one first end. -/
theorem endsAt_append_iff
    {front : List UInt8}
    {last : UInt8}
    (continued : Endless front)
    (small : last < 0x80)
    (rest : List UInt8)
    (index : Nat)
    (byte : UInt8) :
    EndsAt (front ++ last :: rest) index byte ↔ index = front.length ∧ byte = last := by
  have ends : EndsAt (front ++ last :: rest) front.length last :=
    (endsAt_iff _ _ _).mpr ⟨front, rest, rfl, rfl, continued, small⟩
  constructor
  · intro other
    obtain before | rfl | behind := Nat.lt_trichotomy index front.length
    · exact absurd other.small
        (UInt8.not_lt.mpr (ends.continued index before byte other.byte_eq))
    · exact ⟨rfl, Option.some.inj (other.byte_eq.symm.trans ends.byte_eq)⟩
    · exact absurd ends.small
        (UInt8.not_lt.mpr (other.continued _ behind last ends.byte_eq))
  · rintro ⟨rfl, rfl⟩
    exact ends

/-- What is stated of the end of the first group is stated of its last byte. -/
theorem exists_endsAt_append_iff
    {front : List UInt8}
    {last : UInt8}
    (continued : Endless front)
    (small : last < 0x80)
    (rest : List UInt8)
    (motive : Nat → UInt8 → Prop) :
    (∃ index byte, EndsAt (front ++ last :: rest) index byte ∧ motive index byte) ↔
      motive front.length last := by
  simp only [endsAt_append_iff continued small]
  constructor
  · rintro ⟨index, byte, ⟨rfl, rfl⟩, holds⟩
    exact holds
  · intro holds
    exact ⟨_, _, ⟨rfl, rfl⟩, holds⟩

theorem not_exists_endsAt
    {bytes : List UInt8}
    (endless : Endless bytes)
    (motive : Nat → UInt8 → Prop) :
    ¬ ∃ index byte, EndsAt bytes index byte ∧ motive index byte := by
  rintro ⟨index, byte, ends, -⟩
  exact not_endsAt_of_endless endless index byte ends

/-- The digits up to the end of the first group are those of the group. -/
theorem base128_of_end (front : List UInt8) (last : UInt8) (rest : List UInt8) :
    base128 (front ++ last :: rest) (front.length + 1) = payload (front ++ [last]) := by
  have taken : (front ++ last :: rest).take (front.length + 1) = front ++ [last] := by
    rw [List.take_length_add_append]
    rfl
  rw [base128_eq_payload _ (by simp), taken]

/-! ## Readers by places -/

section Places

variable (bytes : List UInt8)

/-- An unsigned integer is read exactly from a group with room, with its digits for a
value. -/
theorem unsigned_eq_ok_iff_endsAt (value length : Nat) :
    unsigned bytes = .ok (value, length) ↔
      ∃ last byte, EndsAt bytes last byte ∧ HasRoom TenthUnsigned last byte ∧
        value = base128 bytes (last + 1) ∧ length = last + 1 := by
  obtain endless | ⟨front, last, rest, rfl, continued, small⟩ := endless_or_exists_end bytes
  · rw [unsigned_of_endless endless]
    exact iff_of_false (by simp) (not_exists_endsAt endless _)
  · rw [exists_endsAt_append_iff continued small, base128_of_end, unsigned_of_end continued small]
    split <;> simp_all [eq_comm]

/-- No end is reported exactly if there is none. -/
theorem unsigned_eq_unterminated_iff :
    unsigned bytes = .error .unterminated ↔ ∀ last byte, ¬ EndsAt bytes last byte := by
  obtain endless | ⟨front, last, rest, rfl, continued, small⟩ := endless_or_exists_end bytes
  · rw [unsigned_of_endless endless]
    exact iff_of_true rfl (not_endsAt_of_endless endless)
  · have ends := (endsAt_append_iff continued small rest _ _).mpr ⟨rfl, rfl⟩
    rw [unsigned_of_end continued small]
    refine iff_of_false ?_ fun none => none _ _ ends
    split <;> simp

/-- An overflow is reported exactly if the last byte has no room. -/
theorem unsigned_eq_overflow_iff :
    unsigned bytes = .error (.overflow 64) ↔
      ∃ last byte, EndsAt bytes last byte ∧ ¬ HasRoom TenthUnsigned last byte := by
  obtain endless | ⟨front, last, rest, rfl, continued, small⟩ := endless_or_exists_end bytes
  · rw [unsigned_of_endless endless]
    exact iff_of_false (by simp) (not_exists_endsAt endless _)
  · rw [exists_endsAt_append_iff continued small, unsigned_of_end continued small]
    split <;> simp_all

/-- The integer whose bits are the digits up to an index. -/
def valueTo (last : Nat) : Int :=
  (BitVec.ofNat (7 * (last + 1)) (base128 bytes (last + 1))).toInt

/-- Two's complement is the integer of a bit vector. -/
theorem toInt_ofNat_eq_twosComplement
    {width number : Nat}
    (positive : 0 < width)
    (room : number < 2 ^ width) :
    (BitVec.ofNat width number).toInt = twosComplement width number := by
  have double := two_pow_eq_double width positive
  have half : 2 * number < 2 ^ width ↔ number < 2 ^ (width - 1) := by omega
  rw [BitVec.toInt_eq_toNat_cond, BitVec.toNat_ofNat, Nat.mod_eq_of_lt room, twosComplement]
  simp only [half, Nat.cast_pow, Nat.cast_ofNat]

/-- The value at the end of a group is that of the group. -/
theorem valueTo_of_end (front : List UInt8) (last : UInt8) (rest : List UInt8) :
    valueTo (front ++ last :: rest) front.length = signedValue (front ++ [last]) := by
  have room := payload_lt (front ++ [last])
  have length : (front ++ [last]).length = front.length + 1 := by simp
  rw [length, ← two_pow_seven_mul] at room
  rw [valueTo, base128_of_end, signedValue, length]
  exact toInt_ofNat_eq_twosComplement (by omega) room

/-- A signed integer is read exactly from a group with room, if its value is in the
width. -/
theorem signed_eq_ok_iff_endsAt (width : Nat) (value : Int) (length : Nat) :
    signed width bytes = .ok (value, length) ↔
      ∃ last byte, EndsAt bytes last byte ∧ HasRoom TenthSigned last byte ∧
        (width < 64 → InWidth width (valueTo bytes last)) ∧
        value = valueTo bytes last ∧ length = last + 1 := by
  obtain endless | ⟨front, last, rest, rfl, continued, small⟩ := endless_or_exists_end bytes
  · rw [signed_of_endless width endless]
    exact iff_of_false (by simp) (not_exists_endsAt endless _)
  · rw [exists_endsAt_append_iff continued small, valueTo_of_end,
      signed_of_end width continued small]
    split
    · split <;> simp_all [eq_comm]
    · simp_all

theorem signed_eq_unterminated_iff (width : Nat) :
    signed width bytes = .error .unterminated ↔ ∀ last byte, ¬ EndsAt bytes last byte := by
  obtain endless | ⟨front, last, rest, rfl, continued, small⟩ := endless_or_exists_end bytes
  · rw [signed_of_endless width endless]
    exact iff_of_true rfl (not_endsAt_of_endless endless)
  · have ends := (endsAt_append_iff continued small rest _ _).mpr ⟨rfl, rfl⟩
    rw [signed_of_end width continued small]
    refine iff_of_false ?_ fun none => none _ _ ends
    split
    · split <;> simp
    · simp

/-- The overflow of 64 bits comes before that of the width. -/
theorem signed_eq_overflow_iff (width : Nat) :
    signed width bytes = .error (.overflow 64) ↔
      ∃ last byte, EndsAt bytes last byte ∧ ¬ HasRoom TenthSigned last byte := by
  obtain endless | ⟨front, last, rest, rfl, continued, small⟩ := endless_or_exists_end bytes
  · rw [signed_of_endless width endless]
    exact iff_of_false (by simp) (not_exists_endsAt endless _)
  · rw [exists_endsAt_append_iff continued small, signed_of_end width continued small]
    by_cases room : HasRoom TenthSigned front.length last
    · rw [if_pos room]
      refine iff_of_false ?_ (not_not_intro room)
      split
      · rename_i outside
        intro same
        injection same with sameFault
        injection sameFault with sameWidth
        omega
      · simp
    · rw [if_neg room]
      exact iff_of_true rfl room

/-- An overflow of the width is reported exactly if there is room but the value is not
in it. -/
theorem signed_eq_overflow_width_iff {width : Nat} (narrow : width < 64) :
    signed width bytes = .error (.overflow width) ↔
      ∃ last byte, EndsAt bytes last byte ∧ HasRoom TenthSigned last byte ∧
        ¬ InWidth width (valueTo bytes last) := by
  obtain endless | ⟨front, last, rest, rfl, continued, small⟩ := endless_or_exists_end bytes
  · rw [signed_of_endless width endless]
    exact iff_of_false (by simp) (not_exists_endsAt endless _)
  · rw [exists_endsAt_append_iff continued small, valueTo_of_end,
      signed_of_end width continued small]
    by_cases room : HasRoom TenthSigned front.length last
    · rw [if_pos room]
      split <;> simp_all
    · have notWide : width ≠ 64 := by omega
      rw [if_neg room]
      simp [room, notWide.symm]

end Places

end Numeral

end WebAssembly
