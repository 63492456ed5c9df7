import WebAssembly.Proofs.Words
import Mathlib.Data.List.Nodup

/-!
# What is spelled alike is alike

Numbers, names, mnemonics and quoted strings are determined by how they are
spelled.
-/

namespace WebAssembly

namespace Token

/-! ## Numbers -/

/-- The number that a hexadecimal digit stands for. -/
def digitValue (char : Char) : Nat :=
  ((List.range 16).find? fun digit => digit.digitChar == char).getD 0

/-- A digit is read back from its character. -/
theorem digitValue_digitChar {digit : Nat} (below : digit < 16) :
    digitValue digit.digitChar = digit := by
  have inverse : ∀ digit < 16, digitValue (Nat.digitChar digit) = digit := by decide
  exact inverse digit below

/-- Digits in base 16 have characters of their own. -/
theorem digitChar_injective
    {first second : Nat}
    (firstBelow : first < 16)
    (secondBelow : second < 16)
    (same : first.digitChar = second.digitChar) :
    first = second := by
  rw [← digitValue_digitChar firstBelow, same, digitValue_digitChar secondBelow]

/-- A number is determined by its digits, in any base that has digits of its own. -/
theorem toDigits_injective
    {base : Nat}
    (large : 1 < base)
    (small : base ≤ 16)
    {first second : Nat}
    (same : Nat.toDigits base first = Nat.toDigits base second) :
    first = second := by
  induction first using Nat.strongRecOn generalizing second with
  | ind first inductionHypothesis =>
      have many {number : Nat} (above : base ≤ number) :
          (Nat.toDigits base number).length ≠ 1 := by
        rw [Nat.toDigits_of_base_le large above, List.length_append, List.length_singleton]
        have nonempty : Nat.toDigits base (number / base) ≠ [] := Nat.toDigits_ne_nil
        have := List.length_pos_iff.mpr nonempty
        omega
      obtain firstBelow | firstAbove := Nat.lt_or_ge first base
      · rw [Nat.toDigits_of_lt_base firstBelow] at same
        obtain secondBelow | secondAbove := Nat.lt_or_ge second base
        · rw [Nat.toDigits_of_lt_base secondBelow, List.singleton_inj] at same
          exact digitChar_injective (by omega) (by omega) same
        · exact absurd (congrArg List.length same.symm) (many secondAbove)
      · obtain secondBelow | secondAbove := Nat.lt_or_ge second base
        · rw [Nat.toDigits_of_lt_base secondBelow] at same
          exact absurd (congrArg List.length same) (many firstAbove)
        · rw [Nat.toDigits_of_base_le large firstAbove, Nat.toDigits_of_base_le large secondAbove,
            List.append_singleton_inj] at same
          have positive : 0 < base := by omega
          have sameFront := inductionHypothesis _ (Nat.div_lt_self (by omega) large) same.1
          have sameLast : first % base = second % base :=
            digitChar_injective (by have := Nat.mod_lt first positive; omega)
              (by have := Nat.mod_lt second positive; omega) same.2
          rw [← Nat.div_add_mod first base, ← Nat.div_add_mod second base, sameFront, sameLast]

theorem toString_nat_injective {first second : Nat} (same : toString first = toString second) :
    first = second := by
  have sameDigits := congrArg String.toList same
  simp only [Nat.toString_eq_repr, Nat.toList_repr] at sameDigits
  exact toDigits_injective (by decide) (by decide) sameDigits

/-- No natural number is spelled like a negative one. -/
theorem toString_nat_ne_negSucc (first second : Nat) :
    toString first ≠ toString (Int.negSucc second) := by
  intro same
  have spelled : toString (Int.negSucc second) = "-" ++ (second + 1).repr := rfl
  have sameChars := congrArg String.toList same
  rw [spelled, Nat.toString_eq_repr, Nat.toList_repr, String.toList_append] at sameChars
  have sign : '-' ∈ Nat.toDigits 10 first := by simp [sameChars]
  have digit := Nat.isDigit_of_mem_toDigits (by decide) (Nat.le_refl 10) sign
  revert digit
  decide

theorem toString_int_injective {first second : Int} (same : toString first = toString second) :
    first = second := by
  cases first with
  | ofNat first =>
      cases second with
      | ofNat second => exact congrArg Int.ofNat (toString_nat_injective same)
      | negSucc second => exact absurd same (toString_nat_ne_negSucc first second)
  | negSucc first =>
      cases second with
      | ofNat second => exact absurd same.symm (toString_nat_ne_negSucc second first)
      | negSucc second =>
          have sameDigits : (first + 1).repr = (second + 1).repr :=
            String.append_right_inj "-" |>.mp same
          have sameNumber := toString_nat_injective sameDigits
          rw [Nat.add_right_cancel sameNumber]

/-! ## Names -/

theorem typeName_injective {first second : Nat} (same : typeName first = typeName second) :
    first = second :=
  toString_nat_injective ((String.append_right_inj "$t").mp same)

theorem funcName_injective {first second : Nat} (same : funcName first = funcName second) :
    first = second :=
  toString_nat_injective ((String.append_right_inj "$f").mp same)

theorem globalName_injective {first second : Nat} (same : globalName first = globalName second) :
    first = second :=
  toString_nat_injective ((String.append_right_inj "$g").mp same)

/-- In one function, params and other locals do not share names. -/
theorem localName_injective
    (params : Nat)
    {first second : Nat}
    (same : localName params first = localName params second) :
    first = second := by
  have distinct (first second : String) : "$p" ++ first ≠ "$l" ++ second := by
    intro same
    have sameChars := congrArg String.toList same
    simp at sameChars
  rw [localName, localName] at same
  split at same <;> split at same
  · exact toString_nat_injective ((String.append_right_inj "$p").mp same)
  · exact absurd same (distinct _ _)
  · exact absurd same.symm (distinct _ _)
  · exact toString_nat_injective ((String.append_right_inj "$l").mp same)

/-- Each value type has a name of its own. -/
theorem valueTypeName_injective {first second : ValueType} (same : first.name = second.name) :
    first = second := by
  have nodup : (ValueType.all.map fun type => type.name.toList).Nodup := by decide +kernel
  have complete (type : ValueType) : type ∈ ValueType.all := by cases type <;> decide
  exact List.inj_on_of_nodup_map nodup (complete first) (complete second)
    (congrArg String.toList same)

/-- A number for a spelling, which is quicker to compare. -/
def spellingNumber (text : String) : Nat :=
  text.toList.foldl (fun number char => 256 * number + char.toNat) 0

/-- Each opcode has a mnemonic of its own. -/
theorem mnemonic_injective {first second : Opcode} (same : first.mnemonic = second.mnemonic) :
    first = second := by
  have nodup : (Opcode.all.map fun op => spellingNumber op.mnemonic).Nodup := by decide +kernel
  exact List.inj_on_of_nodup_map nodup first.mem_all second.mem_all (congrArg spellingNumber same)

end Token

/-! ## Quoted strings -/

/-- Lists that consist of pieces are equal only if they consist of the same ones,
where the length of a piece shows in what begins with it. -/
theorem flatMap_injective
    {spell : α → List β}
    (injective : ∀ first second, spell first = spell second → first = second)
    {size : List β → Nat}
    (positive : ∀ list, 0 < size list)
    (sized : ∀ item rest, size (spell item ++ rest) = (spell item).length)
    {first second : List α}
    (same : first.flatMap spell = second.flatMap spell) :
    first = second := by
  have nonempty (item : α) : spell item ≠ [] := by
    rw [← List.length_pos_iff, ← sized item []]
    exact positive _
  induction first generalizing second with
  | nil =>
      cases second with
      | nil => rfl
      | cons item rest =>
          rw [List.flatMap_nil, List.flatMap_cons] at same
          exact absurd (List.append_eq_nil_iff.mp same.symm).1 (nonempty item)
  | cons item rest inductionHypothesis =>
      cases second with
      | nil =>
          rw [List.flatMap_nil, List.flatMap_cons] at same
          exact absurd (List.append_eq_nil_iff.mp same).1 (nonempty item)
      | cons other others =>
          rw [List.flatMap_cons, List.flatMap_cons] at same
          have sameLength : (spell item).length = (spell other).length := by
            rw [← sized item, same, sized]
          obtain ⟨sameItem, sameRest⟩ := List.append_inj same sameLength
          rw [injective _ _ sameItem, inductionHypothesis sameRest]

namespace Quoted

/-- How many characters of a literal stand for its first character or byte. -/
def unitLength : List Char → Nat
  | '\\' :: char :: _ => if char = '"' ∨ char = '\\' then 2 else 3
  | _ => 1

/-- A unit of a literal has at least one character. -/
theorem unitLength_pos (list : List Char) : 0 < unitLength list := by
  unfold unitLength
  split
  · split <;> decide
  · decide

/-- A character that is no backslash is a unit of its own. -/
theorem unitLength_singleton {char : Char} (notBackslash : char ≠ '\\') (rest : List Char) :
    unitLength ([char] ++ rest) = 1 := by
  rw [List.singleton_append, unitLength]
  simp [notBackslash]

theorem unitLength_escapedByte (byte : UInt8) (rest : List Char) :
    unitLength (escapedByte byte ++ rest) = (escapedByte byte).length := by
  simp [escapedByte, hexDigits, unitLength]

theorem unitLength_nameChar (char : Char) (rest : List Char) :
    unitLength (nameChar char ++ rest) = (nameChar char).length := by
  rw [nameChar]
  split
  · rfl
  split
  · rfl
  split
  · exact unitLength_escapedByte _ _
  · exact unitLength_singleton (by assumption) rest

theorem unitLength_dataByte (byte : UInt8) (rest : List Char) :
    unitLength (dataByte byte ++ rest) = (dataByte byte).length := by
  simp only [dataByte]
  split
  · rfl
  split
  · rfl
  split
  · exact unitLength_singleton (by assumption) rest
  · exact unitLength_escapedByte _ _

/-- The number of the character or byte that a piece of a literal stands for. -/
def unitNumber : List Char → Nat
  | [_, high, low] => 16 * Token.digitValue high + Token.digitValue low
  | [_, char] => char.toNat
  | [char] => char.toNat
  | _ => 0

theorem unitNumber_escapedByte (byte : UInt8) : unitNumber (escapedByte byte) = byte.toNat := by
  have below := byte.toNat_lt
  rw [escapedByte, hexDigits, unitNumber, Token.digitValue_digitChar (by omega),
    Token.digitValue_digitChar (by omega)]
  omega

theorem unitNumber_nameChar (char : Char) : unitNumber (nameChar char) = char.toNat := by
  rw [nameChar]
  split
  · simp_all [unitNumber]
  split
  · simp_all [unitNumber]
  split
  · rw [unitNumber_escapedByte]
    exact UInt8.toNat_ofNat_of_lt' (by rw [UInt8.size]; omega)
  · rw [unitNumber]

/-- Every byte is the number of a character. -/
theorem toNat_dataChar (byte : UInt8) : (Char.ofNat byte.toNat).toNat = byte.toNat := by
  have valid : byte.toNat.isValidChar := Or.inl (by have := byte.toNat_lt; omega)
  rw [Char.ofNat, dif_pos valid]
  rfl

theorem unitNumber_dataByte (byte : UInt8) : unitNumber (dataByte byte) = byte.toNat := by
  have sameNumber := toNat_dataChar byte
  simp only [dataByte]
  split
  · simp_all [unitNumber]
  split
  · simp_all [unitNumber]
  split
  · rw [unitNumber, sameNumber]
  · exact unitNumber_escapedByte byte

/-- A name is determined by its literal. -/
theorem name_injective
    {first second : String}
    (same : first.toList.flatMap nameChar = second.toList.flatMap nameChar) :
    first = second := by
  have injective (first second : Char) (same : nameChar first = nameChar second) :
      first = second := by
    rw [← Char.toNat_inj, ← unitNumber_nameChar, same, unitNumber_nameChar]
  exact String.toList_inj.mp
    (flatMap_injective injective unitLength_pos unitLength_nameChar same)

/-- Data is determined by its literal. -/
theorem data_injective
    {first second : List UInt8}
    (same : first.flatMap dataByte = second.flatMap dataByte) :
    first = second := by
  have injective (first second : UInt8) (same : dataByte first = dataByte second) :
      first = second := by
    rw [← UInt8.toNat_inj, ← unitNumber_dataByte, same, unitNumber_dataByte]
  exact flatMap_injective injective unitLength_pos unitLength_dataByte same

end Quoted

end WebAssembly
