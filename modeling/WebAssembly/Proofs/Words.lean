import WebAssembly.Proofs.Form
import WebAssembly.Text.Item

/-!
# Words and literals of items

The numbers, names, mnemonics and floats of the text format are words, and what
names and data are spelled with closes no literal. What stands for an operand of an
instruction cannot be taken for a mnemonic, which is a small letter followed by
small letters, digits, points and underscores.
-/

namespace WebAssembly

/-! ## Words -/

namespace Token

/-- The test for a word looks at each of its characters. -/
theorem isWord_iff_all (text : String) :
    text ≠ "" ∧ (text.toList.all fun char => !isDelimiter char) = true ↔ IsWord text := by
  simp [IsWord]

instance (text : String) : Decidable (IsWord text) :=
  decidable_of_iff _ (isWord_iff_all text)

/-- No character of a text ends a word. -/
def Free (text : String) : Prop := ∀ char ∈ text.toList, isDelimiter char = false

/-- A word has no delimiter in it. -/
theorem IsWord.free {text : String} (isWord : IsWord text) : Free text := isWord.2

/-- A word may be followed by anything without a delimiter. -/
theorem IsWord.append
    {first second : String}
    (isWord : IsWord first)
    (free : Free second) :
    IsWord (first ++ second) := by
  refine ⟨fun empty => isWord.1 ?_, fun char among => ?_⟩
  · exact (String.append_eq_empty_iff.mp empty).1
  · rw [String.toList_append, List.mem_append] at among
    exact among.elim (isWord.2 char) (free char)

theorem Free.append
    {first second : String}
    (isFree : Free first)
    (free : Free second) :
    Free (first ++ second) := by
  intro char among
  rw [String.toList_append, List.mem_append] at among
  exact among.elim (isFree char) (free char)

/-- A digit is one of sixteen characters, or stands for none of them. -/
theorem digitChar_induction
    {motive : Char → Prop}
    (digits : ∀ digit < 16, motive (Nat.digitChar digit))
    (other : motive '*')
    (digit : Nat) :
    motive digit.digitChar := by
  obtain below | notBelow := Nat.lt_or_ge digit 16
  · exact digits digit below
  · have distinct (value : Nat) (below : value < 16) : digit ≠ value := by omega
    simpa [Nat.digitChar, distinct] using other

theorem isDelimiter_digitChar (digit : Nat) : isDelimiter digit.digitChar = false :=
  digitChar_induction (motive := fun char => isDelimiter char = false) (by decide) rfl digit

/-- The digits of a number are characters of digits. -/
theorem exists_digitChar_of_mem_toDigits
    {base number : Nat}
    (large : 1 < base)
    {char : Char}
    (among : char ∈ Nat.toDigits base number) :
    ∃ digit < base, char = Nat.digitChar digit := by
  induction number using Nat.strongRecOn with
  | ind number inductionHypothesis =>
      obtain below | notBelow := Nat.lt_or_ge number base
      · rw [Nat.toDigits_of_lt_base below, List.mem_singleton] at among
        exact ⟨number, below, among⟩
      · rw [Nat.toDigits_of_base_le large notBelow, List.mem_append, List.mem_singleton] at among
        obtain among | rfl := among
        · exact inductionHypothesis _ (Nat.div_lt_self (by omega) large) among
        · exact ⟨_, Nat.mod_lt _ (by omega), rfl⟩

/-- No digit of a number is a delimiter, in whatever base. -/
theorem isDelimiter_of_mem_toDigits
    {base number : Nat}
    (large : 1 < base)
    {char : Char}
    (among : char ∈ Nat.toDigits base number) :
    isDelimiter char = false := by
  obtain ⟨digit, -, rfl⟩ := exists_digitChar_of_mem_toDigits large among
  exact isDelimiter_digitChar digit

theorem isWord_natural (number : Nat) : IsWord (toString number) := by
  refine ⟨Nat.repr_ne_empty, fun char among => ?_⟩
  rw [Nat.toString_eq_repr, Nat.toList_repr] at among
  exact isDelimiter_of_mem_toDigits (by decide) among

theorem isWord_integer (number : Int) : IsWord (toString number) := by
  cases number with
  | ofNat number => exact isWord_natural number
  | negSucc number =>
      have isSign : IsWord "-" := by decide
      exact isSign.append (isWord_natural (number + 1)).free

theorem isWord_typeName (index : Nat) : IsWord (typeName index) :=
  IsWord.append (by decide) (isWord_natural index).free

theorem isWord_funcName (index : Nat) : IsWord (funcName index) :=
  IsWord.append (by decide) (isWord_natural index).free

theorem isWord_globalName (index : Nat) : IsWord (globalName index) :=
  IsWord.append (by decide) (isWord_natural index).free

/-- The name of a local is a word, be it a parameter or not. -/
theorem isWord_localName (params index : Nat) : IsWord (localName params index) := by
  rw [localName]
  split
  · exact IsWord.append (by decide) (isWord_natural index).free
  · exact IsWord.append (by decide) (isWord_natural index).free

theorem isWord_valueType (type : ValueType) : IsWord type.name := by
  cases type <;> decide

/-- A word that may be a mnemonic: a small letter, and behind it small letters,
digits, points and underscores. No mnemonic is the literal of an infinity. -/
structure IsPlain (text : String) : Prop where
  first : ∃ char ∈ text.toList.head?, char.isLower = true
  chars : ∀ char ∈ text.toList,
    char.isLower = true ∨ char.isDigit = true ∨ char = '.' ∨ char = '_'
  finite : text ≠ "inf"

/-- A mnemonic is made of letters, digits, points, bars and lines. -/
theorem isPlain_mnemonic (op : Opcode) : IsPlain op.mnemonic := by
  have allPlain : ∀ op ∈ Opcode.all,
      op.mnemonic.toList.head?.any Char.isLower = true ∧
      (op.mnemonic.toList.all fun char =>
        char.isLower || char.isDigit || char == '.' || char == '_') = true ∧
      op.mnemonic ≠ "inf" := by
    decide +kernel
  obtain ⟨first, chars, finite⟩ := allPlain op op.mem_all
  refine ⟨?_, fun char among => ?_, finite⟩
  · obtain ⟨char, head, small⟩ := (Option.any_eq_true _ _).mp first
    exact ⟨char, head, small⟩
  · simpa [or_assoc] using List.all_eq_true.mp chars char among

/-- A plain text is a word. -/
theorem IsPlain.isWord {text : String} (plain : IsPlain text) : IsWord text := by
  constructor
  · rintro rfl
    obtain ⟨char, head, -⟩ := plain.first
    cases head
  · intro char among
    by_contra ends
    have isEnd : isDelimiter char = true := by simpa using ends
    simp only [isDelimiter, Bool.or_eq_true, beq_iff_eq] at isEnd
    have spelled := plain.chars char among
    obtain (((rfl | rfl) | rfl) | rfl) | rfl := isEnd <;> revert spelled <;> decide

theorem isWord_mnemonic (op : Opcode) : IsWord op.mnemonic := (isPlain_mnemonic op).isWord

theorem free_digits {base number : Nat} (large : 1 < base) :
    Free (String.ofList (Nat.toDigits base number)) := by
  intro char among
  rw [String.toList_ofList] at among
  exact isDelimiter_of_mem_toDigits large among

end Token

namespace Decimal

/-- The digits of a mantissa with a point behind the first. -/
def mantissa : (digits : List Char) → List Char
  | [] => ['0']
  | [first] => [first]
  | first :: others => first :: '.' :: others

/-- A mantissa has a point behind its first digit if there are more. -/
theorem mantissa_cons_cons (first second : Char) (rest : List Char) :
    mantissa (first :: second :: rest) = first :: '.' :: second :: rest := rfl

/-- The exponent of the first digit. -/
def leadingExponent (decimal : Decimal) : Int :=
  decimal.exponent + ((Nat.toDigits 10 decimal.coefficient).length - 1 : Nat)

/-- A decimal is written as its mantissa and its exponent. -/
theorem toList_scientific (decimal : Decimal) :
    decimal.scientific.toList =
      mantissa (significantDigits decimal.coefficient) ++
        'e' :: (toString decimal.leadingExponent).toList := by
  have spelled : decimal.scientific =
      String.ofList (mantissa (significantDigits decimal.coefficient)) ++ "e" ++
        toString decimal.leadingExponent := rfl
  simp [spelled]

/-- Significant digits are digits in base ten. -/
theorem exists_digitChar_of_mem_significantDigits
    {number : Nat}
    {char : Char}
    (among : char ∈ significantDigits number) :
    ∃ digit < 10, char = Nat.digitChar digit := by
  rw [significantDigits, List.mem_reverse] at among
  exact Token.exists_digitChar_of_mem_toDigits (by decide)
    (List.mem_reverse.mp ((List.dropWhile_sublist _).mem among))

/-- A mantissa consists of digits and a point. -/
theorem mem_mantissa
    {number : Nat}
    {char : Char}
    (among : char ∈ mantissa (significantDigits number)) :
    char = '.' ∨ ∃ digit < 10, char = Nat.digitChar digit := by
  have digits {char : Char} (among : char ∈ significantDigits number) :=
    exists_digitChar_of_mem_significantDigits among
  cases spelled : significantDigits number with
  | nil =>
      rw [spelled] at among
      exact .inr ⟨0, by decide, List.mem_singleton.mp among⟩
  | cons first others =>
      rw [spelled] at among digits
      cases others with
      | nil => exact .inr (digits among)
      | cons second rest =>
          rw [mantissa_cons_cons, List.mem_cons, List.mem_cons] at among
          obtain rfl | isPoint | behind := among
          · exact .inr (digits List.mem_cons_self)
          · exact .inl isPoint
          · exact .inr (digits (List.mem_cons_of_mem _ behind))

/-- What is written for a decimal begins with a digit. -/
theorem head_scientific (decimal : Decimal) :
    ∃ digit < 10, decimal.scientific.toList.head? = some (Nat.digitChar digit) := by
  rw [toList_scientific]
  cases spelled : significantDigits decimal.coefficient with
  | nil => exact ⟨0, by decide, rfl⟩
  | cons first others =>
      have among : first ∈ significantDigits decimal.coefficient := by simp [spelled]
      obtain ⟨digit, below, rfl⟩ := exists_digitChar_of_mem_significantDigits among
      exact ⟨digit, below, by cases others <;> rfl⟩

end Decimal

namespace Token

theorem isWord_scientific (decimal : Decimal) : IsWord decimal.scientific := by
  have spelled := decimal.toList_scientific
  constructor
  · intro empty
    simp [empty] at spelled
  · intro char among
    rw [spelled, List.mem_append, List.mem_cons] at among
    obtain inMantissa | rfl | inExponent := among
    · obtain rfl | ⟨digit, -, rfl⟩ := Decimal.mem_mantissa inMantissa
      · rfl
      · exact isDelimiter_digitChar digit
    · rfl
    · exact (isWord_integer _).free char inExponent

/-- The literal of a float is a word, be it finite or not. -/
theorem isWord_floatLiteral (format : FloatFormat) (bits : Nat) : IsWord (format.literal bits) := by
  have unsigned : IsWord (format.unsignedLiteral bits) := by
    rw [FloatFormat.unsignedLiteral]
    split
    · split
      · decide
      · refine IsWord.append (by decide) ?_
        exact Free.append (IsWord.free (by decide)) (free_digits (by decide))
    · split
      · decide
      · exact isWord_scientific _
  rw [FloatFormat.literal]
  split
  · exact IsWord.append (by decide) unsigned.free
  · rwa [String.empty_append]

/-! ## Names and operands -/

/-- Whether a word is a name. -/
def isName (text : String) : Bool := text.toList.head? == some '$'

theorem isName_typeName (index : Nat) : isName (typeName index) = true := by
  simp [isName, typeName]

theorem isName_funcName (index : Nat) : isName (funcName index) = true := by
  simp [isName, funcName]

theorem isName_globalName (index : Nat) : isName (globalName index) = true := by
  simp [isName, globalName]

theorem isName_localName (params index : Nat) : isName (localName params index) = true := by
  rw [localName]
  split <;> simp [isName]

/-- A plain text is no name, as it does not begin with a dollar sign. -/
theorem IsPlain.isName_eq_false {text : String} (plain : IsPlain text) : isName text = false := by
  obtain ⟨char, head, small⟩ := plain.first
  rw [isName, head]
  refine beq_eq_false_iff_ne.mpr fun same => ?_
  obtain rfl := Option.some.inj same
  revert small
  decide

/-- A word that is neither a name nor spelled like a mnemonic. -/
structure IsOperand (text : String) : Prop where
  notName : isName text = false
  notPlain : ¬ IsPlain text

/-- No mnemonic begins with a dollar sign. -/
theorem not_isPlain_of_isName {text : String} (named : isName text = true) : ¬ IsPlain text := by
  intro plain
  rw [plain.isName_eq_false] at named
  cases named

/-- A word is an operand if it begins with neither a small letter nor a dollar
sign. -/
theorem isOperand_of_head
    {text : String}
    (char : Char)
    (head : text.toList.head? = some char)
    (notSmall : char.isLower = false)
    (notDollar : char ≠ '$') :
    IsOperand text := by
  constructor
  · rw [isName, head]
    exact beq_eq_false_iff_ne.mpr fun same => notDollar (Option.some.inj same)
  · rintro ⟨⟨first, firstHead, small⟩, -, -⟩
    obtain rfl : char = first := Option.some.inj (head.symm.trans firstHead)
    rw [notSmall] at small
    cases small

/-- A word that is not a name is an operand if some character of it is in no
mnemonic. -/
theorem isOperand_of_mem
    {text : String}
    (notName : isName text = false)
    (char : Char)
    (among : char ∈ text.toList)
    (foreign : ¬ (char.isLower = true ∨ char.isDigit = true ∨ char = '.' ∨ char = '_')) :
    IsOperand text :=
  ⟨notName, fun plain => foreign (plain.chars char among)⟩

/-- A text that begins with a digit is an operand. -/
theorem isOperand_of_digit
    {text : String}
    {digit : Nat}
    (head : text.toList.head? = some digit.digitChar)
    (below : digit < 10) :
    IsOperand text := by
  have digits : ∀ digit < 10,
      (Nat.digitChar digit).isLower = false ∧ Nat.digitChar digit ≠ '$' := by
    decide
  exact isOperand_of_head _ head (digits digit below).1 (digits digit below).2

theorem isOperand_natural (number : Nat) : IsOperand (toString number) := by
  have chars : (toString number).toList = Nat.toDigits 10 number := by simp
  cases spelled : Nat.toDigits 10 number with
  | nil => exact absurd spelled Nat.toDigits_ne_nil
  | cons char rest =>
      have among : char ∈ Nat.toDigits 10 number := by simp [spelled]
      obtain ⟨digit, below, rfl⟩ := exists_digitChar_of_mem_toDigits (by decide) among
      exact isOperand_of_digit (by rw [chars, spelled]; rfl) below

theorem isOperand_integer (number : Int) : IsOperand (toString number) := by
  cases number with
  | ofNat number => exact isOperand_natural number
  | negSucc number =>
      have chars : (toString (Int.negSucc number)).toList = '-' :: (number + 1).repr.toList := by
        have same : toString (Int.negSucc number) = "-" ++ (number + 1).repr := rfl
        simp [same]
      exact isOperand_of_head '-' (by rw [chars]; rfl) (by decide) (by decide)

theorem isOperand_scientific (decimal : Decimal) : IsOperand decimal.scientific := by
  obtain ⟨digit, below, head⟩ := decimal.head_scientific
  exact isOperand_of_digit head below

theorem isOperand_floatLiteral (format : FloatFormat) (bits : Nat) :
    IsOperand (format.literal bits) := by
  rw [FloatFormat.literal]
  split
  · exact isOperand_of_head '-' (by simp) (by decide) (by decide)
  rw [String.empty_append, FloatFormat.unsignedLiteral]
  split
  · split
    · exact ⟨rfl, fun plain => plain.finite rfl⟩
    · refine isOperand_of_mem ?_ ':' (by simp) (by decide)
      simp [isName]
  split
  · exact isOperand_of_head '0' (by simp) (by decide) (by decide)
  · exact isOperand_scientific _

theorem isOperand_offset (number : Nat) : IsOperand ("offset=" ++ toString number) :=
  isOperand_of_mem (by simp [isName]) '=' (by simp) (by decide)

theorem isOperand_align (number : Nat) : IsOperand ("align=" ++ toString number) :=
  isOperand_of_mem (by simp [isName]) '=' (by simp) (by decide)

/-! ## Literals -/

/-- A digit is none of the characters that a literal escapes. -/
theorem digitChar_ne_special (digit : Nat) : digit.digitChar ≠ '"' ∧ digit.digitChar ≠ '\\' :=
  digitChar_induction (motive := fun char => char ≠ '"' ∧ char ≠ '\\') (by decide) (by decide)
    digit

theorem isLiteral_digitChar (digit : Nat) : IsLiteral [Nat.digitChar digit] :=
  isLiteral_singleton (digitChar_ne_special digit).1 (digitChar_ne_special digit).2

theorem isLiteral_escapedByte (byte : UInt8) : IsLiteral (Quoted.escapedByte byte) :=
  (isLiteral_escaped _).append (isLiteral_digitChar _)

theorem isLiteral_nameChar (char : Char) : IsLiteral (Quoted.nameChar char) := by
  rw [Quoted.nameChar]
  split
  · exact isLiteral_escaped '"'
  split
  · exact isLiteral_escaped '\\'
  split
  · exact isLiteral_escapedByte _
  · exact isLiteral_singleton (by assumption) (by assumption)

theorem isLiteral_dataByte (byte : UInt8) : IsLiteral (Quoted.dataByte byte) := by
  simp only [Quoted.dataByte]
  split
  · exact isLiteral_escaped '"'
  split
  · exact isLiteral_escaped '\\'
  split
  · exact isLiteral_singleton (by assumption) (by assumption)
  · exact isLiteral_escapedByte _

end Token

end WebAssembly
