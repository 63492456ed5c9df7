import WebAssembly.Proofs.Literals

/-!
# Reading literals

A number is read from its decimal digits.

A string literal is read up to the quotation mark that closes it. A backslash takes a
quotation mark, another backslash, or the two hexadecimal digits of a byte. Every
other character stands for its UTF-8 bytes.

What names and data are spelled with is read back, whatever follows the literal, since
the quotation mark that closes it is the only one within that no backslash escapes.
-/

namespace WebAssembly

/-- The number that decimal digits stand for. -/
def numeral? (text : String) : Option Nat :=
  if text ≠ "" ∧ text.toList.all Char.isDigit = true then
    some (Nat.ofDigitChars 10 text.toList 0)
  else none

theorem numeral?_toString (number : Nat) : numeral? (toString number) = some number := by
  have digits : (toString number).toList = Nat.toDigits 10 number := by
    rw [Nat.toString_eq_repr, Nat.toList_repr]
  have allDigits : (toString number).toList.all Char.isDigit = true := by
    rw [digits, List.all_eq_true]
    intro char among
    exact Nat.isDigit_of_mem_toDigits (by decide) (Nat.le_refl 10) among
  rw [numeral?, if_pos ⟨(Token.isWord_natural number).1, allDigits⟩, digits,
    Nat.ofDigitChars_ten_toDigits]

namespace Quoted

/-- The number that a hexadecimal digit stands for. -/
def hexValue? (char : Char) : Option Nat :=
  (List.range 16).find? fun digit => digit.digitChar == char.toLower

/-- The bytes of the literal that is open in front of some characters, and what
follows the quotation mark that closes it. -/
def read? : List Char → Option (List UInt8 × List Char)
  | [] => none
  | '"' :: rest => some ([], rest)
  | '\\' :: '"' :: rest => do
      let (bytes, behind) ← read? rest
      return (0x22 :: bytes, behind)
  | '\\' :: '\\' :: rest => do
      let (bytes, behind) ← read? rest
      return (0x5C :: bytes, behind)
  | '\\' :: high :: low :: rest => do
      let byte := 16 * (← hexValue? high) + (← hexValue? low)
      let (bytes, behind) ← read? rest
      return (byte.toUInt8 :: bytes, behind)
  | '\\' :: _ => none
  | char :: rest => do
      let (bytes, behind) ← read? rest
      return (String.utf8EncodeChar char ++ bytes, behind)

/-- The bytes of the literal that some characters begin with, and what follows it. -/
def literal? : List Char → Option (List UInt8 × List Char)
  | '"' :: rest => read? rest
  | _ => none

/-- The bytes that the characters between two quotation marks stand for. -/
def content? (content : List Char) : Option (List UInt8) :=
  match read? (content ++ ['"']) with
  | some (bytes, []) => some bytes
  | _ => none

theorem hexValue?_digitChar {digit : Nat} (below : digit < 16) :
    hexValue? digit.digitChar = some digit := by
  have inverse : ∀ digit < 16, hexValue? (Nat.digitChar digit) = some digit := by decide
  exact inverse digit below

section Units

variable {rest behind : List Char} {bytes : List UInt8}

/-- A character that stands for itself is read as its UTF-8. -/
theorem read?_char
    {char : Char}
    (notQuote : char ≠ '"')
    (notBackslash : char ≠ '\\')
    (others : read? rest = some (bytes, behind)) :
    read? (char :: rest) = some (String.utf8EncodeChar char ++ bytes, behind) := by
  simp [read?, notBackslash, others]

/-- Two hexadecimal digits, none of which could be taken for a special character. -/
theorem read?_hexadecimal
    {high low : Char}
    {first second : Nat}
    (highValue : hexValue? high = some first)
    (lowValue : hexValue? low = some second)
    (notQuote : high ≠ '"')
    (notBackslash : high ≠ '\\')
    (others : read? rest = some (bytes, behind)) :
    read? ('\\' :: high :: low :: rest) =
      some ((16 * first + second).toUInt8 :: bytes, behind) := by
  simp only [read?, highValue, lowValue, others]
  rfl

/-- An escaped byte is read as this byte. -/
theorem read?_escapedByte
    (byte : UInt8)
    (others : read? rest = some (bytes, behind)) :
    read? (escapedByte byte ++ rest) = some (byte :: bytes, behind) := by
  have below := byte.toNat_lt
  have read := read?_hexadecimal (hexValue?_digitChar (show byte.toNat / 16 < 16 by omega))
    (hexValue?_digitChar (show byte.toNat % 16 < 16 by omega)) (Token.digitChar_ne_special _).1
    (Token.digitChar_ne_special _).2 others
  rw [Nat.div_add_mod, Nat.toUInt8_eq, UInt8.ofNat_toNat] at read
  exact read

/-- A character that takes one byte stands for its own number. -/
theorem utf8EncodeChar_ascii {char : Char} (ascii : char.toNat ≤ 0x7F) :
    String.utf8EncodeChar char = [char.toNat.toUInt8] := by
  have below : char.val.toNat ≤ 127 := ascii
  simp only [String.utf8EncodeChar, below, if_true]
  rfl

/-- A character below 127 is its own byte in UTF-8. -/
theorem utf8EncodeChar_dataChar {byte : UInt8} (ascii : byte.toNat ≤ 0x7E) :
    String.utf8EncodeChar (Char.ofNat byte.toNat) = [byte] := by
  rw [utf8EncodeChar_ascii (by rw [toNat_dataChar]; omega), toNat_dataChar, Nat.toUInt8_eq,
    UInt8.ofNat_toNat]

/-- A character of a name is read as its UTF-8, however it is spelled. -/
theorem read?_nameChar
    (char : Char)
    (others : read? rest = some (bytes, behind)) :
    read? (nameChar char ++ rest) = some (String.utf8EncodeChar char ++ bytes, behind) := by
  rw [nameChar]
  split
  · rename_i quote
    simp only [quote, List.cons_append, List.nil_append, read?, others]
    rfl
  split
  · rename_i backslash
    simp only [backslash, List.cons_append, List.nil_append, read?, others]
    rfl
  split
  · rename_i control
    rw [utf8EncodeChar_ascii (by omega)]
    exact read?_escapedByte _ others
  · exact read?_char (by assumption) (by assumption) others

/-- A byte of data is read back, however it is spelled. -/
theorem read?_dataByte
    (byte : UInt8)
    (others : read? rest = some (bytes, behind)) :
    read? (dataByte byte ++ rest) = some (byte :: bytes, behind) := by
  have eq_of_char {char : Char} (same : Char.ofNat byte.toNat = char) :
      char.toNat = byte.toNat := by
    rw [← same, toNat_dataChar]
  simp only [dataByte]
  split
  · rename_i quote
    obtain rfl : 0x22 = byte := UInt8.toNat_inj.mp (eq_of_char quote)
    simp only [List.cons_append, List.nil_append, read?, others]
    rfl
  split
  · rename_i backslash
    obtain rfl : 0x5C = byte := UInt8.toNat_inj.mp (eq_of_char backslash)
    simp only [List.cons_append, List.nil_append, read?, others]
    rfl
  split
  · rename_i notQuote notBackslash printable
    have single := utf8EncodeChar_dataChar printable.2
    have read := read?_char notQuote notBackslash others
    rwa [single] at read
  · exact read?_escapedByte byte others

end Units

/-- A literal that consists of pieces is read piece by piece. -/
theorem read?_flatMap
    {spell : α → List Char}
    {encode : α → List UInt8}
    (piece : ∀ item rest bytes behind, read? rest = some (bytes, behind) →
      read? (spell item ++ rest) = some (encode item ++ bytes, behind))
    (items : List α)
    (behind : List Char) :
    read? (items.flatMap spell ++ '"' :: behind) = some (items.flatMap encode, behind) := by
  induction items with
  | nil => rfl
  | cons item items inductionHypothesis =>
      rw [List.flatMap_cons, List.append_assoc, List.flatMap_cons]
      exact piece item _ _ _ inductionHypothesis

/-- The literal of data is read as the data. -/
theorem read?_data (bytes : List UInt8) (behind : List Char) :
    read? (bytes.flatMap dataByte ++ '"' :: behind) = some (bytes, behind) := by
  have read : read? (bytes.flatMap dataByte ++ '"' :: behind) =
      some (bytes.flatMap fun byte => [byte], behind) :=
    read?_flatMap (fun byte _ _ _ others => read?_dataByte byte others) bytes behind
  rwa [List.flatMap_singleton'] at read

/-- The literal of a name is read as the UTF-8 bytes of the name. -/
theorem read?_name (text : String) (behind : List Char) :
    read? (text.toList.flatMap nameChar ++ '"' :: behind) =
      some (text.toUTF8.data.toList, behind) := by
  have bytes : text.toUTF8.data.toList = text.toList.flatMap String.utf8EncodeChar := by
    rw [String.toUTF8, ← String.utf8Encode_toList, List.utf8Encode, List.toList_data_toByteArray]
  rw [bytes]
  exact read?_flatMap (fun char _ _ _ others => read?_nameChar char others) text.toList behind

@[simp] theorem content?_data (bytes : List UInt8) :
    content? (bytes.flatMap dataByte) = some bytes := by
  rw [content?, read?_data]

/-- A literal is read between its quotes. -/
theorem literal?_enclose (content behind : List Char) :
    literal? ((enclose content).toList ++ behind) = read? (content ++ '"' :: behind) := by
  rw [enclose, String.toList_ofList]
  simp [literal?]

/-! ## Quotation marks within -/

/-- Whether a character behind some others is escaped by them: they end in an odd number
of backslashes. -/
def Escapes (front : List Char) : Prop :=
  (front.reverse.takeWhile (· == '\\')).length % 2 = 1

theorem not_escapes_nil : ¬ Escapes [] := Nat.zero_ne_one

/-- A backslash escapes exactly if it is not itself escaped. -/
theorem escapes_concat_backslash (front : List Char) :
    Escapes (front ++ ['\\']) ↔ ¬ Escapes front := by
  simp only [Escapes, List.reverse_append, List.reverse_singleton, List.singleton_append,
    List.takeWhile_cons, beq_self_eq_true, if_true, List.length_cons]
  omega

/-- No other character escapes. -/
theorem not_escapes_concat {char : Char} (notBackslash : char ≠ '\\') (front : List Char) :
    ¬ Escapes (front ++ [char]) := by
  simp [Escapes, notBackslash]

/-- Behind what escapes nothing, some characters leave it so and escape every quotation
mark among them. -/
structure Guarded (content : List Char) : Prop where
  closes : ∀ front, ¬ Escapes front → ¬ Escapes (front ++ content)
  escaped : ∀ front, ¬ Escapes front → ∀ before behind, content = before ++ '"' :: behind →
    Escapes (front ++ before)

theorem guarded_nil : Guarded [] where
  closes front none := by rwa [List.append_nil]
  escaped front none before behind same := by simp at same

/-- Guarded characters side by side are guarded. -/
theorem Guarded.append
    {first second : List Char}
    (guardedFirst : Guarded first)
    (guardedSecond : Guarded second) :
    Guarded (first ++ second) where
  closes front none := by
    rw [← List.append_assoc]
    exact guardedSecond.closes _ (guardedFirst.closes front none)
  escaped front none before behind same := by
    obtain ⟨middle, rfl, sameSecond⟩ | ⟨middle, sameFirst, sameBehind⟩ :=
      List.append_eq_append_iff.mp same
    · rw [← List.append_assoc]
      exact guardedSecond.escaped _ (guardedFirst.closes front none) _ _ sameSecond
    · cases middle with
      | nil =>
          rw [List.append_nil] at sameFirst
          have escaped := guardedSecond.escaped _ (guardedFirst.closes front none) [] behind
            sameBehind.symm
          rwa [List.append_nil, sameFirst] at escaped
      | cons mark middle =>
          obtain ⟨rfl, -⟩ := List.cons.inj sameBehind
          exact guardedFirst.escaped front none _ _ sameFirst

/-- A literal that is spelled piece by piece is guarded if each piece is. -/
theorem guarded_flatMap
    {spell : α → List Char}
    (piece : ∀ item, Guarded (spell item))
    (items : List α) :
    Guarded (items.flatMap spell) := by
  induction items with
  | nil => exact guarded_nil
  | cons item items inductionHypothesis => exact (piece item).append inductionHypothesis

theorem guarded_singleton
    {char : Char}
    (notQuote : char ≠ '"')
    (notBackslash : char ≠ '\\') :
    Guarded [char] where
  closes front _ := not_escapes_concat notBackslash front
  escaped front _ before behind same := by
    have among : '"' ∈ [char] := by simp [same]
    exact absurd (List.mem_singleton.mp among).symm notQuote

/-- What a backslash takes is escaped, be it a quotation mark or another backslash. -/
theorem guarded_escaped (char : Char) : Guarded ['\\', char] where
  closes front none := by
    have odd := (escapes_concat_backslash front).mpr none
    have split : front ++ ['\\', char] = front ++ ['\\'] ++ [char] := by simp
    rw [split]
    by_cases backslash : char = '\\'
    · rw [backslash, escapes_concat_backslash]
      exact not_not_intro odd
    · exact not_escapes_concat backslash _
  escaped front none before behind same := by
    cases before with
    | nil => cases same
    | cons first before =>
        obtain ⟨rfl, sameRest⟩ := List.cons.inj same
        cases before with
        | nil => exact (escapes_concat_backslash front).mpr none
        | cons second before =>
            have tooShort := congrArg List.length sameRest
            simp at tooShort

theorem guarded_escapedByte (byte : UInt8) : Guarded (escapedByte byte) :=
  (guarded_escaped _).append
    (guarded_singleton (Token.digitChar_ne_special _).1 (Token.digitChar_ne_special _).2)

/-- A character of a name is guarded, as quotes and backslashes are escaped. -/
theorem guarded_nameChar (char : Char) : Guarded (nameChar char) := by
  rw [nameChar]
  split
  · exact guarded_escaped '"'
  split
  · exact guarded_escaped '\\'
  split
  · exact guarded_escapedByte _
  · exact guarded_singleton (by assumption) (by assumption)

theorem guarded_dataByte (byte : UInt8) : Guarded (dataByte byte) := by
  simp only [dataByte]
  split
  · exact guarded_escaped '"'
  split
  · exact guarded_escaped '\\'
  split
  · exact guarded_singleton (by assumption) (by assumption)
  · exact guarded_escapedByte _

/-- A text begins and ends with quotation marks, and these two are the only ones in it
that nothing in front of them escapes. -/
structure IsDelimited (text : List Char) : Prop where
  enclosed : ∃ content, text = '"' :: (content ++ ['"'])
  escapes_iff : ∀ front behind, text = front ++ '"' :: behind →
    (Escapes front ↔ front ≠ [] ∧ behind ≠ [])

/-- Guarded content between quotes ends at the quote behind it and at none before. -/
theorem isDelimited_enclose {content : List Char} (guarded : Guarded content) :
    IsDelimited (enclose content).toList := by
  rw [enclose, String.toList_ofList]
  have opened : ¬ Escapes ['"'] := by simp [Escapes]
  refine ⟨⟨content, rfl⟩, fun front behind same => ?_⟩
  cases front with
  | nil => exact iff_of_false not_escapes_nil fun both => both.1 rfl
  | cons mark before =>
      obtain ⟨rfl, sameRest⟩ := List.cons.inj same
      obtain rfl | ⟨within, last, rfl⟩ := List.eq_nil_or_concat behind
      · obtain ⟨rfl, -⟩ := List.append_inj' sameRest rfl
        exact iff_of_false (guarded.closes _ opened) fun both => both.2 rfl
      · have split : content ++ ['"'] = (before ++ '"' :: within) ++ [last] := by
          simpa using sameRest
        obtain ⟨rfl, -⟩ := List.append_inj' split rfl
        exact iff_of_true (guarded.escaped _ opened before within rfl) (by simp)

/-! ## Characters -/

/-- Printable characters of ASCII. -/
def IsPrintable (char : Char) : Prop := 0x20 ≤ char.toNat ∧ char.toNat ≤ 0x7E

instance (char : Char) : Decidable (IsPrintable char) :=
  inferInstanceAs (Decidable (0x20 ≤ char.toNat ∧ char.toNat ≤ 0x7E))

theorem printable_escaped {char : Char} (printable : IsPrintable char) :
    ∀ spelled ∈ ['\\', char], IsPrintable spelled := by
  simp only [List.forall_mem_cons]
  exact ⟨by decide, printable, List.forall_mem_nil _⟩

theorem printable_escapedByte (byte : UInt8) : ∀ char ∈ escapedByte byte, IsPrintable char := by
  have digit (number : Nat) : IsPrintable number.digitChar :=
    Token.digitChar_induction (by decide) (by decide) number
  simp only [escapedByte, hexDigits, List.forall_mem_cons]
  exact ⟨by decide, digit _, digit _, List.forall_mem_nil _⟩

theorem printable_dataByte (byte : UInt8) : ∀ char ∈ dataByte byte, IsPrintable char := by
  simp only [dataByte]
  split
  · exact printable_escaped (by decide)
  split
  · exact printable_escaped (by decide)
  split
  · rename_i printable
    rw [List.forall_mem_singleton, IsPrintable, toNat_dataChar]
    exact printable
  · exact printable_escapedByte byte

/-- No character of a name's literal is a control character. -/
theorem visible_nameChar (char : Char) :
    ∀ spelled ∈ nameChar char, 0x20 ≤ spelled.toNat ∧ spelled.toNat ≠ 0x7F := by
  have visible {text : List Char} (printable : ∀ spelled ∈ text, IsPrintable spelled) :
      ∀ spelled ∈ text, 0x20 ≤ spelled.toNat ∧ spelled.toNat ≠ 0x7F := by
    intro spelled among
    obtain ⟨lower, upper⟩ := printable spelled among
    exact ⟨lower, by omega⟩
  rw [nameChar]
  split
  · exact visible (printable_escaped (by decide))
  split
  · exact visible (printable_escaped (by decide))
  split
  · exact visible (printable_escapedByte _)
  · rw [List.forall_mem_singleton]
    omega

/-- What holds of the quote and of the content holds of the literal. -/
theorem forall_mem_enclose
    {content : List Char}
    {motive : Char → Prop}
    (quote : motive '"')
    (within : ∀ char ∈ content, motive char) :
    ∀ char ∈ (enclose content).toList, motive char := by
  rw [enclose, String.toList_ofList]
  simp only [List.forall_mem_cons, List.forall_mem_append]
  exact ⟨quote, within, quote, List.forall_mem_nil _⟩

/-- Literals of names and of data are delimited by themselves and lose nothing: between
quotation marks that can be told from those within there is no control character, and
what is read up to the closing one, whatever follows it, are the UTF-8 bytes of the name
or the data. The literal of data is printable ASCII. -/
theorem literals_lossless :
    (∀ text : String,
      IsDelimited (name text).toList ∧
      (∀ char ∈ (name text).toList, 0x20 ≤ char.toNat ∧ char.toNat ≠ 0x7F) ∧
      ∀ behind, literal? ((name text).toList ++ behind) =
        some (text.toUTF8.data.toList, behind)) ∧
    ∀ bytes : List UInt8,
      IsDelimited (data bytes).toList ∧
      (∀ char ∈ (data bytes).toList, IsPrintable char) ∧
      ∀ behind, literal? ((data bytes).toList ++ behind) = some (bytes, behind) := by
  constructor
  · intro text
    refine ⟨isDelimited_enclose (guarded_flatMap guarded_nameChar _),
      forall_mem_enclose (by decide) fun char among => ?_, fun behind => ?_⟩
    · obtain ⟨item, -, within⟩ := List.mem_flatMap.mp among
      exact visible_nameChar item char within
    · rw [name, literal?_enclose, read?_name]
  · intro bytes
    refine ⟨isDelimited_enclose (guarded_flatMap guarded_dataByte _),
      forall_mem_enclose (by decide) fun char among => ?_, fun behind => ?_⟩
    · obtain ⟨byte, -, within⟩ := List.mem_flatMap.mp among
      exact printable_dataByte byte char within
    · rw [data, literal?_enclose, read?_data]

end Quoted

end WebAssembly
