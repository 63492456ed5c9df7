import WebAssembly.Frame
import WebAssembly.Proofs.Numeral

/-!
# Layouts

A layout says how the bytes of an item follow one another, with the spelling of
integers left open: raw bytes, integers, and parts behind their own length. An
encoder is a function from items to layouts. `Layout.Writes` holds of all the
byte strings that a layout stands for, `Layout.shortest` is the one in which
every integer has its shortest spelling.

A layout may also claim how many bytes a part of it takes. The claim has no
bytes of its own; `Layout.unmeasured` drops it.
-/

namespace WebAssembly

open Numeral

/-- An integer field of a binary, given by the bytes that spell it. -/
inductive IntegerField
  | unsigned (spelling : List UInt8)
  | signed (spelling : List UInt8)

/-- No other spelling of the integer in a field takes fewer bytes. -/
def IntegerField.IsShortest : IntegerField → Prop
  | .unsigned spelling =>
      ∀ other, SpellsUnsigned (payload spelling) other → spelling.length ≤ other.length
  | .signed spelling =>
      ∀ other, SpellsSigned (twosComplement (7 * spelling.length) (payload spelling)) other →
        spelling.length ≤ other.length

/-- How the bytes of an item follow one another. -/
inductive Layout
  | bytes (list : List UInt8)
  /-- A natural number in one of the formats of header fields. -/
  | natural (format : HeaderFormat) (value : Nat)
  /-- A signed LEB128 integer. -/
  | integer (value : Int)
  | beside (first second : Layout)
  /-- The length of the content, then the content. -/
  | sized (format : HeaderFormat) (content : Layout)
  /-- The content, which is claimed to take `size` bytes. -/
  | measured (size : Nat) (content : Layout)

namespace Layout

instance : Append Layout := ⟨beside⟩

/-- Layouts one after another. -/
def all (layouts : List Layout) : Layout :=
  layouts.foldr (· ++ ·) (bytes [])

@[simp] theorem all_nil : all [] = bytes [] := rfl

@[simp] theorem all_cons (layout : Layout) (rest : List Layout) :
    all (layout :: rest) = layout ++ all rest := rfl

/-- The number of layouts, then the layouts. -/
def counted (layouts : List Layout) : Layout :=
  natural .leb128 layouts.length ++ all layouts

/-- A layout without its claims about lengths. -/
def unmeasured : Layout → Layout
  | bytes list => bytes list
  | natural format value => natural format value
  | integer value => integer value
  | beside first second => beside first.unmeasured second.unmeasured
  | sized format content => sized format content.unmeasured
  | measured _ content => content.unmeasured

@[simp] theorem unmeasured_append (first second : Layout) :
    (first ++ second).unmeasured = first.unmeasured ++ second.unmeasured := rfl

/-- The sizes of several layouts are forgotten one by one. -/
theorem unmeasured_all (layouts : List Layout) :
    (all layouts).unmeasured = all (layouts.map unmeasured) := by
  induction layouts with
  | nil => rfl
  | cons layout rest inductionHypothesis => simp [inductionHypothesis]

/-- The sizes in a counted list are forgotten entry by entry. -/
theorem unmeasured_counted (layouts : List Layout) :
    (counted layouts).unmeasured = counted (layouts.map unmeasured) := by
  simp [counted, unmeasured_all, unmeasured]

/-- The bytes of a layout with every integer in its shortest spelling. -/
def shortest : Layout → List UInt8
  | bytes list => list
  | natural .compact value => [value.toUInt8]
  | natural .leb128 value => leastUnsigned value
  | integer value => leastSigned value
  | beside first second => first.shortest ++ second.shortest
  | sized .compact content => content.shortest.length.toUInt8 :: content.shortest
  | sized .leb128 content => leastUnsigned content.shortest.length ++ content.shortest
  | measured _ content => content.shortest

/-- Sizes have no part in the shortest bytes. -/
theorem shortest_unmeasured (layout : Layout) :
    layout.unmeasured.shortest = layout.shortest := by
  induction layout with
  | bytes list => rfl
  | natural format value => rfl
  | integer value => rfl
  | beside first second firstHypothesis secondHypothesis =>
      simp only [unmeasured, shortest, firstHypothesis, secondHypothesis]
  | sized format content inductionHypothesis =>
      cases format <;> simp only [unmeasured, shortest, inductionHypothesis]
  | measured size content inductionHypothesis =>
      simp only [unmeasured, shortest, inductionHypothesis]

/-- The bytes that a layout stands for, with the spellings of its integers in
the order in which they occur. -/
inductive Writes : Layout → List IntegerField → List UInt8 → Prop
  | bytes (list : List UInt8) : Writes (bytes list) [] list
  | compact {value : Nat} (fits : value < 2 ^ 8) :
      Writes (natural .compact value) [] [value.toUInt8]
  | leb128 {value : Nat} {spelling : List UInt8}
      (fits : value < 2 ^ 32)
      (spells : SpellsUnsigned value spelling) :
      Writes (natural .leb128 value) [.unsigned spelling] spelling
  | integer {value : Int} {spelling : List UInt8}
      (spells : SpellsSigned value spelling) :
      Writes (integer value) [.signed spelling] spelling
  | beside {first second : Layout} {front back : List IntegerField} {head tail : List UInt8}
      (firstWritten : Writes first front head)
      (secondWritten : Writes second back tail) :
      Writes (first ++ second) (front ++ back) (head ++ tail)
  | sized {format : HeaderFormat} {content : Layout} {front back : List IntegerField}
      {size list : List UInt8}
      (sizeWritten : Writes (natural format list.length) front size)
      (contentWritten : Writes content back list) :
      Writes (sized format content) (front ++ back) (size ++ list)
  | measured {size : Nat} {content : Layout} {fields : List IntegerField} {list : List UInt8}
      (exact : list.length = size)
      (contentWritten : Writes content fields list) :
      Writes (measured size content) fields list

/-- Claims about lengths only restrict the bytes of a layout. -/
theorem Writes.unmeasured
    {layout : Layout}
    {fields : List IntegerField}
    {list : List UInt8}
    (writes : layout.Writes fields list) :
    layout.unmeasured.Writes fields list := by
  induction writes with
  | bytes list => exact .bytes list
  | compact fits => exact .compact fits
  | leb128 fits spells => exact .leb128 fits spells
  | integer spells => exact .integer spells
  | beside _ _ firstHypothesis secondHypothesis =>
      exact .beside firstHypothesis secondHypothesis
  | sized sizeWritten _ _ contentHypothesis => exact .sized sizeWritten contentHypothesis
  | measured _ _ contentHypothesis => exact contentHypothesis

/-- Bytes whose integer fields are all as short as can be are the shortest
bytes of their layout. -/
theorem Writes.eq_shortest
    {layout : Layout}
    {fields : List IntegerField}
    {list : List UInt8}
    (writes : layout.Writes fields list)
    (allShortest : ∀ field ∈ fields, field.IsShortest) :
    list = layout.shortest := by
  induction writes with
  | bytes list => rfl
  | compact fits => rfl
  | @leb128 value spelling fits spells =>
      have minimal := allShortest (.unsigned spelling) (by simp)
      obtain ⟨-, -, rfl⟩ := id spells
      exact spells.eq_leastUnsigned minimal
  | @integer value spelling spells =>
      have minimal := allShortest (.signed spelling) (by simp)
      obtain ⟨-, -, rfl⟩ := id spells
      exact spells.eq_leastSigned minimal
  | beside _ _ firstHypothesis secondHypothesis =>
      rw [firstHypothesis fun field present => allShortest field (by simp [present]),
        secondHypothesis fun field present => allShortest field (by simp [present])]
      rfl
  | @sized format content front back size list _ _ sizeHypothesis contentHypothesis =>
      rw [sizeHypothesis fun field present => allShortest field (by simp [present]),
        contentHypothesis fun field present => allShortest field (by simp [present])]
      cases format <;> rfl
  | measured _ _ contentHypothesis => exact contentHypothesis allShortest

/-- A field of a header tells where it ends and which number it holds. -/
theorem Writes.natural_unique
    {format : HeaderFormat}
    {value other : Nat}
    {fields otherFields : List IntegerField}
    {list otherList rest otherRest : List UInt8}
    (writes : (natural format value).Writes fields list)
    (otherWrites : (natural format other).Writes otherFields otherList)
    (same : list ++ rest = otherList ++ otherRest) :
    fields = otherFields ∧ list = otherList ∧ value = other := by
  cases writes with
  | compact fits =>
      cases otherWrites with
      | compact otherFits =>
          simp only [List.cons_append, List.nil_append, List.cons.injEq] at same
          have values := congrArg UInt8.toNat same.1
          simp only [Nat.toUInt8_eq, UInt8.toNat_ofNat'] at values
          rw [Nat.mod_eq_of_lt fits, Nat.mod_eq_of_lt otherFits] at values
          exact ⟨rfl, by rw [values], values⟩
  | leb128 fits spells =>
      cases otherWrites with
      | leb128 otherFits otherSpells =>
          have spellings := spells.1.eq_of_append_eq otherSpells.1 same
          subst spellings
          exact ⟨rfl, rfl, spells.2.2.symm.trans otherSpells.2.2⟩

/-- The bytes of a layout, and the integer fields in them, are found in whatever
begins with them. -/
theorem Writes.unique
    {layout : Layout}
    {fields otherFields : List IntegerField}
    {list otherList rest otherRest : List UInt8}
    (writes : layout.Writes fields list)
    (otherWrites : layout.Writes otherFields otherList)
    (same : list ++ rest = otherList ++ otherRest) :
    fields = otherFields ∧ list = otherList := by
  -- What follows is kept open, as the first of two parts is followed by the second one.
  induction writes generalizing otherFields otherList rest otherRest with
  | bytes list =>
      cases otherWrites
      exact ⟨rfl, rfl⟩
  | compact fits =>
      obtain ⟨sameFields, sameList, -⟩ := (Writes.compact fits).natural_unique otherWrites same
      exact ⟨sameFields, sameList⟩
  | leb128 fits spells =>
      obtain ⟨sameFields, sameList, -⟩ :=
        (Writes.leb128 fits spells).natural_unique otherWrites same
      exact ⟨sameFields, sameList⟩
  | integer spells =>
      cases otherWrites with
      | integer otherSpells =>
          have spellings := spells.1.eq_of_append_eq otherSpells.1 same
          subst spellings
          exact ⟨rfl, rfl⟩
  | beside _ _ firstHypothesis secondHypothesis =>
      cases otherWrites with
      | beside otherFirst otherSecond =>
          rw [List.append_assoc, List.append_assoc] at same
          obtain ⟨rfl, rfl⟩ := firstHypothesis otherFirst same
          obtain ⟨rfl, rfl⟩ := secondHypothesis otherSecond (List.append_cancel_left same)
          exact ⟨rfl, rfl⟩
  | sized sizeWritten _ _ contentHypothesis =>
      cases otherWrites with
      | sized otherSize otherContent =>
          rw [List.append_assoc, List.append_assoc] at same
          obtain ⟨rfl, rfl, -⟩ := sizeWritten.natural_unique otherSize same
          obtain ⟨rfl, rfl⟩ := contentHypothesis otherContent (List.append_cancel_left same)
          exact ⟨rfl, rfl⟩
  | measured _ _ contentHypothesis =>
      cases otherWrites with
      | measured otherExact otherContent => exact contentHypothesis otherContent same

/-- Some bytes are among those that a layout stands for. -/
def Written (layout : Layout) (list : List UInt8) : Prop :=
  ∃ fields, layout.Writes fields list

/-- Fixed bytes are written as they are. -/
@[simp] theorem written_bytes (expected list : List UInt8) :
    (bytes expected).Written list ↔ list = expected := by
  constructor
  · rintro ⟨fields, ⟨⟩⟩
    rfl
  · rintro rfl
    exact ⟨[], .bytes list⟩

/-- In the compact format, a number is its byte. -/
theorem written_compact (value : Nat) (list : List UInt8) :
    (natural .compact value).Written list ↔ value < 2 ^ 8 ∧ list = [value.toUInt8] := by
  constructor
  · rintro ⟨fields, ⟨⟩⟩
    exact ⟨by assumption, rfl⟩
  · rintro ⟨fits, rfl⟩
    exact ⟨[], .compact fits⟩

/-- In the other format, a number of 32 bits has any of its spellings. -/
theorem written_leb128 (value : Nat) (list : List UInt8) :
    (natural .leb128 value).Written list ↔ value < 2 ^ 32 ∧ SpellsUnsigned value list := by
  constructor
  · rintro ⟨fields, ⟨⟩⟩
    exact ⟨by assumption, by assumption⟩
  · rintro ⟨fits, spells⟩
    exact ⟨_, .leb128 fits spells⟩

/-- An integer has any of its spellings. -/
theorem written_integer (value : Int) (list : List UInt8) :
    (integer value).Written list ↔ SpellsSigned value list := by
  constructor
  · rintro ⟨fields, ⟨⟩⟩
    assumption
  · intro spells
    exact ⟨_, .integer spells⟩

/-- Layouts side by side are written one behind the other. -/
theorem written_append (first second : Layout) (list : List UInt8) :
    (first ++ second).Written list ↔
      ∃ head tail, list = head ++ tail ∧ first.Written head ∧ second.Written tail := by
  constructor
  · rintro ⟨fields, ⟨⟩⟩
    exact ⟨_, _, rfl, ⟨_, by assumption⟩, ⟨_, by assumption⟩⟩
  · rintro ⟨head, tail, rfl, ⟨front, firstWritten⟩, back, secondWritten⟩
    exact ⟨_, .beside firstWritten secondWritten⟩

/-- In front of a sized content stands the number of its bytes. -/
theorem written_sized (format : HeaderFormat) (content : Layout) (list : List UInt8) :
    (sized format content).Written list ↔
      ∃ size body, list = size ++ body ∧ (natural format body.length).Written size ∧
        content.Written body := by
  constructor
  · rintro ⟨fields, ⟨⟩⟩
    exact ⟨_, _, rfl, ⟨_, by assumption⟩, ⟨_, by assumption⟩⟩
  · rintro ⟨size, body, rfl, ⟨front, sizeWritten⟩, back, contentWritten⟩
    exact ⟨_, .sized sizeWritten contentWritten⟩

/-- What is measured has as many bytes as its size says. -/
theorem written_measured (size : Nat) (content : Layout) (list : List UInt8) :
    (measured size content).Written list ↔ list.length = size ∧ content.Written list := by
  constructor
  · rintro ⟨fields, ⟨⟩⟩
    exact ⟨by assumption, ⟨_, by assumption⟩⟩
  · rintro ⟨exact, fields, contentWritten⟩
    exact ⟨fields, .measured exact contentWritten⟩

/-- Bytes that agree with recorded sizes are also written without them. -/
theorem Written.unmeasured
    {layout : Layout}
    {list : List UInt8}
    (written : layout.Written list) :
    layout.unmeasured.Written list := by
  obtain ⟨fields, writes⟩ := written
  exact ⟨fields, writes.unmeasured⟩

/-- A number that is written in a header format fits into it. -/
theorem Written.natural_lt
    {format : HeaderFormat}
    {value : Nat}
    {list : List UInt8}
    (written : (natural format value).Written list) :
    value < 2 ^ 32 := by
  cases format with
  | compact =>
      rw [written_compact] at written
      omega
  | leb128 => exact ((written_leb128 _ _).mp written).1

/-- If any bytes are written in a layout without claims about lengths, then so
are its shortest bytes, and these are no more. -/
theorem Written.shortest
    {layout : Layout}
    {list : List UInt8}
    (written : layout.unmeasured.Written list) :
    layout.unmeasured.Written layout.shortest ∧ layout.shortest.length ≤ list.length := by
  induction layout generalizing list with
  | bytes expected =>
      obtain rfl := (written_bytes _ _).mp written
      exact ⟨written, le_rfl⟩
  | natural format value =>
      cases format with
      | compact =>
          obtain ⟨fits, rfl⟩ := (written_compact _ _).mp written
          exact ⟨written, le_rfl⟩
      | leb128 =>
          obtain ⟨fits, spells⟩ := (written_leb128 _ _).mp written
          have noLonger := spells.unsignedLength_le
          refine ⟨(written_leb128 _ _).mpr ⟨fits, ?_⟩, ?_⟩
          · exact spellsUnsigned_leastUnsigned value (noLonger.trans spells.2.1)
          · simpa only [Layout.shortest, leastUnsigned, length_groupOf] using noLonger
  | integer value =>
      have spells := (written_integer _ _).mp written
      have noLonger := spells.signedLength_le
      refine ⟨(written_integer _ _).mpr ?_, ?_⟩
      · exact spellsSigned_leastSigned value (noLonger.trans spells.2.1)
      · simpa only [Layout.shortest, leastSigned, length_groupOf] using noLonger
  | beside first second firstHypothesis secondHypothesis =>
      obtain ⟨head, tail, rfl, firstWritten, secondWritten⟩ := (written_append _ _ _).mp written
      obtain ⟨firstShortest, firstLength⟩ := firstHypothesis firstWritten
      obtain ⟨secondShortest, secondLength⟩ := secondHypothesis secondWritten
      refine ⟨(written_append _ _ _).mpr ⟨_, _, rfl, firstShortest, secondShortest⟩, ?_⟩
      simp only [Layout.shortest, List.length_append]
      omega
  | sized format content inductionHypothesis =>
      obtain ⟨size, body, rfl, sizeWritten, contentWritten⟩ := (written_sized _ _ _).mp written
      obtain ⟨contentShortest, contentLength⟩ := inductionHypothesis contentWritten
      rw [Layout.unmeasured, written_sized]
      cases format with
      | compact =>
          obtain ⟨fits, rfl⟩ := (written_compact _ _).mp sizeWritten
          refine ⟨⟨_, _, rfl, (written_compact _ _).mpr ⟨by omega, rfl⟩, contentShortest⟩, ?_⟩
          simpa only [Layout.shortest, List.length_cons, List.singleton_append,
            Nat.add_le_add_iff_right] using contentLength
      | leb128 =>
          obtain ⟨fits, spells⟩ := (written_leb128 _ _).mp sizeWritten
          -- A shorter content has a smaller size, which is not spelled longer than the other one.
          have noLonger := (unsignedLength_mono contentLength).trans spells.unsignedLength_le
          refine ⟨⟨_, _, rfl, (written_leb128 _ _).mpr ⟨by omega, ?_⟩, contentShortest⟩, ?_⟩
          · exact spellsUnsigned_leastUnsigned _ (noLonger.trans spells.2.1)
          · simp only [Layout.shortest, leastUnsigned, List.length_append, length_groupOf]
            omega
  | measured size content inductionHypothesis => exact inductionHypothesis written

end Layout

end WebAssembly
