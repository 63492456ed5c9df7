import WebAssembly.Decode.Module
import WebAssembly.Proofs.Reach

/-!
# Binaries of either format

A byte below `0x80` is the same field in both header formats. A binary whose fields
are all of this kind is tiled alike in both, since framing under one gets to just
the readers that framing under the other gets to. So it has one frame, and what it
decodes to does not depend on the format.
-/

namespace WebAssembly

open Decode

/-! ## Fields -/

namespace HeaderFormat

/-- A field is one byte below `0x80`: one of the compact format is always one byte,
and a LEB128 integer of one byte is always below `0x80`. -/
def OneByte (format : HeaderFormat) (start after : Reader) : Prop :=
  match format with
  | .compact => ∀ byte ∈ start.unread.head?, byte < 0x80
  | .leb128 => after.position = start.position + 1

section Fields

variable {format : HeaderFormat} {value : Nat} {list : List UInt8}

/-- Bytes below `0x80` stand for themselves. -/
theorem written_singleton_iff
    {byte : UInt8}
    (small : byte < 0x80)
    (format : HeaderFormat)
    (value : Nat) :
    (Layout.natural format value).Written [byte] ↔ byte.toNat = value := by
  have bound : byte.toNat < 128 := UInt8.lt_iff_toNat_lt.mp small
  cases format with
  | compact =>
      rw [Layout.written_compact, List.singleton_inj]
      constructor
      · rintro ⟨fits, rfl⟩
        exact UInt8.toNat_ofNat_of_lt' fits
      · rintro rfl
        exact ⟨byte.toNat_lt, UInt8.ofNat_toNat.symm⟩
  | leb128 =>
      have payload : Numeral.payload [byte] = byte.toNat := by
        simpa [Numeral.payload] using bound
      simp only [Layout.written_leb128, Numeral.SpellsUnsigned, payload]
      constructor
      · rintro ⟨-, -, -, same⟩
        exact same
      · rintro rfl
        exact ⟨by omega, by simp [Numeral.IsGroup, small], by simp [Numeral.maxGroupLength], rfl⟩

/-- A field of one byte that goes on with no other is that byte. -/
theorem exists_eq_singleton
    {position : Nat}
    {rest : List UInt8}
    (written : (Layout.natural format value).Written list)
    (oneByte : format.OneByte ⟨position, list ++ rest⟩ ⟨position + list.length, rest⟩) :
    ∃ byte, byte < 0x80 ∧ list = [byte] := by
  cases format with
  | compact =>
      obtain ⟨-, rfl⟩ := (Layout.written_compact _ _).mp written
      exact ⟨_, oneByte _ rfl, rfl⟩
  | leb128 =>
      obtain ⟨-, isGroup, -⟩ := (Layout.written_leb128 _ _).mp written
      obtain ⟨byte, rfl⟩ := List.length_eq_one_iff.mp (Nat.add_left_cancel oneByte)
      obtain ⟨small, -⟩ | ⟨-, ⟨⟩⟩ := (Numeral.isGroup_cons _ _).mp isGroup
      exact ⟨byte, small, rfl⟩

/-- A field of one byte is written alike in both formats. -/
theorem written_of_oneByte
    {position : Nat}
    {rest : List UInt8}
    (written : (Layout.natural format value).Written list)
    (oneByte : format.OneByte ⟨position, list ++ rest⟩ ⟨position + list.length, rest⟩)
    (other : HeaderFormat) :
    (Layout.natural other value).Written list := by
  obtain ⟨byte, small, rfl⟩ := exists_eq_singleton written oneByte
  rw [written_singleton_iff small] at written ⊢
  exact written

end Fields

end HeaderFormat

/-! ## Frames -/

namespace Frame

open RawSection (Tile Tiles uncustom)

/-- Framing reads a field of a section header between two readers: where it gets
to, the size behind a known number and, unless that is the number of custom
sections, the count at the beginning of as much content as the size says. -/
inductive ReadsField (format : HeaderFormat) (input : List UInt8) : Reader → Reader → Prop
  | size {earlier : List RawSection} {reader identified sized : Reader} {number : UInt8}
      {id : SectionId} {size : UInt32}
      (reached : Reaches format input earlier reader)
      (numberRead : byte reader = .ok number identified)
      (known : SectionId.ofNumber? number = some id)
      (sizeRead : format.field identified = .ok size sized) :
      ReadsField format input identified sized
  | count {earlier : List RawSection} {reader identified sized content after payload : Reader}
      {number : UInt8} {id : SectionId} {size count : UInt32}
      (reached : Reaches format input earlier reader)
      (numberRead : byte reader = .ok number identified)
      (known : SectionId.ofNumber? number = some id)
      (notCustom : id ≠ .custom)
      (sizeRead : format.field identified = .ok size sized)
      (contentRead : split size.toNat sized = .ok content after)
      (countRead : format.field content = .ok count payload) :
      ReadsField format input content payload

/-- Framing succeeds, and every field that it reads is one byte below `0x80`. -/
structure OneByteFields (format : HeaderFormat) (input : List UInt8) : Prop where
  framed : ∃ frame, ofBytes format input = .ok frame
  oneByte : ∀ start after, ReadsField format input start after → format.OneByte start after

section Fields

variable {format : HeaderFormat} {input : List UInt8} {earlier : List RawSection} {offset : Nat}

/-- Where framing gets to, both formats split off the same section. -/
theorem OneByteFields.tile
    (fields : OneByteFields format input)
    {raw : RawSection}
    {first rest : List UInt8}
    (reached : Reaches format input earlier ⟨offset, first ++ rest⟩)
    (tile : Tile format offset raw first)
    (other : HeaderFormat) :
    Tile other offset raw first := by
  cases tile with
  | @custom size sizeField content sizeWritten exact =>
      simp only [List.append_assoc] at reached
      have sizeRead := ReadsField.size reached (byte_cons _ _ _) (SectionId.ofNumber?_number _)
        (HeaderFormat.field_of_written sizeWritten (offset + 1) (content ++ rest))
      exact .custom
        (HeaderFormat.written_of_oneByte sizeWritten (fields.oneByte _ _ sizeRead) other) exact
  | @counted id size count sizeField countField content notCustom sizeWritten countWritten exact =>
      simp only [List.append_assoc] at reached
      have sizeSpelled := HeaderFormat.field_of_written sizeWritten (offset + 1)
        (countField ++ (content ++ rest))
      have contentRead : split size.toNat
          ⟨offset + 1 + sizeField.length, countField ++ (content ++ rest)⟩ =
            .ok ⟨offset + 1 + sizeField.length, countField ++ content⟩ ⟨_, rest⟩ :=
        (split_eq_ok_iff _ _ _ _).mpr ⟨rfl, exact, (List.append_assoc _ _ _).symm, rfl⟩
      have sizeRead := ReadsField.size reached (byte_cons _ _ _) (SectionId.ofNumber?_number _)
        sizeSpelled
      have countRead := ReadsField.count reached (byte_cons _ _ _) (SectionId.ofNumber?_number _)
        notCustom sizeSpelled contentRead (HeaderFormat.field_of_written countWritten _ content)
      exact .counted notCustom
        (HeaderFormat.written_of_oneByte sizeWritten (fields.oneByte _ _ sizeRead) other)
        (HeaderFormat.written_of_oneByte countWritten (fields.oneByte _ _ countRead) other) exact

/-- The rounds over some tiles keep step: from where framing gets to, both formats
split off the same sections. -/
theorem OneByteFields.tiles
    (fields : OneByteFields format input)
    {raws : List RawSection}
    {front rest : List UInt8}
    (reached : Reaches format input earlier ⟨offset, front ++ rest⟩)
    (tiles : Tiles format offset raws front)
    (descending :
      ((uncustom raws).reverse ++ earlier).Pairwise fun later raw => raw.Precedes later)
    (other : HeaderFormat) :
    Tiles other offset raws front := by
  induction tiles generalizing earlier with
  | nil => exact .nil
  | @cons offset raw raws first front tile tiles inductionHypothesis =>
      rw [List.append_assoc] at reached
      rw [reverse_uncustom_cons, List.append_assoc] at descending
      have stepped := step_of_tile tile (front ++ rest) (List.pairwise_append.mp descending).2.1
      exact .cons (fields.tile reached tile other)
        (inductionHypothesis (reached.next stepped) descending)

/-- A binary whose fields are one byte each has the same frame in both formats. -/
theorem OneByteFields.exists_frame (fields : OneByteFields format input) :
    ∃ frame, ∀ other, ofBytes other input = .ok frame := by
  obtain ⟨frame, framed⟩ := fields.framed
  obtain ⟨raws, list, rfl, tiles, ordered, -⟩ := exists_tiles_of_ofBytes framed
  have started : Reaches format (Header.magicBytes ++ Header.versionBytes ++ list) []
      ⟨8, list ++ []⟩ := by
    rw [List.append_nil]
    exact .of_header format list
  exact ⟨_, fun other => ofBytes_of_tiles
    (fields.tiles started tiles (descending_of_ordered ordered) other) ordered⟩

end Fields

end Frame

/-! ## Modules -/

namespace Module

/-- A binary whose fields are one byte each under one format has one frame under
both, and decodes to the same module or fails in the same way. -/
theorem ofBytes_eq_of_oneByteFields
    {format : HeaderFormat}
    {input : List UInt8}
    (fields : Frame.OneByteFields format input) :
    (∃ frame, Frame.ofBytes .compact input = .ok frame ∧
      Frame.ofBytes .leb128 input = .ok frame) ∧
    ofBytes .compact input = ofBytes .leb128 input := by
  obtain ⟨frame, framed⟩ := fields.exists_frame
  refine ⟨⟨frame, framed .compact, framed .leb128⟩, ?_⟩
  rw [ofBytes, ofBytes, framed .compact, framed .leb128]

/-- The signature of a function, with a size and a count of one byte each. -/
theorem ofBytes_eq_of_signature :
    let input := Header.magicBytes ++ Header.versionBytes ++ [1, 4, 1, 0x60, 0, 0]
    Frame.OneByteFields .compact input ∧
      ofBytes .compact input = ofBytes .leb128 input := by
  intro input
  have firstStep : Frame.step .compact [] ⟨8, [1, 4, 1, 0x60, 0, 0]⟩ =
      .ok (.inl [⟨.types, 4, 1, ⟨11, [0x60, 0, 0]⟩⟩]) ⟨14, []⟩ := rfl
  have reaches (earlier : List RawSection) (reader : Reader)
      (reached : Frame.Reaches .compact input earlier reader) :
      (earlier = [] ∧ reader = ⟨8, [1, 4, 1, 0x60, 0, 0]⟩) ∨ reader = ⟨14, []⟩ := by
    induction reached with
    | start decoded =>
        cases (Frame.header_decode_of_bytes [1, 4, 1, 0x60, 0, 0]).symm.trans decoded
        exact .inl ⟨rfl, rfl⟩
    | next reached stepped inductionHypothesis =>
        obtain ⟨rfl, rfl⟩ | rfl := inductionHypothesis
        · rw [firstStep] at stepped
          cases stepped
          exact .inr rfl
        · cases stepped
  have fields : Frame.OneByteFields .compact input := by
    refine ⟨⟨_, rfl⟩, fun start after reads => ?_⟩
    cases reads with
    | size reached numberRead known sizeRead =>
        obtain ⟨-, rfl⟩ | rfl := reaches _ _ reached
        · cases numberRead
          rintro byte ⟨⟩
          decide
        · cases numberRead
    | count reached numberRead known notCustom sizeRead contentRead countRead =>
        obtain ⟨-, rfl⟩ | rfl := reaches _ _ reached
        · cases numberRead
          cases sizeRead
          cases contentRead
          rintro byte ⟨⟩
          decide
        · cases numberRead
  exact ⟨fields, (ofBytes_eq_of_oneByteFields fields).2⟩

end Module

end WebAssembly
