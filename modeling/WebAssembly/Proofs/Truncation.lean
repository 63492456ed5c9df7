import WebAssembly.Proofs.Chaining
import WebAssembly.Proofs.Reach

/-!
# Truncated binaries

What remains of a binary that is cut off depends on where it is cut. At the end of
a section it is a binary again, whose module lacks the sections behind the cut;
only functions must not lose their bodies. Anywhere else, framing fails where the
cut section starts, for want of its size or of its content.
-/

namespace WebAssembly

open Decode

/-! ## Truncated integers -/

namespace Numeral

/-- A group that is cut off does not end. -/
theorem IsGroup.groupEnd?_take
    {bytes : List UInt8}
    (isGroup : IsGroup bytes)
    {count : Nat}
    (cut : count < bytes.length) :
    groupEnd? (bytes.take count) = none := by
  cases found : groupEnd? (bytes.take count) with
  | none => rfl
  | some last =>
      obtain ⟨inner, -⟩ := (groupEnd?_eq_some_iff _ _).mp found
      have parts : (bytes.take count).take (last + 1) ++
          ((bytes.take count).drop (last + 1) ++ bytes.drop count) = bytes ++ [] := by
        rw [← List.append_assoc, List.take_append_drop, List.take_append_drop, List.append_nil]
      have same := congrArg List.length (inner.eq_of_append_eq isGroup parts)
      simp only [List.length_take] at same
      omega

/-- Without an end, no number of 32 bits can be read. -/
theorem u32_of_groupEnd?_eq_none {bytes : List UInt8} (endless : groupEnd? bytes = none) :
    u32 bytes = .error .unterminated := by
  rw [u32, unsigned, group, endless]
  rfl

end Numeral

namespace HeaderFormat

/-- What is missing from a section that starts at an offset and is cut off at
another: the end of its size field, which has `length` bytes, or, behind that, a
part of its content. -/
def shortfall (format : HeaderFormat) (start length cut : Nat) : Cause :=
  match format with
  | .leb128 =>
      if cut < start + 1 + length then .malformedVarint (start + 1)
      else .unexpectedEnd (start + 1 + length)
  | .compact =>
      if cut = start + 1 then .unexpectedEnd (start + 1)
      else .unexpectedEnd (start + 2)

variable {format : HeaderFormat} {value : UInt32} {list : List UInt8}

/-- A field does not depend on what follows it. -/
theorem field_append
    {position : Nat}
    {after : Reader}
    (read : format.field ⟨position, list⟩ = .ok value after)
    (rest : List UInt8) :
    format.field ⟨position, list ++ rest⟩ = .ok value ⟨after.position, after.unread ++ rest⟩ := by
  obtain ⟨spelling, written, unread, behind⟩ := (field_eq_ok_iff _ _ _ _).mp read
  refine (field_eq_ok_iff _ _ _ _).mpr ⟨spelling, written, ?_, behind⟩
  simp only at unread ⊢
  rw [unread, List.append_assoc]

/-- A field that is cut off cannot be read. -/
theorem field_take
    (written : (Layout.natural format value.toNat).Written list)
    (start : Nat)
    {count : Nat}
    (cut : count < list.length) :
    format.field ⟨start + 1, list.take count⟩ =
      .error (.ofCause (format.shortfall start list.length (start + 1 + count)))
        ⟨start + 1, list.take count⟩ := by
  cases format with
  | compact =>
      obtain ⟨-, rfl⟩ := (Layout.written_compact _ _).mp written
      obtain rfl : count = 0 := Nat.lt_one_iff.mp cut
      rw [shortfall, if_pos rfl]
      exact bind_of_error (byte_nil _)
  | leb128 =>
      obtain ⟨-, ⟨isGroup, -⟩⟩ := (Layout.written_leb128 _ _).mp written
      rw [shortfall, if_pos (Nat.add_lt_add_left cut _)]
      exact number_of_error (Numeral.u32_of_groupEnd?_eq_none (isGroup.groupEnd?_take cut))

/-- Behind the field, the content is missing. -/
theorem shortfall_of_le
    (written : (Layout.natural format value.toNat).Written list)
    (start : Nat)
    {cut : Nat}
    (behind : start + 1 + list.length ≤ cut) :
    format.shortfall start list.length cut = .unexpectedEnd (start + 1 + list.length) := by
  cases format with
  | compact =>
      obtain ⟨-, rfl⟩ := (Layout.written_compact _ _).mp written
      rw [List.length_singleton] at behind
      rw [shortfall, if_neg (by omega), List.length_singleton]
  | leb128 => rw [shortfall, if_neg (Nat.not_lt.mpr behind)]

end HeaderFormat

/-! ## Truncated sections -/

namespace RawSection

variable {format : HeaderFormat} {offset : Nat} {raw : RawSection} {first : List UInt8}

/-- A section is a number, a size field and as much content as the size says. -/
theorem Tile.exists_parts (tile : Tile format offset raw first) :
    ∃ sizeField content, first = raw.id.number :: (sizeField ++ content) ∧
      (Layout.natural format raw.size.toNat).Written sizeField ∧
      content.length = raw.size.toNat := by
  cases tile with
  | @custom size sizeField content sizeWritten exact =>
      exact ⟨sizeField, content, rfl, sizeWritten, exact⟩
  | @counted id size count sizeField countField content notCustom sizeWritten countWritten exact =>
      exact ⟨sizeField, countField ++ content, rfl, sizeWritten, exact⟩

/-- Behind the number of a section follow its size, its content and its count. -/
theorem decode_cons (format : HeaderFormat) (offset : Nat) (id : SectionId) (rest : List UInt8) :
    decode format ⟨offset, id.number :: rest⟩ =
      (do
        let size ← format.field
        let content ← split size.toNat
        if id = .custom then
          return { id, size, count := 0, payload := content }
        else
          let (count, payload) ← withinRest content format.field
          return { id, size, count, payload } : Decode Reader RawSection) ⟨offset + 1, rest⟩ := by
  have known : requireSome (SectionId.ofNumber? id.number) (.unknownSection id.number)
      (Reader.mk (offset + 1) rest) = .ok id (Reader.mk (offset + 1) rest) := by
    simp
  rw [decode, bind_of_ok (byte_cons _ _ _), bind_of_ok known]

/-- A section that is cut off cannot be split off. -/
theorem Tile.decode_take
    (tile : Tile format offset raw first)
    {count : Nat}
    (cut : count + 1 < first.length) :
    ∃ length rest after,
      format.field ⟨offset + 1, first.drop 1⟩ = .ok raw.size ⟨offset + 1 + length, rest⟩ ∧
      decode format ⟨offset, first.take (count + 1)⟩ =
        .error (.ofCause (format.shortfall offset length (offset + 1 + count))) after := by
  obtain ⟨sizeField, content, rfl, sizeWritten, exact⟩ := tile.exists_parts
  have sizeRead (position : Nat) (rest : List UInt8) :
      format.field ⟨position, sizeField ++ rest⟩ =
        .ok raw.size ⟨position + sizeField.length, rest⟩ :=
    HeaderFormat.field_of_written sizeWritten position rest
  rw [List.take_succ_cons, decode_cons]
  by_cases inField : count < sizeField.length
  · have fieldCut := HeaderFormat.field_take sizeWritten offset inField
    rw [← List.take_append_of_le_length inField.le] at fieldCut
    exact ⟨sizeField.length, content, _, sizeRead _ _, bind_of_error fieldCut⟩
  · obtain ⟨behind, rfl⟩ := Nat.exists_eq_add_of_le (Nat.le_of_not_lt inField)
    have short : (content.take behind).length < raw.size.toNat := by
      rw [List.length_cons, List.length_append] at cut
      rw [List.length_take, ← exact]
      omega
    have contentCut := split_of_lt raw.size.toNat
      ⟨offset + 1 + sizeField.length, content.take behind⟩ short
    refine ⟨sizeField.length, content, ⟨offset + 1 + sizeField.length, content.take behind⟩,
      sizeRead _ _, ?_⟩
    rw [List.take_length_add_append, bind_of_ok (sizeRead _ _), bind_of_error contentCut,
      HeaderFormat.shortfall_of_le sizeWritten offset (by omega)]

end RawSection

namespace Frame

open RawSection (Tile Tiles Offends Ordered uncustom)

/-- Framing fails at a section that is cut off, and names it. -/
theorem ofBytes_of_cut
    {format : HeaderFormat}
    {before : List RawSection}
    {raw : RawSection}
    {head middle : List UInt8}
    (ordered : Ordered before)
    (headTiles : Tiles format 8 before head)
    (tile : Tile format (8 + head.length) raw middle)
    {count : Nat}
    (cut : count + 1 < middle.length) :
    ∃ length rest,
      format.field ⟨8 + head.length + 1, middle.drop 1⟩ =
        .ok raw.size ⟨8 + head.length + 1 + length, rest⟩ ∧
      ofBytes format
          (Header.magicBytes ++ Header.versionBytes ++ (head ++ middle.take (count + 1))) =
        .error ((Failure.ofCause (format.shortfall (8 + head.length) length
          (8 + head.length + 1 + count))).inContext (.frame (8 + head.length))) := by
  obtain ⟨length, rest, after, sizeRead, failed⟩ := tile.decode_take cut
  have unread : middle.take (count + 1) ≠ [] := by
    apply List.ne_nil_of_length_pos
    rw [List.length_take]
    omega
  exact ⟨length, rest, sizeRead,
    ofBytes_of_offends headTiles ordered (.of_decode_error unread failed)⟩

end Frame

/-! ## Modules without some sections -/

namespace Module

open RawSection (Tiles Ordered uncustom uncustom_append mem_uncustom_iff)

/-- One module is another without its sections of some kinds. -/
structure Without (module : Module) (absent : SectionId → Prop) (rest : Module) : Prop where
  magic : rest.magic = module.magic
  version : rest.version = module.version
  lacks : ∀ id, absent id → rest.section? id = none
  keeps : ∀ id, ¬ absent id → rest.section? id = module.section? id

section Folds

variable {raws before behind : List RawSection} {module rest : Module} {magic : String}
  {version : UInt32}

/-- A module has the sections that it is decoded from. -/
theorem isSome_section?_iff
    (ordered : raws.Pairwise RawSection.Precedes)
    (folded : raws.foldlM extend (bare magic version) = .ok module)
    (id : SectionId) :
    (module.section? id).isSome = true ↔ ∃ raw ∈ raws, raw.id = id := by
  obtain ⟨contents, carry, rfl, -⟩ :=
    (foldlM_extend_eq_ok_iff ordered (countable_bare magic version) module).mp folded
  have contentsOrdered := (ordered_iff_of_carries carry).mpr ordered
  have sameIds : (∃ content ∈ contents, content.id = id) ↔ ∃ raw ∈ raws, raw.id = id := by
    rw [← List.mem_map, ← List.mem_map, ids_eq_of_carries carry]
  rw [← sameIds]
  constructor
  · intro present
    by_contra absent
    have unmatched (content : Section) (among : content ∈ contents) : content.id ≠ id :=
      fun same => absent ⟨content, among, same⟩
    rw [section?_foldl_of_notMem unmatched, section?_bare] at present
    cases present
  · rintro ⟨content, among, rfl⟩
    rw [section?_foldl_of_mem contentsOrdered among, Option.isSome_some]

/-- Leaving off the last sections of a binary takes just these from its module. -/
theorem without_of_foldlM
    (ordered : (before ++ behind).Pairwise RawSection.Precedes)
    (folded : before.foldlM extend (bare magic version) = .ok rest)
    (foldedBehind : behind.foldlM extend rest = .ok module) :
    module.Without (fun id => ∃ raw ∈ behind, raw.id = id) rest := by
  obtain ⟨beforeOrdered, behindOrdered, precede⟩ := List.pairwise_append.mp ordered
  obtain ⟨contents, carry, rfl, -⟩ := (foldlM_extend_eq_ok_iff behindOrdered
    ((countable_bare magic version).foldlM_extend folded) module).mp foldedBehind
  constructor
  · rw [magic_foldl]
  · rw [version_foldl]
  · rintro id ⟨raw, among, rfl⟩
    rw [← Option.not_isSome_iff_eq_none, isSome_section?_iff beforeOrdered folded]
    rintro ⟨other, otherAmong, sameId⟩
    have precedes : other.id.number.toNat < raw.id.number.toNat :=
      precede other otherAmong raw among
    rw [sameId] at precedes
    exact Nat.lt_irrefl _ precedes
  · intro id absent
    refine (section?_foldl_of_notMem (fun content among sameId => absent ?_) rest).symm
    have amongIds : id ∈ contents.map Section.id := List.mem_map.mpr ⟨content, among, sameId⟩
    rw [ids_eq_of_carries carry] at amongIds
    exact List.mem_map.mp amongIds

end Folds

namespace Without

variable {module rest : Module} {absent : SectionId → Prop}

theorem functions_eq (without : module.Without absent rest) (kept : ¬ absent .functions) :
    rest.functions = module.functions :=
  Option.map_injective (fun _ _ => Section.functions.inj) (without.keeps .functions kept)

theorem code_eq (without : module.Without absent rest) (kept : ¬ absent .code) :
    rest.code = module.code :=
  Option.map_injective (fun _ _ => Section.code.inj) (without.keeps .code kept)

theorem functions_eq_none (without : module.Without absent rest) (lost : absent .functions) :
    rest.functions = none :=
  Option.map_eq_none_iff.mp (without.lacks .functions lost)

theorem code_eq_none (without : module.Without absent rest) (lost : absent .code) :
    rest.code = none :=
  Option.map_eq_none_iff.mp (without.lacks .code lost)

/-- No module has custom sections, so nothing depends on whether they are kept. -/
theorem congr
    {lost : SectionId → Prop}
    (without : module.Without absent rest)
    (same : ∀ id, id ≠ .custom → (lost id ↔ absent id)) :
    module.Without lost rest where
  magic := without.magic
  version := without.version
  lacks id isLost := by
    by_cases isCustom : id = .custom
    · rw [isCustom, section?]
    · exact without.lacks id ((same id isCustom).mp isLost)
  keeps id kept := by
    by_cases isCustom : id = .custom
    · rw [isCustom, section?, section?]
    · exact without.keeps id (mt (same id isCustom).mpr kept)

/-- Functions lose their bodies if just the code section is taken away. -/
theorem lacksCode_iff (without : module.Without absent rest) (complete : module.lacksCode = false) :
    rest.lacksCode = true ↔
      entries module.functions ≠ [] ∧ ¬ absent .functions ∧ absent .code := by
  rw [lacksCode_eq_false_iff] at complete
  by_cases lost : absent .functions
  · simp [lacksCode, without.functions_eq_none lost, lost]
  by_cases codeLost : absent .code
  · simp [lacksCode, without.functions_eq lost, without.code_eq_none codeLost, lost, codeLost]
  · simp only [lacksCode, without.functions_eq lost, without.code_eq codeLost, lost, codeLost,
      and_false, iff_false]
    simpa [← Option.isSome_iff_ne_none] using complete

end Without

/-! ## Truncated modules -/

section Truncation

variable {format : HeaderFormat} {module : Module}

/-- What is cut off within the header has no header. -/
theorem ofBytes_take_of_lt
    {count : Nat}
    (short : count < 8)
    (input : List UInt8) :
    ofBytes format (input.take count) = .error (.ofCause .invalidMagicOrVersion) := by
  refine ofBytes_of_frame_error (Frame.ofBytes_of_no_header _ _ fun rest same => ?_)
  have sameLength := congrArg List.length same
  simp only [List.length_take, List.length_append, Header.magicBytes, Header.versionBytes,
    List.length_cons, List.length_nil] at sameLength
  omega

/-- Between two sections, a binary can be cut off, as long as no function loses
its body. -/
theorem exists_without_of_boundary
    {input : List UInt8}
    (decoded : ofBytes format input = .ok module)
    {count : Nat}
    (boundary : Frame.Boundary format input count) :
    ∃ rest, module.Without (Frame.StartsBehind format input count) rest ∧
      ofBytes format (input.take count) =
        if rest.lacksCode then .error (.ofCause .missingCodeSection) else .ok rest := by
  obtain ⟨frame, framed, assembled⟩ := (Except.bind_eq_ok_iff _ _ _).mp decoded
  obtain ⟨folded, -⟩ := (ofFrame_eq_ok_iff frame module).mp assembled
  obtain ⟨raws, list, rfl, tiles, ordered, rfl⟩ := Frame.exists_tiles_of_ofBytes framed
  obtain ⟨before, front, back, parts, rfl, frontTiles, beforeOrdered⟩ :=
    (Frame.boundary_iff count).mp boundary
  obtain rfl := List.append_cancel_left parts
  obtain ⟨behind, rfl, backTiles⟩ := tiles.exists_behind frontTiles
  rw [uncustom_append, List.foldlM_append, Except.bind_eq_ok_iff] at folded
  obtain ⟨rest, foldedBefore, foldedBehind⟩ := folded
  have sorted := ordered
  rw [Ordered, uncustom_append] at sorted
  have without := without_of_foldlM sorted foldedBefore foldedBehind
  have framedBefore := Frame.ofBytes_of_tiles frontTiles beforeOrdered
  refine ⟨rest, without.congr fun id notCustom => ⟨?_, ?_⟩, ?_⟩
  · rintro ⟨start, ⟨raw, stop, sectionAt, rfl⟩, notBefore⟩
    have among := Frame.mem_behind_of_sectionAt ordered frontTiles backTiles sectionAt notBefore
    exact ⟨raw, (mem_uncustom_iff raw behind).mpr ⟨among, notCustom⟩, rfl⟩
  · rintro ⟨raw, among, rfl⟩
    obtain ⟨start, stop, sectionAt, notBefore⟩ := Frame.exists_sectionAt_of_mem_behind ordered
      frontTiles backTiles ((mem_uncustom_iff raw behind).mp among).1
    exact ⟨start, ⟨raw, stop, sectionAt, rfl⟩, notBefore⟩
  · rw [Frame.take_header, List.take_left, ofBytes, framedBefore]
    exact @ofFrame_of_foldlM ⟨Header.standard, uncustom before⟩ rest foldedBefore

/-- Anywhere else, framing fails at the section that is cut. -/
theorem exists_section_of_not_boundary
    {input : List UInt8}
    (decoded : ofBytes format input = .ok module)
    {count : Nat}
    (cut : count < input.length)
    (behindHeader : ¬ count < 8)
    (noBoundary : ¬ Frame.Boundary format input count) :
    ∃ raw start stop length rest, Frame.SectionAt format input raw start stop ∧
      start < count ∧ count < stop ∧
      format.field ⟨start + 1, input.drop (start + 1)⟩ =
        .ok raw.size ⟨start + 1 + length, rest⟩ ∧
      ofBytes format (input.take count) =
        .error ((Failure.ofCause (format.shortfall start length count)).inContext
          (.frame start)) := by
  obtain ⟨frame, framed, -⟩ := (Except.bind_eq_ok_iff _ _ _).mp decoded
  obtain ⟨raws, list, rfl, tiles, ordered, -⟩ := Frame.exists_tiles_of_ofBytes framed
  have headerLength : (Header.magicBytes ++ Header.versionBytes).length = 8 := rfl
  obtain ⟨inside, rfl⟩ := Nat.exists_eq_add_of_le (Nat.le_of_not_lt behindHeader)
  have within : inside ≤ list.length := by
    rw [List.length_append, headerLength] at cut
    omega
  obtain ⟨before, head, behind, tail, rfl, rfl, rfl, headTiles, -⟩ |
    ⟨before, head, raw, middle, behind, tail, rfl, rfl, headTiles, tile, -, above, below⟩ :=
      tiles.exists_split within
  · exact absurd ((Frame.boundary_iff _).mpr
      ⟨before, head, tail, rfl, rfl, headTiles, ordered.of_append_left⟩) noBoundary
  -- the number of the section is always kept, as the cut is not where it starts
  obtain ⟨beyond, rfl⟩ := Nat.exists_eq_add_of_lt above
  have sectionAt := (Frame.sectionAt_iff tiles ordered _ _ _).mpr
    ⟨before, head, middle, behind, tail, rfl, rfl, headTiles, tile, rfl, rfl⟩
  have cutInside : beyond + 1 < middle.length := by omega
  obtain ⟨length, rest, sizeRead, failed⟩ :=
    Frame.ofBytes_of_cut ordered.of_append_left headTiles tile cutInside
  have dropped : (Header.magicBytes ++ Header.versionBytes ++ (head ++ (middle ++ tail))).drop
      (8 + head.length + 1) = middle.drop 1 ++ tail := by
    rw [Nat.add_assoc, Frame.drop_header, List.drop_length_add_append,
      List.drop_append_of_le_length tile.length_pos]
  have taken : (Header.magicBytes ++ Header.versionBytes ++ (head ++ (middle ++ tail))).take
      (8 + (head.length + beyond + 1)) =
        Header.magicBytes ++ Header.versionBytes ++ (head ++ middle.take (beyond + 1)) := by
    rw [Frame.take_header, Nat.add_assoc head.length, List.take_length_add_append,
      List.take_append_of_le_length cutInside.le]
  have sameCount : 8 + (head.length + beyond + 1) = 8 + head.length + 1 + beyond := by omega
  refine ⟨raw, _, _, length, rest ++ tail, sectionAt, by omega, by omega, ?_, ?_⟩
  · rw [dropped]
    exact HeaderFormat.field_append sizeRead tail
  · rw [taken, sameCount]
    exact ofBytes_of_frame_error failed

/-- What becomes of a binary that decodes to a module if it is cut off at an offset.
Functions lose their bodies if the cut takes away just the code section. -/
structure Truncated
    (format : HeaderFormat)
    (input : List UInt8)
    (module : Module)
    (count : Nat) : Prop where
  inHeader : count < 8 →
    ofBytes format (input.take count) = .error (.ofCause .invalidMagicOrVersion)
  atBoundary : Frame.Boundary format input count →
    let cutOff := Frame.StartsBehind format input count
    let bodiesLost := entries module.functions ≠ [] ∧ ¬ cutOff .functions ∧ cutOff .code
    ∃ rest, module.Without cutOff rest ∧
      (bodiesLost → ofBytes format (input.take count) = .error (.ofCause .missingCodeSection)) ∧
      (¬ bodiesLost → ofBytes format (input.take count) = .ok rest)
  inSection : ¬ count < 8 → ¬ Frame.Boundary format input count →
    ∃ raw start stop length rest, Frame.SectionAt format input raw start stop ∧
      start < count ∧ count < stop ∧
      format.field ⟨start + 1, input.drop (start + 1)⟩ =
        .ok raw.size ⟨start + 1 + length, rest⟩ ∧
      ofBytes format (input.take count) =
        .error ((Failure.ofCause (format.shortfall start length count)).inContext
          (.frame start))

/-- A binary that is cut off within its header has none. One that is cut off where
a section ends decodes to the module without the sections behind, unless that
deprives functions of their bodies. One that is cut off inside a section fails
there, for want of its size or of its content. -/
theorem truncated_of_ofBytes
    {input : List UInt8}
    (decoded : ofBytes format input = .ok module)
    {count : Nat}
    (cut : count < input.length) :
    Truncated format input module count where
  inHeader short := ofBytes_take_of_lt short input
  atBoundary boundary := by
    intro cutOff bodiesLost
    obtain ⟨rest, without, result⟩ := exists_without_of_boundary decoded boundary
    obtain ⟨frame, -, assembled⟩ := (Except.bind_eq_ok_iff _ _ _).mp decoded
    have complete := ((ofFrame_eq_ok_iff frame module).mp assembled).2
    have lost := without.lacksCode_iff complete
    refine ⟨rest, without, fun bodies => ?_, fun bodies => ?_⟩
    · rw [result, if_pos (lost.mpr bodies)]
    · rw [result, if_neg (mt lost.mp bodies)]
  inSection := exists_section_of_not_boundary decoded cut

/-- A function, cut off between its type index and its body. -/
theorem truncated_of_function :
    let input := Header.magicBytes ++ Header.versionBytes ++
      [1, 4, 1, 0x60, 0, 0, 3, 0x82, 0, 1, 0, 0, 1, 0xFF, 10, 4, 1, 2, 0, 0x0B]
    let module : Module :=
      { magic := "\x00asm"
        version := 1
        types := some [⟨[], [], 3⟩]
        functions := some [0]
        code := some [⟨0, 0, ⟨[], [], 3⟩, ⟨2, [], [], 3⟩⟩] }
    ofBytes .leb128 input = .ok module ∧ 22 < input.length ∧
      Truncated .leb128 input module 22 := by
  intro input module
  have decoded : ofBytes .leb128 input = .ok module := by decide +kernel
  exact ⟨decoded, by decide, truncated_of_ofBytes decoded (by decide)⟩

end Truncation

end Module

end WebAssembly
