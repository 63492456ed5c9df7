import WebAssembly.Disassembly
import WebAssembly.Proofs.Isolation
import WebAssembly.Proofs.Reach

/-!
# Custom sections are invisible

A custom section may be put in wherever framing gets to. Framing passes it, and the
sections behind it are the same ones some bytes further on. As decoders are free of
positions, the binary decodes to the same module, or fails for the same cause, whose
offset is greater by the length of the custom section if it lies behind it.
-/

namespace WebAssembly

open Decode

/-! ## Sections further on -/

/-- A field of a header is read wherever it stands. -/
theorem HeaderFormat.uniform_field
    {accord : Accord Reader Reader}
    (format : HeaderFormat) :
    Uniform accord format.field format.field := by
  cases format with
  | compact => exact .bind .byte fun _ => .pure _
  | leb128 => exact .u32

namespace RawSection

/-- The bytes of a custom section: its number, a size field, and as many bytes as
that says, whatever they are. -/
def IsCustom (format : HeaderFormat) (list : List UInt8) : Prop :=
  ∃ sizeField content, list = [SectionId.custom.number] ++ (sizeField ++ content) ∧
    (Layout.natural format content.length).Written sizeField

section Shifts

variable {format : HeaderFormat} {offset : Nat} {raw : RawSection} {raws : List RawSection}
  {list : List UInt8}

/-- Some bytes further on, a section is split off with its payload further on. -/
theorem parallel_decode (format : HeaderFormat) (distance : Nat) :
    Parallel (Reader.accord distance) (fun far near => far = near.shift distance)
      (decode format) (decode format) := by
  refine .bind_same .byte fun number => ?_
  refine .bind_same (.requireSome _ _ fun _ => rfl) fun id => ?_
  refine .bind_same format.uniform_field fun size => ?_
  refine .bind (.split size.toNat) fun content other moved => ?_
  obtain rfl : content = other.shift distance := moved
  by_cases isCustom : id = .custom
  · simp only [if_pos isCustom]
    exact .pure rfl
  · simp only [if_neg isCustom]
    refine .bind (.withinRest rfl format.uniform_field) fun far near same => ?_
    obtain ⟨sameCount, moved⟩ := same
    rw [sameCount]
    exact .pure (congrArg (RawSection.mk id size near.1) moved)

/-- A tile that stands further on is a tile of the section further on. -/
theorem Tile.shift (tile : Tile format offset raw list) (distance : Nat) :
    Tile format (offset + distance) (raw.shift distance) list := by
  obtain ⟨_, decoded, rfl⟩ := (parallel_decode format distance).ok_shift (tile.decode_append [])
  obtain ⟨spelling, moved, unread, -⟩ := (decode_eq_ok_iff_tile _ _ _ _).mp decoded
  obtain rfl : list = spelling := List.append_cancel_right unread
  exact moved

/-- Tiles in a row that stand further on are tiles of the sections further on. -/
theorem Tiles.shift (tiles : Tiles format offset raws list) (distance : Nat) :
    Tiles format (offset + distance) (raws.map (RawSection.shift distance)) list := by
  induction tiles with
  | nil => exact .nil
  | @cons offset raw raws first rest tile tiles inductionHypothesis =>
      rw [Nat.add_right_comm] at inductionHypothesis
      exact .cons (tile.shift distance) inductionHypothesis

/-- Further on, a section offends for the same cause. Of the earlier sections only
the kinds matter. -/
theorem Offends.shift
    {earlier others : List RawSection}
    {failure : Failure}
    (offends : Offends format earlier offset list failure)
    (distance : Nat)
    (sameKinds : ∀ id, id ≠ .custom →
      ((∃ raw ∈ earlier, raw.id = id) ↔ ∃ raw ∈ others, raw.id = id)) :
    ∃ other, Offends format others (offset + distance) list other ∧
      other.cause = failure.cause.shift distance := by
  cases offends with
  | @unsplit failure after unread noTile failed =>
      have moved := (parallel_decode format distance).error_shift failed
      exact ⟨_, .of_decode_error unread moved, rfl⟩
  | @repeated raw first rest parts tile notCustom seen =>
      exact ⟨_, .repeated parts (tile.shift distance) notCustom
        ((sameKinds raw.id notCustom).mp seen), rfl⟩
  | @misplaced raw first rest parts tile notCustom unseen passed =>
      obtain ⟨later, among, precedes⟩ := passed
      have laterNotCustom : later.id ≠ .custom :=
        fun isCustom => not_precedes_of_custom isCustom precedes
      obtain ⟨other, otherAmong, sameId⟩ :=
        (sameKinds later.id laterNotCustom).mp ⟨later, among, rfl⟩
      refine ⟨_, .misplaced parts (tile.shift distance) notCustom ?_ ⟨other, otherAmong, ?_⟩, rfl⟩
      · intro other among sameId
        obtain ⟨first, firstAmong, firstId⟩ :=
          (sameKinds raw.id notCustom).mpr ⟨other, among, sameId⟩
        exact unseen first firstAmong firstId
      · rw [Precedes, sameId]
        exact precedes

/-- A custom section is a tile, whatever its content is. -/
theorem IsCustom.exists_tile (isCustom : IsCustom format list) (offset : Nat) :
    ∃ raw, raw.id = .custom ∧ Tile format offset raw list := by
  obtain ⟨sizeField, content, rfl, written⟩ := isCustom
  have fits : (UInt32.ofNat content.length).toNat = content.length :=
    UInt32.toNat_ofNat_of_lt' written.natural_lt
  let raw : RawSection := {
    id := .custom
    size := UInt32.ofNat content.length
    count := 0
    payload := ⟨offset + 1 + sizeField.length, content⟩ }
  exact ⟨raw, rfl, .custom (by rwa [fits]) fits.symm⟩

end Shifts

section Inserted

variable {before behind : List RawSection} {raw : RawSection}

/-- A custom section that is inserted is left out again; what follows it is further on.
-/
theorem uncustom_insert
    (isCustom : raw.id = .custom)
    (before behind : List RawSection)
    (distance : Nat) :
    uncustom (before ++ raw :: behind.map (shift distance)) =
      uncustom before ++ (uncustom behind).map (shift distance) := by
  rw [uncustom_append, uncustom_cons_of_custom isCustom, uncustom, uncustom, uncustom,
    List.filter_map]
  rfl

/-- Sections stay in order when a custom one is inserted. -/
theorem Ordered.insert
    (ordered : Ordered (before ++ behind))
    (isCustom : raw.id = .custom)
    (distance : Nat) :
    Ordered (before ++ raw :: behind.map (shift distance)) := by
  rw [Ordered, uncustom_append, List.pairwise_append] at ordered
  obtain ⟨beforeOrdered, behindOrdered, precede⟩ := ordered
  rw [Ordered, uncustom_insert isCustom, List.pairwise_append, List.pairwise_map]
  refine ⟨beforeOrdered, behindOrdered, fun other among moved movedAmong => ?_⟩
  obtain ⟨later, laterAmong, rfl⟩ := List.mem_map.mp movedAmong
  exact precede other among later laterAmong

/-- A custom section adds no other kind. -/
theorem exists_id_insert_iff
    (isCustom : raw.id = .custom)
    (distance : Nat)
    (id : SectionId)
    (notCustom : id ≠ .custom) :
    (∃ other ∈ before ++ behind, other.id = id) ↔
      ∃ other ∈ before ++ raw :: behind.map (shift distance), other.id = id := by
  have different : raw.id ≠ id := fun same => notCustom (same ▸ isCustom)
  simp [or_and_right, exists_or, different, shift]

end Inserted

end RawSection

/-! ## Frames -/

namespace Frame

open RawSection (Tile Tiles Offends Ordered uncustom uncustom_append mem_uncustom_iff IsCustom)

/-- Framing fails at the section that starts at an offset. -/
def FailsAt
    (format : HeaderFormat)
    (input : List UInt8)
    (start : Nat)
    (failure : Failure) : Prop :=
  ∃ earlier reader after, Reaches format input earlier reader ∧ reader.isEnd = false ∧
    step format earlier reader = .error failure after ∧ reader.position = start

section Insertion

variable {format : HeaderFormat} {input custom : List UInt8} {offset : Nat}

/-- A section that offends behind tiles in order is where framing fails. -/
theorem failsAt_of_offends
    {raws : List RawSection}
    {front rest : List UInt8}
    {failure : Failure}
    (tiles : Tiles format 8 raws front)
    (ordered : Ordered raws)
    (offends : Offends format raws (8 + front.length) rest failure) :
    FailsAt format (Header.magicBytes ++ Header.versionBytes ++ (front ++ rest))
      (8 + front.length) failure := by
  rw [← RawSection.offends_reverse_uncustom_iff] at offends
  obtain ⟨unread, after, stepped⟩ := step_of_offends (List.pairwise_reverse.mpr ordered) offends
  exact ⟨_, ⟨_, rest⟩, after, (reaches_iff _).mpr ⟨raws, front, rfl, rfl, tiles, ordered, rfl⟩,
    by simpa [Reader.isEnd] using unread, stepped, rfl⟩

/-- Behind a boundary, a binary is tiled in order up to its end or up to a section
that offends. -/
theorem Boundary.exists_tiles (boundary : Boundary format input offset) :
    ∃ before behind front middle rest,
      input = Header.magicBytes ++ Header.versionBytes ++ (front ++ (middle ++ rest)) ∧
      offset = 8 + front.length ∧ Tiles format 8 before front ∧
      Tiles format (8 + front.length) behind middle ∧ Ordered (before ++ behind) ∧
      (rest = [] ∨
        ∃ failure, Offends format (before ++ behind) (8 + (front ++ middle).length) rest
          failure) := by
  obtain ⟨before, front, back, rfl, rfl, frontTiles, ordered⟩ := (boundary_iff _).mp boundary
  obtain ⟨behind, middle, rest, rfl, tiles, descending, ends⟩ :=
    tileable format (8 + front.length) back (List.pairwise_reverse.mpr ordered)
  rw [← List.reverse_append, ← uncustom_append] at descending ends
  simp only [RawSection.offends_reverse_uncustom_iff, Nat.add_assoc, ← List.length_append] at ends
  exact ⟨before, behind, front, middle, rest, rfl, rfl, frontTiles, tiles,
    List.pairwise_reverse.mp descending, ends⟩

/-- Framing takes no notice of a custom section at a boundary, but that what is
behind it has moved. -/
theorem ofBytes_insert
    (boundary : Boundary format input offset)
    (isCustom : IsCustom format custom) :
    let inserted := input.take offset ++ custom ++ input.drop offset
    (∃ before behind, ofBytes format input = .ok ⟨Header.standard, before ++ behind⟩ ∧
      ofBytes format inserted =
        .ok ⟨Header.standard, before ++ behind.map (RawSection.shift custom.length)⟩ ∧
      (∀ raw ∈ before, ∃ start stop, SectionAt format input raw start stop ∧ start < offset) ∧
      ∀ raw ∈ behind, ∃ start stop, SectionAt format input raw start stop ∧ offset ≤ start) ∨
    ∃ start failure other, ofBytes format input = .error failure ∧
      ofBytes format inserted = .error other ∧ FailsAt format input start failure ∧
      offset ≤ start ∧ other.cause = failure.cause.shift custom.length := by
  intro inserted
  obtain ⟨before, behind, front, middle, rest, rfl, rfl, frontTiles, middleTiles, ordered, ends⟩ :=
    boundary.exists_tiles
  obtain ⟨raw, rawCustom, tile⟩ := isCustom.exists_tile (8 + front.length)
  have sameInserted : inserted = Header.magicBytes ++ Header.versionBytes ++
      (front ++ (custom ++ middle) ++ rest) := by
    simp only [inserted]
    rw [take_header, drop_header, List.take_left, List.drop_left]
    simp only [List.append_assoc]
  -- the tiles in front stay, the custom one comes next, and the others move behind it
  have tiles := frontTiles.append middleTiles
  have insertedTiles := frontTiles.append (.cons tile (middleTiles.shift custom.length))
  have insertedOrdered := ordered.insert rawCustom custom.length
  rw [sameInserted, ← List.append_assoc front]
  obtain rfl | ⟨failure, offends⟩ := ends
  · rw [List.append_nil, List.append_nil]
    refine .inl ⟨uncustom before, uncustom behind, ?_, ?_, fun raw among => ?_,
      fun raw among => ?_⟩
    · rw [← uncustom_append]
      exact ofBytes_of_tiles tiles ordered
    · rw [← RawSection.uncustom_insert rawCustom]
      exact ofBytes_of_tiles insertedTiles insertedOrdered
    · exact exists_sectionAt_of_mem_before ordered frontTiles middleTiles
        ((mem_uncustom_iff _ _).mp among).1
    · exact exists_sectionAt_of_mem_behind ordered frontTiles middleTiles
        ((mem_uncustom_iff _ _).mp among).1
  · obtain ⟨other, otherOffends, sameCause⟩ := offends.shift custom.length
      (RawSection.exists_id_insert_iff rawCustom custom.length)
    have sameOffset : 8 + (front ++ middle).length + custom.length =
        8 + (front ++ (custom ++ middle)).length := by
      simp only [List.length_append]
      omega
    rw [sameOffset] at otherOffends
    have behindFront : 8 + front.length ≤ 8 + (front ++ middle).length := by simp
    exact .inr ⟨_, failure, other, ofBytes_of_offends tiles ordered offends,
      ofBytes_of_offends insertedTiles insertedOrdered otherOffends,
      failsAt_of_offends tiles ordered offends, behindFront, sameCause⟩

end Insertion

end Frame

/-! ## Modules -/

namespace Module

/-- Decoding fails at the section that starts at an offset: framing does, or the
sections before it can be decoded and it cannot. -/
inductive FailsAt (format : HeaderFormat) (input : List UInt8) : Nat → Failure → Prop
  | framing {start : Nat} {failure : Failure}
      (failed : Frame.FailsAt format input start failure) :
      FailsAt format input start failure
  | decoding {frame : Frame} {earlier later : List RawSection} {raw : RawSection}
      {module : Module} {start stop : Nat} {failure : Failure}
      (framed : Frame.ofBytes format input = .ok frame)
      (sections : frame.sections = earlier ++ raw :: later)
      (decoded : earlier.foldlM extend (bare frame.header.magic frame.header.version) =
        .ok module)
      (sectionAt : Frame.SectionAt format input raw start stop)
      (failed : module.extend raw = .error failure) :
      FailsAt format input start failure

section Folds

variable {raws : List RawSection} {module : Module} {failure : Failure}

/-- Sections that stand further on are decoded to the same module, or fail further on.
-/
theorem foldlM_extend_shift (raws : List RawSection) (module : Module) (distance : Nat) :
    (raws.map (RawSection.shift distance)).foldlM extend module =
      (raws.foldlM extend module).mapError (Failure.shift distance) := by
  induction raws generalizing module with
  | nil => rfl
  | cons raw raws inductionHypothesis =>
      rw [List.map_cons, List.foldlM_cons, List.foldlM_cons, extend_shift]
      cases module.extend raw with
      | ok extended => exact inductionHypothesis extended
      | error failure => rfl

theorem foldlM_extend_append_of_ok
    {context : Module}
    (decoded : raws.foldlM extend module = .ok context)
    (others : List RawSection) :
    (raws ++ others).foldlM extend module = others.foldlM extend context := by
  rw [List.foldlM_append, decoded]
  rfl

theorem foldlM_extend_append_of_error
    (failed : raws.foldlM extend module = .error failure)
    (others : List RawSection) :
    (raws ++ others).foldlM extend module = .error failure := by
  rw [List.foldlM_append, failed]
  rfl

end Folds

section Insertion

variable {format : HeaderFormat} {input custom : List UInt8} {offset : Nat}

/-- What becomes of the result of decoding if everything from an offset on moves: a
module stays as it is, and a failure keeps its cause up to the offset in it, which
moves along with the section that it is met in. -/
inductive Moves (format : HeaderFormat) (input : List UInt8) (offset distance : Nat) :
    Except Failure Module → Except Failure Module → Prop
  | decoded (module : Module) : Moves format input offset distance (.ok module) (.ok module)
  | bodiless :
      Moves format input offset distance (.error (.ofCause .missingCodeSection))
        (.error (.ofCause .missingCodeSection))
  | failed {start : Nat} {failure other : Failure}
      (failsAt : FailsAt format input start failure)
      (sameCause : other.cause =
        if start < offset then failure.cause else failure.cause.shift distance) :
      Moves format input offset distance (.error failure) (.error other)

/-- If the first sections of a frame can be decoded and the next ones cannot, then
decoding fails at one of these. -/
theorem exists_failsAt
    {header : Header}
    {passed raws later : List RawSection}
    {context : Module}
    {failure : Failure}
    (framed : Frame.ofBytes format input = .ok ⟨header, passed ++ (raws ++ later)⟩)
    (decoded : passed.foldlM extend (bare header.magic header.version) = .ok context)
    (failed : raws.foldlM extend context = .error failure) :
    ∃ raw ∈ raws, ∀ start stop, Frame.SectionAt format input raw start stop →
      FailsAt format input start failure := by
  obtain ⟨earlier, raw, others, extended, rfl, extendedDecoded, rawFailed⟩ :=
    exists_of_foldlM_error failed
  have sections : passed ++ (earlier ++ raw :: others ++ later) =
      (passed ++ earlier) ++ raw :: (others ++ later) := by simp
  have sectionsDecoded := (foldlM_extend_append_of_ok decoded earlier).trans extendedDecoded
  exact ⟨raw, by simp, fun start stop sectionAt =>
    .decoding framed sections sectionsDecoded sectionAt rawFailed⟩

theorem moves_of_frame
    {before behind : List RawSection}
    {header : Header}
    (framed : Frame.ofBytes format input = .ok ⟨header, before ++ behind⟩)
    (startBefore : ∀ raw ∈ before,
      ∃ start stop, Frame.SectionAt format input raw start stop ∧ start < offset)
    (startBehind : ∀ raw ∈ behind,
      ∃ start stop, Frame.SectionAt format input raw start stop ∧ offset ≤ start)
    (distance : Nat) :
    Moves format input offset distance (ofFrame ⟨header, before ++ behind⟩)
      (ofFrame ⟨header, before ++ behind.map (RawSection.shift distance)⟩) := by
  cases foldedBefore : before.foldlM extend (bare header.magic header.version) with
  | error failure =>
      rw [← List.nil_append (before ++ behind)] at framed
      obtain ⟨raw, among, fails⟩ := exists_failsAt framed rfl foldedBefore
      obtain ⟨start, stop, sectionAt, isBefore⟩ := startBefore raw among
      rw [ofFrame_of_foldlM_error (foldlM_extend_append_of_error foldedBefore _),
        ofFrame_of_foldlM_error (foldlM_extend_append_of_error foldedBefore _)]
      exact .failed (fails start stop sectionAt) (if_pos isBefore).symm
  | ok context =>
      have near := foldlM_extend_append_of_ok foldedBefore behind
      have far := foldlM_extend_append_of_ok foldedBefore
        (behind.map (RawSection.shift distance))
      rw [foldlM_extend_shift] at far
      cases foldedBehind : behind.foldlM extend context with
      | error failure =>
          rw [foldedBehind] at near far
          rw [← List.append_nil behind] at framed
          obtain ⟨raw, among, fails⟩ := exists_failsAt framed foldedBefore foldedBehind
          obtain ⟨start, stop, sectionAt, isBehind⟩ := startBehind raw among
          rw [ofFrame_of_foldlM_error near, ofFrame_of_foldlM_error far]
          exact .failed (fails start stop sectionAt) (if_neg (Nat.not_lt.mpr isBehind)).symm
      | ok module =>
          rw [foldedBehind] at near far
          rw [ofFrame_of_foldlM near, ofFrame_of_foldlM far]
          cases module.lacksCode with
          | true => exact .bodiless
          | false => exact .decoded module

/-- A custom section at a boundary only moves what is behind it. -/
theorem moves_insert_custom
    (boundary : Frame.Boundary format input offset)
    (isCustom : RawSection.IsCustom format custom) :
    Moves format input offset custom.length (ofBytes format input)
      (ofBytes format (input.take offset ++ custom ++ input.drop offset)) := by
  obtain ⟨before, behind, framed, insertedFramed, startBefore, startBehind⟩ |
    ⟨start, failure, other, failed, insertedFailed, failsAt, isBehind, sameCause⟩ :=
      Frame.ofBytes_insert boundary isCustom
  · rw [ofBytes, ofBytes, framed, insertedFramed]
    exact moves_of_frame framed startBefore startBehind custom.length
  · rw [ofBytes_of_frame_error failed, ofBytes_of_frame_error insertedFailed]
    refine .failed (.framing failsAt) ?_
    rw [if_neg (Nat.not_lt.mpr isBehind), sameCause]

/-- Custom sections are invisible. With one put in at a boundary, a binary decodes
to the same module, and so to the same text, or fails for the same cause. The offset
of the cause is the same if the section it is met in starts before the custom one,
and greater by the length of the custom one otherwise. -/
theorem ofBytes_insert_custom
    (boundary : Frame.Boundary format input offset)
    (isCustom : RawSection.IsCustom format custom) :
    let inserted := input.take offset ++ custom ++ input.drop offset
    (∀ module, ofBytes format inserted = .ok module ↔ ofBytes format input = .ok module) ∧
    (∀ output text, disassemble format output inserted = .ok text ↔
      disassemble format output input = .ok text) ∧
    ∀ failure, ofBytes format input = .error failure →
      ∃ other, ofBytes format inserted = .error other ∧
        (failure = .ofCause .missingCodeSection ∧ other = failure ∨
          ∃ start, FailsAt format input start failure ∧
            other.cause =
              if start < offset then failure.cause else failure.cause.shift custom.length) := by
  have moves := moves_insert_custom boundary isCustom
  simp only [disassemble]
  generalize ofBytes format input = near at moves ⊢
  generalize ofBytes format (input.take offset ++ custom ++ input.drop offset) = far at moves ⊢
  cases moves with
  | decoded module => exact ⟨fun _ => Iff.rfl, fun _ _ => Iff.rfl, nofun⟩
  | bodiless =>
      refine ⟨fun _ => Iff.rfl, fun _ _ => Iff.rfl, ?_⟩
      rintro failure ⟨⟩
      exact ⟨_, rfl, .inl ⟨rfl, rfl⟩⟩
  | failed failsAt sameCause =>
      refine ⟨fun _ => ⟨nofun, nofun⟩, fun _ _ => ⟨nofun, nofun⟩, ?_⟩
      rintro failure ⟨⟩
      exact ⟨_, rfl, .inr ⟨_, failsAt, sameCause⟩⟩

/-- A type index that is cut off, at offset 17 and behind a custom section, with a
padded size, at 21. -/
theorem ofBytes_insert_custom_of_cut_index :
    let input := Header.magicBytes ++ Header.versionBytes ++
      [1, 4, 1, 0x60, 0, 0, 3, 2, 1, 0x80]
    let custom : List UInt8 := [0, 0x81, 0x00, 0xAB]
    let inserted := input.take 14 ++ custom ++ input.drop 14
    let contexts := [.decodeSection .functions, .decodeEntry 0]
    Frame.Boundary .leb128 input 14 ∧ RawSection.IsCustom .leb128 custom ∧
      ofBytes .leb128 input = .error ⟨contexts, .malformedVarint 17⟩ ∧
      ofBytes .leb128 inserted = .error ⟨contexts, .malformedVarint 21⟩ ∧
      ∃ other, ofBytes .leb128 inserted = .error other ∧ ∃ start,
        FailsAt .leb128 input start ⟨contexts, .malformedVarint 17⟩ ∧
        other.cause = if start < 14 then .malformedVarint 17 else .malformedVarint 21 := by
  intro input custom inserted contexts
  have started := Frame.Reaches.of_header .leb128 [1, 4, 1, 0x60, 0, 0, 3, 2, 1, 0x80]
  have boundary : Frame.Boundary .leb128 input 14 :=
    ⟨_, ⟨14, [3, 2, 1, 0x80]⟩, started.next rfl, rfl⟩
  have isCustom : RawSection.IsCustom .leb128 custom :=
    ⟨[0x81, 0x00], [0xAB], rfl, (Layout.written_leb128 _ _).mpr
      ⟨by decide, by simp [Numeral.IsGroup], by decide, by decide⟩⟩
  have failed : ofBytes .leb128 input = .error ⟨contexts, .malformedVarint 17⟩ := by
    decide +kernel
  refine ⟨boundary, isCustom, failed, by decide +kernel, ?_⟩
  obtain ⟨other, otherFailed, ⟨missing, -⟩ | ⟨start, failsAt, sameCause⟩⟩ :=
    (ofBytes_insert_custom boundary isCustom).2.2 _ failed
  · cases congrArg Failure.cause missing
  · exact ⟨other, otherFailed, start, failsAt, sameCause⟩

end Insertion

end Module

end WebAssembly
