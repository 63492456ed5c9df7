import WebAssembly.Proofs.Faults
import WebAssembly.Proofs.Linear
import WebAssembly.Proofs.Reach

/-!
# Where decoding fails

The contexts of a failure tell how far decoding got. In the context of an offset,
framing got to it and no further. In the context of a section, the binary is framed
and all sections before it are decoded. In the context of an entry or a body, it is
the first of the section that is not decoded.

The offset of the cause lies in the window that the contexts lead to, and what the
cause states about it is true of the input.
-/

namespace WebAssembly

open Decode

/-! ## Framing -/

/-- A field of a header fails at its own bytes. -/
theorem HeaderFormat.orderly_field {zone : Zone} (format : HeaderFormat) :
    format.field.Orderly zone := by
  cases format with
  | compact => exact .bind .byte fun _ => .pure _
  | leb128 => exact .u32

namespace RawSection

/-- Read the size of a section behind its number. -/
def decodeSize (format : HeaderFormat) : Decode Reader UInt32 := do
  let number ← byte
  let _ ← requireSome (SectionId.ofNumber? number) (.unknownSection number)
  format.field

/-- Split off what the size of a section covers, its count included. -/
def splitContent (format : HeaderFormat) : Decode Reader Reader := do
  split (← decodeSize format).toNat

/-- The window of the content of the section at a reader, if it can be split off. -/
def content? (format : HeaderFormat) (reader : Reader) : Option Reader :=
  (splitContent format).value? reader

/-- A size fails at its own bytes, or for a byte that stands for no section. -/
theorem orderly_decodeSize (format : HeaderFormat) : (decodeSize format).Orderly .input :=
  .bind .byte fun _ => .bind (.requireSome _ _ rfl) fun _ => format.orderly_field

/-- A content that reaches beyond the input is refused at its beginning. -/
theorem orderly_splitContent (format : HeaderFormat) : (splitContent format).Orderly .input :=
  .bind (orderly_decodeSize format) fun _ => .split _

section Failing

variable {format : HeaderFormat} {reader after : Reader} {failure : Failure}

/-- The content of a section lies in what is left to read. -/
theorem holds_of_content?
    {content : Reader}
    (splits : content? format reader = some content) :
    reader.Holds content := by
  obtain ⟨after, decoded⟩ := exists_of_value? splits
  obtain ⟨size, sized, sizeRead, decoded⟩ := (bind_eq_ok_iff _ _ _ _ _).mp decoded
  exact .of_split ((orderly_decodeSize format reader).leads_of_ok sizeRead) decoded

/-- A section fails before its content is split off, or in the field of its count. -/
theorem splitContent_or_field_of_decode_error
    (failed : decode format reader = .error failure after) :
    splitContent format reader = .error failure after ∨
      ∃ content final, content? format reader = some content ∧
        format.field content = .error failure final := by
  simp only [decode, bind_eq_error_iff] at failed
  obtain failed | ⟨number, identified, numberRead, failed | ⟨id, known, idKnown, failed |
    ⟨size, sized, sizeRead, failed⟩⟩⟩ := failed
  · exact .inl (bind_of_error (bind_of_error failed))
  · exact .inl (bind_of_error ((bind_of_ok numberRead).trans (bind_of_error failed)))
  · exact .inl (bind_of_error ((bind_of_ok numberRead).trans ((bind_of_ok idKnown).trans failed)))
  have sizeDecoded : decodeSize format reader = .ok size sized :=
    (bind_of_ok numberRead).trans ((bind_of_ok idKnown).trans sizeRead)
  obtain failed | ⟨content, behind, splits, failed⟩ := failed
  · exact .inl ((bind_of_ok sizeDecoded).trans failed)
  · have contentSplit : splitContent format reader = .ok content behind :=
      (bind_of_ok sizeDecoded).trans splits
    split at failed
    · exact absurd failed (pure_ne_error _ _ _ _)
    · rw [bind_pure_eq_error_iff, withinRest_eq_error_iff] at failed
      obtain ⟨⟨final, failed⟩, -⟩ := failed
      exact .inr ⟨content, final, value?_of_ok contentSplit, failed⟩

/-- What cannot be split off fails in no context, in what is left of the input or in
the content of the section. -/
theorem exists_of_decode_error (failed : decode format reader = .error failure after) :
    ∃ cause, failure = .ofCause cause ∧
      ((content? format reader = none ∧ cause.HoldsIn .input reader) ∨
        ∃ content, content? format reader = some content ∧ reader.Holds content ∧
          cause.HoldsIn .content content) := by
  obtain failed | ⟨content, final, splits, failed⟩ := splitContent_or_field_of_decode_error failed
  · obtain ⟨-, plain, holds⟩ := (orderly_splitContent format reader).of_failure failed
    exact ⟨_, Failure.eq_ofCause plain, .inl ⟨value?_of_error failed, holds⟩⟩
  · obtain ⟨-, plain, holds⟩ := (format.orderly_field content).of_failure failed
    exact ⟨_, Failure.eq_ofCause plain, .inr ⟨content, splits, holds_of_content? splits, holds⟩⟩

end Failing

end RawSection

namespace Frame

variable {format : HeaderFormat} {input : List UInt8}

/-- Framing goes onward from the beginning of the input. -/
theorem Reaches.leads
    {earlier : List RawSection}
    {reader : Reader}
    (reached : Reaches format input earlier reader) :
    (Reader.ofBytes input).Leads reader := by
  obtain ⟨raws, front, sameInput, position, -⟩ := (reaches_iff reader).mp reached
  refine ⟨Header.magicBytes ++ Header.versionBytes ++ front, ?_, ?_⟩
  · rw [Reader.unread_ofBytes, sameInput, List.append_assoc _ front]
  · rw [position, List.length_append, Reader.position_ofBytes, Nat.zero_add]
    rfl

/-- Framing splits off all sections up to a reader and none there. -/
structure StopsAt
    (format : HeaderFormat)
    (input : List UInt8)
    (reader : Reader)
    (inner : Failure) : Prop where
  reached : ∃ earlier, Reaches format input earlier reader
  unread : reader.isEnd = false
  failed : ∃ after, RawSection.decode format reader = .error inner after

/-- A failure of framing is in no context and names no offset, or framing stops
where its context says. -/
theorem stopsAt_of_ofBytes
    {failure : Failure}
    (failed : ofBytes format input = .error failure) :
    (failure.contexts = [] ∧ failure.cause.offset? = none) ∨
      ∃ reader inner, StopsAt format input reader inner ∧
        failure = inner.inContext (.frame reader.position) := by
  obtain ⟨-, rfl⟩ | ⟨raws, front, rest, sameInput, tiles, ordered, offends⟩ :=
    offends_of_ofBytes failed
  · exact .inl ⟨rfl, rfl⟩
  cases offends with
  | @unsplit inner after unread noTile sectionFailed =>
      refine .inr ⟨⟨8 + front.length, rest⟩, inner, ⟨⟨_, (reaches_iff _).mpr
        ⟨raws, front, sameInput, rfl, tiles, ordered, rfl⟩⟩, ?_, after, sectionFailed⟩, rfl⟩
      simpa [Reader.isEnd] using unread
  | repeated => exact .inl ⟨rfl, rfl⟩
  | misplaced => exact .inl ⟨rfl, rfl⟩

/-- The sections of a frame with smaller numbers than a section. -/
def below (frame : Frame) (raw : RawSection) : List RawSection :=
  frame.sections.filter fun other => other.id.number < raw.id.number

/-- The sections below one of them are those in front of it. -/
theorem below_of_split
    {frame : Frame}
    (framed : ofBytes format input = .ok frame)
    {earlier later : List RawSection}
    {raw : RawSection}
    (split : frame.sections = earlier ++ raw :: later) :
    frame.below raw = earlier := by
  have ordered := sections_ordered framed
  rw [split] at ordered
  obtain ⟨-, laterOrdered, across⟩ := List.pairwise_append.mp ordered
  have behind := (List.pairwise_cons.mp laterOrdered).1
  rw [below, split, List.filter_append, List.filter_cons_of_neg (by simp)]
  have all : earlier.filter (fun other => other.id.number < raw.id.number) = earlier :=
    List.filter_eq_self.mpr fun other among =>
      decide_eq_true (across other among raw List.mem_cons_self)
  have none : later.filter (fun other => other.id.number < raw.id.number) = [] :=
    List.filter_eq_nil_iff.mpr fun other among => by
      simpa using UInt8.le_of_lt (behind other among)
  rw [all, none, List.append_nil]

end Frame

namespace Module

/-! ## Decoding sections -/

/-- A binary has a frame, the sections below one of its sections make up a module,
and that section is not decoded against it. -/
structure StopsAt
    (format : HeaderFormat)
    (input : List UInt8)
    (frame : Frame)
    (raw : RawSection)
    (module : Module)
    (inner : Failure) : Prop where
  framed : Frame.ofBytes format input = .ok frame
  among : raw ∈ frame.sections
  decoded : (frame.below raw).foldlM extend (bare frame.header.magic frame.header.version) =
    .ok module
  failed : raw.contentFor module = .error inner

section Failing

variable {format : HeaderFormat} {input : List UInt8} {frame : Frame} {raw : RawSection}
  {module : Module} {inner failure : Failure}

/-- A binary that is not decoded stops framing or decoding, or its failure is in no
context and names no offset. -/
theorem stopsAt_of_ofBytes (failed : ofBytes format input = .error failure) :
    (failure.contexts = [] ∧ failure.cause.offset? = none) ∨
      (∃ reader inner, Frame.StopsAt format input reader inner ∧
        failure = inner.inContext (.frame reader.position)) ∨
      ∃ frame raw module inner, StopsAt format input frame raw module inner ∧
        failure = inner.inContext (.decodeSection raw.id) := by
  obtain framed | ⟨frame, framed, failed⟩ := (Except.bind_eq_error_iff _ _ _).mp failed
  · obtain plain | stops := Frame.stopsAt_of_ofBytes framed
    · exact .inl plain
    · exact .inr (.inl stops)
  cases folded : frame.sections.foldlM extend (bare frame.header.magic frame.header.version) with
  | ok module =>
      rw [ofFrame_of_foldlM folded] at failed
      split at failed
      · cases failed
        exact .inl ⟨rfl, rfl⟩
      · cases failed
  | error other =>
      rw [ofFrame_of_foldlM_error folded] at failed
      cases failed
      obtain ⟨earlier, raw, later, module, split, decoded, extendFailed⟩ :=
        exists_of_foldlM_error folded
      obtain ⟨inner, contentFailed, rfl⟩ := (extend_eq_error_iff _ _ _).mp extendFailed
      refine .inr (.inr ⟨frame, raw, module, inner, ⟨framed, ?_, ?_, contentFailed⟩, rfl⟩)
      · rw [split]
        exact List.mem_append_right _ List.mem_cons_self
      · rw [Frame.below_of_split framed split]
        exact decoded

/-- The counts of the module at which decoding stops are exact. -/
theorem StopsAt.countable (stops : StopsAt format input frame raw module inner) :
    module.Countable :=
  (countable_bare _ _).foldlM_extend stops.decoded

/-- The module at which decoding stops is short. -/
theorem StopsAt.short (stops : StopsAt format input frame raw module inner) : module.Short := by
  obtain ⟨earlier, later, split⟩ := List.append_of_mem stops.among
  have decoded := stops.decoded
  rw [Frame.below_of_split stops.framed split] at decoded
  exact short_of_foldlM stops.framed split decoded

/-- A section that is not decoded fails in a window of its payload where the cause is
true. -/
theorem StopsAt.exists_faults (stops : StopsAt format input frame raw module inner) :
    ∃ zone window, Section.Faults module raw.id raw.payload inner zone window ∧
      raw.payload.Holds window ∧ inner.cause.HoldsIn zone window := by
  obtain ⟨after, failed⟩ := (outcome_eq_error_iff _ _ _).mp stops.failed
  exact Section.exists_faults_of_decode stops.countable failed

/-- In a short module, the number of imported functions is exact in 32 bits. -/
theorem Short.toNat_importedFunctions (short : module.Short) :
    module.importedFunctions.toNat = module.imported ImportDesc.isFunc := by
  have few : module.imported ImportDesc.isFunc < 2 ^ 30 :=
    Nat.lt_of_le_of_lt List.countP_le_length short.imports_lt
  exact UInt32.toNat_ofNat_of_lt' (Nat.lt_trans few (by decide))

/-- The number of a body that is not decoded is small, as each body before it takes up
two bytes or more. -/
theorem StopsAt.toNat_functionIndex
    (stops : StopsAt format input frame raw module inner)
    {number : Nat}
    {start : Reader}
    (first : Section.FailsFirst module raw.payload number start failure .code) :
    (module.importedFunctions + number.toUInt32).toNat =
      module.imported ImportDesc.isFunc + number := by
  have imported := stops.short.toNat_importedFunctions
  have few : module.imported ImportDesc.isFunc < 2 ^ 30 :=
    Nat.lt_of_le_of_lt List.countP_le_length stops.short.imports_lt
  have passed := (first.1.mul_le fun round reader function after decoded =>
    (Section.leads_of_decodeFunc stops.countable round reader function after decoded).2).2
  have fits := Frame.payload_remaining_lt stops.framed stops.among
  rw [← imported]
  exact toNat_add_toUInt32 (by omega)

end Failing

/-! ## Locations -/

/-- The window that a failure arises in. For framing it is the whole input, or the
content of a section if only its count is missing. -/
inductive Arises (format : HeaderFormat) (input : List UInt8) :
    Failure → Zone → Reader → Prop
  | unplaced {failure : Failure}
      (plain : failure.contexts = [])
      (unplaced : failure.cause.offset? = none) :
      Arises format input failure .input (.ofBytes input)
  | framing {reader : Reader} {cause : Cause}
      (stops : Frame.StopsAt format input reader (.ofCause cause))
      (unsplit : RawSection.content? format reader = none) :
      Arises format input ((Failure.ofCause cause).inContext (.frame reader.position)) .input
        (.ofBytes input)
  | counting {reader content : Reader} {cause : Cause}
      (stops : Frame.StopsAt format input reader (.ofCause cause))
      (splits : RawSection.content? format reader = some content) :
      Arises format input ((Failure.ofCause cause).inContext (.frame reader.position)) .content
        content
  | decoding {frame : Frame} {raw : RawSection} {module : Module} {inner : Failure}
      {zone : Zone} {window : Reader}
      (stops : StopsAt format input frame raw module inner)
      (faults : Section.Faults module raw.id raw.payload inner zone window) :
      Arises format input (inner.inContext (.decodeSection raw.id)) zone window

/-- What a failure in a section says is true of the section: an entry or a body that it
names is the first that is not decoded, and an offset lies in the payload. -/
structure LocatedIn (module : Module) (raw : RawSection) (failure : Failure) : Prop where
  entry : ∀ number, .decodeEntry number ∈ failure.contexts →
    raw.id ≠ .code ∧ ∃ start, Section.FailsFirst module raw.payload number start
      (.ofCause failure.cause) raw.id
  body : ∀ function, .decodeBody function ∈ failure.contexts →
    raw.id = .code ∧ ∃ number start,
      function.toNat = module.imported ImportDesc.isFunc + number ∧
      Section.FailsFirst module raw.payload number start
        (Section.bodyFailure module number failure.cause) raw.id
  covers : ∀ offset, failure.cause.offset? = some offset → raw.payload.Covers offset

/-- What a failure says is true of the input: how far framing or decoding got, and
what its cause states in the window that it arises in. -/
structure Located (format : HeaderFormat) (input : List UInt8) (failure : Failure) : Prop where
  framing : ∀ start, .frame start ∈ failure.contexts →
    ∃ reader inner, Frame.StopsAt format input reader inner ∧ reader.position = start ∧
      failure = inner.inContext (.frame start) ∧
      ∀ offset, failure.cause.offset? = some offset → start ≤ offset ∧ offset ≤ input.length
  decoding : ∀ id, .decodeSection id ∈ failure.contexts →
    ∃ frame raw module inner, StopsAt format input frame raw module inner ∧ raw.id = id ∧
      failure = inner.inContext (.decodeSection id) ∧ LocatedIn module raw failure
  cause : ∃ zone window, Arises format input failure zone window ∧ window.Within input ∧
    (∀ offset, failure.cause.offset? = some offset → window.Covers offset) ∧
    failure.cause.States zone window.limit fun offset => input[offset]?

section Locating

variable {format : HeaderFormat} {input : List UInt8} {failure inner : Failure}

theorem within_ofBytes (input : List UInt8) : (Reader.ofBytes input).Within input :=
  ⟨[], [], by simp, rfl⟩

/-- A cause that is true in a window of the input is true of the input. -/
theorem cause_of_holdsIn
    {zone : Zone}
    {window : Reader}
    (arises : Arises format input failure zone window)
    (inside : window.Within input)
    (holds : failure.cause.HoldsIn zone window) :
    ∃ zone window, Arises format input failure zone window ∧ window.Within input ∧
      (∀ offset, failure.cause.offset? = some offset → window.Covers offset) ∧
      failure.cause.States zone window.limit fun offset => input[offset]? :=
  ⟨zone, window, arises, inside, holds.covers,
    holds.statement.mono fun _ _ => inside.at?_eq_some⟩

/-- A failure without a context and an offset is located nowhere. -/
theorem located_of_unplaced
    (plain : failure.contexts = [])
    (unplaced : failure.cause.offset? = none) :
    Located format input failure where
  framing start among := by simp [plain] at among
  decoding id among := by simp [plain] at among
  cause := cause_of_holdsIn (.unplaced plain unplaced) (within_ofBytes input)
    (.of_unplaced unplaced)

/-- A failure of framing is located at its section. -/
theorem located_of_framing
    {reader : Reader}
    (stops : Frame.StopsAt format input reader inner) :
    Located format input (inner.inContext (.frame reader.position)) := by
  obtain ⟨earlier, reached⟩ := stops.reached
  obtain ⟨after, failed⟩ := stops.failed
  have leads := reached.leads
  obtain ⟨cause, rfl, fault⟩ := RawSection.exists_of_decode_error failed
  have covers : ∀ offset, cause.offset? = some offset → reader.Covers offset := by
    obtain ⟨-, holds⟩ | ⟨content, -, inside, holds⟩ := fault
    · exact holds.covers
    · exact fun offset placed => inside.covers (holds.covers offset placed)
  refine ⟨fun start among => ?_, fun id among => ?_, ?_⟩
  · obtain rfl : start = reader.position := by simpa using among
    refine ⟨reader, _, stops, rfl, rfl, fun offset placed => ?_⟩
    have limit : reader.limit = input.length := leads.limit_eq.trans (Nat.zero_add _)
    exact ⟨(covers offset placed).1, limit ▸ (covers offset placed).2⟩
  · simp at among
  · obtain ⟨unsplit, holds⟩ | ⟨content, splits, inside, holds⟩ := fault
    · exact cause_of_holdsIn (.framing stops unsplit) (within_ofBytes input) (holds.of_leads leads)
    · exact cause_of_holdsIn (.counting stops splits)
        (inside.within ((Reader.Holds.of_leads leads).within (within_ofBytes input))) holds

/-- A failure among the entries of a section is located in its payload. -/
theorem located_of_decoding
    {frame : Frame}
    {raw : RawSection}
    {module : Module}
    (stops : StopsAt format input frame raw module inner) :
    Located format input (inner.inContext (.decodeSection raw.id)) := by
  obtain ⟨zone, window, faults, inside, holds⟩ := stops.exists_faults
  refine ⟨fun start among => ?_, fun id among => ?_, ?_⟩
  · cases faults <;> simp at among
  · obtain rfl : id = raw.id := by
      cases faults <;> simpa using among
    refine ⟨frame, raw, module, inner, stops, rfl, rfl, fun number among => ?_,
      fun function among => ?_, fun offset placed => inside.covers (holds.covers offset placed)⟩
    · cases faults with
      | apart => simp at among
      | entry notCode first =>
          obtain rfl : number = _ := by simpa using among
          exact ⟨notCode, _, first⟩
      | size => simp at among
      | body => simp at among
    · cases faults with
      | apart => simp at among
      | entry => simp at among
      | size isCode first =>
          obtain rfl : function = _ := by simpa using among
          exact ⟨isCode, _, _, stops.toNat_functionIndex (isCode ▸ first), first⟩
      | body isCode first =>
          obtain rfl : function = _ := by simpa using among
          exact ⟨isCode, _, _, stops.toNat_functionIndex (isCode ▸ first), first⟩
  · exact cause_of_holdsIn (.decoding stops faults)
      (inside.within (Frame.payload_within stops.framed stops.among)) holds

/-- The failure of a binary is located. -/
theorem located_of_ofBytes (failed : ofBytes format input = .error failure) :
    Located format input failure := by
  obtain ⟨plain, unplaced⟩ | ⟨reader, inner, stops, rfl⟩ |
    ⟨frame, raw, module, inner, stops, rfl⟩ := stopsAt_of_ofBytes failed
  · exact located_of_unplaced plain unplaced
  · exact located_of_framing stops
  · exact located_of_decoding stops

/-- The second body of a binary holds an opcode that is not known. -/
theorem located_of_unknown_opcode :
    let input := Header.magicBytes ++ Header.versionBytes ++
      [1, 4, 1, 0x60, 0, 0, 3, 3, 2, 0, 0, 10, 8, 2, 2, 0, 0x0B, 3, 0, 0xFF, 0x0B]
    let failure : Failure :=
      ⟨[.decodeSection .code, .decodeBody 1], .unknownOpcode 0xFF 27⟩
    ofBytes .leb128 input = .error failure ∧ Located .leb128 input failure := by
  intro input failure
  have failed : ofBytes .leb128 input = .error failure := by decide +kernel
  exact ⟨failed, located_of_ofBytes failed⟩

end Locating

end Module

end WebAssembly
