import WebAssembly.Proofs.Chaining
import WebAssembly.Proofs.Uniform
import WebAssembly.Proofs.Window

/-!
# Windows are isolated

Every decoder of the format is uniform, and a cursor is in accord with the reader of
its window. Decoding through a window of a buffer is therefore decoding a copy of the
bytes of the window: nothing outside the window has any influence, although the buffer
holds it, and where the window lies only shows in the offset that a cause names. A
binary may thus be decoded section by section, each from a buffer that holds nothing
but the payload of the section.
-/

namespace WebAssembly

open Decode

/-! ## Outcomes on sources in accord -/

namespace Decode

/-- A uniform decoder has the same outcome on sources in accord, up to the distance. -/
theorem Uniform.outcome_eq
    {ρ ς : Type}
    [Source ρ]
    [Source ς]
    {accord : Accord ρ ς}
    {far : Decode ρ α}
    {near : Decode ς α}
    (uniform : Uniform accord far near)
    {source : ρ}
    {other : ς}
    (alike : accord.Alike source other) :
    outcome far source = (outcome near other).mapError (Failure.shift accord.distance) := by
  have agreed := uniform source other alike
  unfold outcome attempt
  generalize far source = farResult, near other = nearResult at agreed
  cases agreed with
  | ok equal _ => rw [equal]; rfl
  | error failure _ => rfl

/-- Some bytes further on, a reader is decoded to the same. -/
theorem Uniform.outcome_shift
    {distance : Nat}
    {decoder : Decode Reader α}
    (uniform : Uniform (Reader.accord distance) decoder decoder)
    (reader : Reader) :
    outcome decoder (reader.shift distance) =
      (outcome decoder reader).mapError (Failure.shift distance) :=
  uniform.outcome_eq rfl

section Readers

variable {distance : Nat} {same : α → β → Prop} {far : Decode Reader α} {near : Decode Reader β}
  {reader after : Reader}

/-- Where a decoder succeeds, one that agrees with it succeeds further on. -/
theorem Parallel.ok_shift
    {value : β}
    (parallel : Parallel (Reader.accord distance) same far near)
    (decoded : near reader = .ok value after) :
    ∃ moved, far (reader.shift distance) = .ok moved (after.shift distance) ∧
      same moved value := by
  have agreed := parallel _ reader rfl
  rw [decoded] at agreed
  generalize outcome : far (reader.shift distance) = result at agreed
  cases agreed with
  | ok equal moved => exact ⟨_, by rw [moved], equal⟩

/-- Where a decoder fails, one that agrees with it fails further on. -/
theorem Parallel.error_shift
    {failure : Failure}
    (parallel : Parallel (Reader.accord distance) same far near)
    (failed : near reader = .error failure after) :
    far (reader.shift distance) = .error (failure.shift distance) (after.shift distance) := by
  have agreed := parallel _ reader rfl
  rw [failed] at agreed
  generalize outcome : far (reader.shift distance) = result at agreed
  cases agreed with
  | error _ moved => rw [moved]; rfl

end Readers

/-- A decoder yields the same from readers with the same unread bytes. -/
theorem outcome_eq_ok_iff_of_unread_eq
    {decoder : Decode Reader α}
    (uniform : ∀ distance, Uniform (Reader.accord distance) decoder decoder)
    {reader other : Reader}
    (unread : reader.unread = other.unread)
    (value : α) :
    outcome decoder reader = .ok value ↔ outcome decoder other = .ok value := by
  have moved (reader : Reader) : reader = (Reader.ofBytes reader.unread).shift reader.position := by
    simp [Reader.shift, Reader.ofBytes]
  rw [moved reader, moved other, (uniform _).outcome_shift, (uniform _).outcome_shift, unread]
  cases outcome decoder (Reader.ofBytes other.unread) <;> simp [Except.mapError]

/-- A cursor is decoded as the reader of its window. -/
theorem Uniform.outcome_reader
    {onCursor : Decode Cursor α}
    {onReader : Decode Reader α}
    (uniform : Uniform Cursor.accord onCursor onReader)
    {cursor : Cursor}
    (inside : cursor.Inside) :
    outcome onCursor cursor = outcome onReader cursor.reader := by
  rw [uniform.outcome_eq ⟨inside, rfl⟩]
  change (outcome onReader cursor.reader).mapError (Failure.shift 0) = _
  cases outcome onReader cursor.reader <;> simp [Except.mapError]

/-- Decoding through a window of a buffer is decoding from the bytes of the window alone,
which are all that the reader of the window has. -/
theorem Uniform.outcome_new
    {onCursor : Decode Cursor α}
    {onReader : Decode Reader α}
    (uniform : Uniform Cursor.accord onCursor onReader)
    (buffer : List UInt8)
    (start stop : Nat) :
    outcome onCursor (Cursor.new buffer start stop) =
      outcome onReader (Reader.window buffer start stop) := by
  rw [uniform.outcome_reader (Cursor.inside_new _ _ _), Cursor.reader_new]

/-- Whatever may be read through a window of a buffer is read so. -/
theorem outcome_reading_new
    (reading : Reading)
    (buffer : List UInt8)
    (start stop : Nat) :
    outcome reading.decode (Cursor.new buffer start stop) =
      outcome reading.decode (Reader.window buffer start stop) :=
  Uniform.outcome_new reading.uniform_decode buffer start stop

/-- The entries of a section are decoded so. -/
theorem outcome_section_new
    (module : Module)
    (id : SectionId)
    (count : UInt32)
    (buffer : List UInt8)
    (start stop : Nat) :
    outcome (Section.decode module id count) (Cursor.new buffer start stop) =
      outcome (Section.decode module id count) (Reader.window buffer start stop) :=
  Uniform.outcome_new (Section.uniform_decode module count id) buffer start stop

/-- A uniform decoder agrees on two cursors that are about to read the same bytes. -/
theorem Uniform.agree_of_further
    {distance : Nat}
    {onCursor : Decode Cursor α}
    {onReader : Decode Reader α}
    (tracked : Uniform Cursor.accord onCursor onReader)
    (moved : Uniform (Reader.accord distance) onReader onReader)
    {far near : Cursor}
    (farInside : far.Inside)
    (nearInside : near.Inside)
    (further : far.Further distance near) :
    Agree distance (Cursor.Further distance) Eq (onCursor far) (onCursor near) :=
  Cursor.agree_of_readers (tracked far far.reader ⟨farInside, rfl⟩)
    (moved _ _ further.reader_eq)
    (tracked near near.reader ⟨nearInside, rfl⟩)
    fun _ _ _ _ first second third => first.trans (second.trans third.symm)

/-- Windows split off from such cursors are about to read the same bytes. -/
theorem agree_split_of_further
    {distance : Nat}
    {far near : Cursor}
    (farInside : far.Inside)
    (nearInside : near.Inside)
    (further : far.Further distance near)
    (length : Nat) :
    Agree distance (Cursor.Further distance) (Cursor.Further distance) (split length far)
      (split length near) :=
  Cursor.agree_of_readers (Cursor.agree_split length ⟨farInside, rfl⟩)
    ((Reader.accord distance).split length further.reader_eq)
    (Cursor.agree_split length ⟨nearInside, rfl⟩)
    fun _ _ _ _ first second third => .of_tracks first second third

end Decode

/-! ## Sections further on -/

/-- The same section with its payload some bytes further on. -/
def RawSection.shift (distance : Nat) (raw : RawSection) : RawSection :=
  { raw with payload := raw.payload.shift distance }

/-- The entries of a section that stands further on are the same, or fail further on. -/
theorem RawSection.contentFor_shift
    (module : Module)
    (raw : RawSection)
    (distance : Nat) :
    (raw.shift distance).contentFor module =
      (raw.contentFor module).mapError (Failure.shift distance) :=
  (Section.uniform_decode module raw.count raw.id).outcome_shift raw.payload

/-- A module is extended by a section that stands further on as by the section. -/
theorem Module.extend_shift (module : Module) (raw : RawSection) (distance : Nat) :
    module.extend (raw.shift distance) =
      (module.extend raw).mapError (Failure.shift distance) := by
  simp only [extend, RawSection.contentFor_shift]
  cases raw.contentFor module <;> rfl

/-! ## Payloads in buffers of their own -/

/-- A window of the input is what the input has between its position and its limit. -/
theorem Reader.Within.eq_window
    {reader : Reader}
    {input : List UInt8}
    (inside : reader.Within input) :
    reader = window input reader.position reader.limit := by
  obtain ⟨front, back, rfl, position⟩ := inside
  obtain ⟨_, unread⟩ := reader
  simp only at position
  subst position
  exact (window_of_parts front unread back).symm

/-- A window of the input ends within it. -/
theorem Reader.Within.limit_le
    {reader : Reader}
    {input : List UInt8}
    (inside : reader.Within input) :
    reader.limit ≤ input.length := by
  obtain ⟨front, back, rfl, position⟩ := inside
  simp only [limit, remaining, position, List.length_append]
  omega

/-- A window of a buffer is about to read what a cursor over a copy of it is. -/
theorem Cursor.further_copy
    {buffer : List UInt8}
    {start stop : Nat}
    (ordered : start ≤ stop)
    (within : stop ≤ buffer.length) :
    (new buffer start stop).Further start (ofBytes ((buffer.take stop).drop start)) := by
  have far := reader_new_of_le ordered within
  have near := reader_ofBytes ((buffer.take stop).drop start)
  have moved : (new buffer start stop).reader = Reader.shift start
      (ofBytes ((buffer.take stop).drop start)).reader := by
    rw [far, near, Reader.shift, Reader.ofBytes, Nat.zero_add]
  exact ⟨congrArg Reader.position moved, congrArg Reader.unread moved⟩

/-- A cursor over a buffer that holds a copy of the payload of a section and nothing
else. -/
def RawSection.copy (input : List UInt8) (raw : RawSection) : Cursor :=
  Cursor.ofBytes ((input.take raw.payload.limit).drop raw.payload.position)

/-- The copy of a payload is a cursor that has not gone past its end. -/
theorem RawSection.inside_copy (input : List UInt8) (raw : RawSection) :
    (raw.copy input).Inside :=
  Cursor.inside_new _ _ _

/-- The copy is read as the payload is. -/
theorem RawSection.unread_copy
    {input : List UInt8}
    {raw : RawSection}
    (inside : raw.payload.Within input) :
    (raw.copy input).unread = raw.payload.unread := by
  have ordered : raw.payload.position ≤ raw.payload.limit := Nat.le_add_right _ _
  have further := Cursor.further_copy ordered inside.limit_le
  rw [copy, ← further.2, ← Cursor.unread_reader, Cursor.reader_new, ← inside.eq_window]

/-- A section is decoded to the same content from a cursor that is about to read the bytes
of its payload. -/
theorem RawSection.outcome_eq_ok_iff_of_cursor
    {raw : RawSection}
    {cursor : Cursor}
    (inside : cursor.Inside)
    (unread : cursor.unread = raw.payload.unread)
    (module : Module)
    (content : Section) :
    outcome (Section.decode module raw.id raw.count) cursor = .ok content ↔
      raw.contentFor module = .ok content := by
  rw [Uniform.outcome_reader (Section.uniform_decode module raw.count raw.id) inside]
  exact outcome_eq_ok_iff_of_unread_eq
    (fun _ => Section.uniform_decode module raw.count raw.id) unread content

namespace Module

/-- To extend a module by a section is to add the content that a cursor yields which is
about to read the payload of the section. -/
theorem extend_eq_ok_iff_of_cursor
    {raw : RawSection}
    {cursor : Cursor}
    (inside : cursor.Inside)
    (unread : cursor.unread = raw.payload.unread)
    (module extended : Module) :
    (outcome (Section.decode module raw.id raw.count) cursor).map module.add = .ok extended ↔
      module.extend raw = .ok extended := by
  have same := RawSection.outcome_eq_ok_iff_of_cursor inside unread module
  unfold extend
  cases onReader : raw.contentFor module with
  | ok content => rw [(same content).mpr onReader]; rfl
  | error failure =>
      cases onCursor : outcome (Section.decode module raw.id raw.count) cursor with
      | ok content => rw [(same content).mp onCursor] at onReader; cases onReader
      | error other => simp [Except.map]

/-- Decoding a binary is decoding its sections one after another from cursors that are
about to read their payloads. -/
theorem foldlM_extend_eq_ok_iff_of_cursors
    {raws : List RawSection}
    {cursorOf : RawSection → Cursor}
    (tracked : ∀ raw ∈ raws, (cursorOf raw).Inside ∧ (cursorOf raw).unread = raw.payload.unread)
    (start module : Module) :
    raws.foldlM (fun module raw =>
        (outcome (Section.decode module raw.id raw.count) (cursorOf raw)).map module.add) start =
        .ok module ↔
      raws.foldlM extend start = .ok module := by
  induction raws generalizing start with
  | nil => rfl
  | cons raw raws inductionHypothesis =>
      obtain ⟨⟨inside, unread⟩, rest⟩ := List.forall_mem_cons.mp tracked
      simp only [List.foldlM_cons, Except.bind_eq_ok_iff,
        extend_eq_ok_iff_of_cursor inside unread, inductionHypothesis rest]

/-- Decoding through a window of a buffer is decoding a copy of the bytes of the window,
apart from where offsets are counted from, whatever the rest of the buffer holds. So a
binary is decoded to what its sections are decoded to one after another, each from a
buffer of its own that holds a copy of its payload, and each against the module made of
those before it. -/
theorem windows_isolated :
    (∀ buffer start stop, start ≤ stop → stop ≤ buffer.length →
      let inside := Cursor.new buffer start stop
      let apart := Cursor.ofBytes ((buffer.take stop).drop start)
      (∀ reading : Reading, Agree start (Cursor.Further start) Eq
        (reading.decode inside) (reading.decode apart)) ∧
      (∀ length, Agree start (Cursor.Further start) (Cursor.Further start)
        (split length inside) (split length apart)) ∧
      (∀ module id count, Agree start (Cursor.Further start) Eq
        (Section.decode module id count inside) (Section.decode module id count apart))) ∧
    ∀ format input module, ofBytes format input = .ok module ↔
      ∃ frame, Frame.ofBytes format input = .ok frame ∧
        (∀ raw ∈ frame.sections, raw.payload =
          (Cursor.new input raw.payload.position raw.payload.limit).reader) ∧
        frame.sections.foldlM
          (fun context raw =>
            (outcome (Section.decode context raw.id raw.count) (raw.copy input)).map context.add)
          { magic := "\x00asm", version := 1 } = .ok module ∧
        (entries module.functions ≠ [] → module.code.isSome = true) := by
  constructor
  · intro buffer start stop ordered within inside apart
    -- Both cursors are in accord with readers, of which one is the other further on.
    have further : inside.Further start apart := Cursor.further_copy ordered within
    have farInside : inside.Inside := Cursor.inside_new _ _ _
    have nearInside : apart.Inside := Cursor.inside_new _ _ _
    refine ⟨fun reading => ?_, fun length => ?_, fun module id count => ?_⟩
    · exact Uniform.agree_of_further reading.uniform_decode reading.uniform_decode farInside
        nearInside further
    · exact agree_split_of_further farInside nearInside further length
    · exact Uniform.agree_of_further (Section.uniform_decode module count id)
        (Section.uniform_decode module count id) farInside nearInside further
  · intro format input module
    rw [ofBytes, Except.bind_eq_ok_iff]
    refine exists_congr fun frame => and_congr_right fun framed => ?_
    have inside (raw : RawSection) (among : raw ∈ frame.sections) :=
      Frame.payload_within framed among
    rw [ofFrame_eq_ok_iff, lacksCode_eq_false_iff]
    obtain ⟨raws, rest, -, -, -, rfl⟩ := Frame.exists_tiles_of_ofBytes framed
    -- A payload is decoded where it stands; a copy of it has the same bytes unread.
    have folds := foldlM_extend_eq_ok_iff_of_cursors (fun raw among =>
      ⟨raw.inside_copy input, RawSection.unread_copy (inside raw among)⟩) (bare "\x00asm" 1) module
    refine Iff.trans (and_congr_left' folds.symm) (and_iff_right fun raw among => ?_).symm
    rw [Cursor.reader_new]
    exact (inside raw among).eq_window

/-- An opcode whose index runs on behind the window: the byte that would end it is in the
buffer, and still the number is found not to end. Its offset is 4 in the buffer and 3 in
the copy. -/
theorem windows_isolated_of_cut_index :
    let buffer : List UInt8 := [0xFF, 0x02, 0x40, 0x10, 0x80, 0x00]
    let inside := Cursor.new buffer 1 5
    let apart := Cursor.ofBytes ((buffer.take 5).drop 1)
    let reading : Reading := .instructions ⟨1, 1, 0, 0⟩
    (1 ≤ 5 ∧ 5 ≤ buffer.length) ∧
      Agree 1 (Cursor.Further 1) Eq (reading.decode inside) (reading.decode apart) ∧
      outcome reading.decode inside = .error (.ofCause (.malformedVarint 4)) ∧
      outcome reading.decode apart = .error (.ofCause (.malformedVarint 3)) := by
  intro buffer inside apart reading
  exact ⟨⟨by decide, by decide⟩,
    (windows_isolated.1 buffer 1 5 (by decide) (by decide)).1 reading, by decide +kernel,
    by decide +kernel⟩

end Module

end WebAssembly
