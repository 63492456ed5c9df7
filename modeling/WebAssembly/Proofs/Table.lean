import WebAssembly.Decode.Module
import WebAssembly.Proofs.Accord
import WebAssembly.Proofs.Frame
import Mathlib.Data.List.ReduceOption
import Mathlib.Data.List.Sort

/-!
# Framing into a table

A frame lists its sections in input order. Framing may instead fill a table that has
one slot for each kind of section, and keep the number of the last section that was
put into its slot: a section whose slot is taken is a duplicate, and one whose number
is below the last one is out of order. What stands in the slots, read in the order of
the numbers, is the list of the frame, and both ways fail alike. So whoever goes
through the slots decodes the sections in input order.
-/

namespace WebAssembly

open Decode

namespace RawSection

instance : Std.Irrefl Precedes := ⟨fun _ => Nat.lt_irrefl _⟩

instance : Std.Antisymm Precedes :=
  ⟨fun _ _ precedes follows => absurd precedes (Nat.lt_asymm follows)⟩

end RawSection

/-- Slots for the sections of a binary, and the number of the section that was put
into its slot last, which is zero at the beginning. -/
structure SectionTable where
  slots : Vector (Option RawSection) 12
  lastNumber : UInt8

namespace SectionTable

/-- The table without any sections. -/
def empty : SectionTable := { slots := .replicate 12 none, lastNumber := 0 }

/-- The slot of a kind of section is its number. -/
def slot (id : SectionId) : Fin 12 :=
  ⟨id.number.toNat, by cases id <;> decide⟩

/-- Put a section into its slot. -/
def insert (table : SectionTable) (raw : RawSection) : SectionTable where
  slots := table.slots.set (slot raw.id) (some raw)
  lastNumber := raw.id.number

/-- Check that the slot of a section is empty and that its number is not below the
last one. -/
def requirePlace (table : SectionTable) (raw : RawSection) : Decode Reader Unit := do
  require table.slots[slot raw.id].isNone (.duplicateSection raw.id.number)
  require (table.lastNumber ≤ raw.id.number) (.sectionOutOfOrder raw.id.number)

/-- Read one more section into the table. -/
def step
    (format : HeaderFormat)
    (table : SectionTable) :
    Decode Reader (SectionTable ⊕ SectionTable) := do
  let offset ← position
  let raw ← inContext (.frame offset) (RawSection.decode format)
  if raw.id = .custom then
    return .inl table
  else
    table.requirePlace raw
    return .inl (table.insert raw)

/-- Read the header and put all sections into a table. -/
def decode (format : HeaderFormat) : Decode Reader (Header × SectionTable) := do
  let header ← Header.decode
  let table ← stepUntilEnd pure (step format) empty
  return (header, table)

/-- The header and the table of a binary. -/
def ofBytes (format : HeaderFormat) (input : List UInt8) :
    Except Failure (Header × SectionTable) :=
  outcome (decode format) (Reader.ofBytes input)

/-- What stands in the slots, in the order of the numbers. -/
def sections (table : SectionTable) : List RawSection := table.slots.toList.reduceOption

/-- Each kind of section has a slot of its own. -/
theorem slot_injective : Function.Injective slot := by
  intro id other same
  have sameNumber : (slot id).val = (slot other).val := congrArg Fin.val same
  exact SectionId.number_injective (UInt8.toNat_inj.mp sameNumber)

/-! ## Tables and lists -/

/-- A table stands for a list of sections, given last first, if each slot holds the
last section of its kind. -/
structure Represents (table : SectionTable) (earlier : List RawSection) : Prop where
  getElem_slots (index : Fin 12) :
    table.slots[index] = earlier.find? fun raw => slot raw.id = index
  lastNumber_eq : table.lastNumber = (earlier.head?.map fun raw => raw.id.number).getD 0

namespace Represents

theorem empty : Represents .empty [] where
  getElem_slots index := by simp [SectionTable.empty]
  lastNumber_eq := rfl

variable {table : SectionTable} {earlier : List RawSection}

/-- A section that is put into its slot is the last one of its kind. -/
theorem insert (represents : Represents table earlier) (raw : RawSection) :
    Represents (table.insert raw) (raw :: earlier) where
  getElem_slots index := by
    rw [List.find?_cons]
    by_cases same : slot raw.id = index
    · simp [SectionTable.insert, same]
    · have apart : (slot raw.id).val ≠ index.val := fun equal => same (Fin.ext equal)
      simpa [SectionTable.insert, same, apart] using represents.getElem_slots index
  lastNumber_eq := rfl

/-- The slot of a section is empty if no section is of its kind. -/
theorem isNone_slot (represents : Represents table earlier) (raw : RawSection) :
    table.slots[slot raw.id].isNone = earlier.all fun other => other.id != raw.id := by
  rw [represents.getElem_slots, Bool.eq_iff_iff]
  simp [slot_injective.eq_iff]

/-- Nothing is out of order behind no section, as no number is below zero. -/
theorem lastNumber_le (represents : Represents table earlier) (raw : RawSection) :
    decide (table.lastNumber ≤ raw.id.number) =
      earlier.head?.all fun last => last.id.number ≤ raw.id.number := by
  rw [represents.lastNumber_eq]
  cases earlier with
  | nil => simp
  | cons last earlier => exact decide_eq_decide.mpr Iff.rfl

/-- Both ways make the same demands of a section. -/
theorem requirePlace_eq (represents : Represents table earlier) (raw : RawSection) :
    table.requirePlace raw = Frame.requirePlace earlier raw := by
  rw [SectionTable.requirePlace, Frame.requirePlace, represents.isNone_slot,
    represents.lastNumber_le]

/-- A round keeps table and list together, or fails for both. -/
theorem step (represents : Represents table earlier) (format : HeaderFormat) :
    Parallel (.refl Reader) (Sum.LiftRel Represents Represents)
      (SectionTable.step format table) (Frame.step format earlier) := by
  -- Both read the same section; what they demand of it and what they keep is compared.
  refine .bind_same (.refl position) fun offset => ?_
  refine .bind_same (.refl (inContext (.frame offset) (RawSection.decode format))) fun raw => ?_
  split
  · exact .pure (.inl represents)
  · rw [represents.requirePlace_eq raw]
    exact .bind_same (.refl (Frame.requirePlace earlier raw)) fun _ =>
      .pure (.inl (represents.insert raw))

end Represents

/-! ## What stands in the slots -/

/-- The sections in a table are those in any of its slots. -/
theorem mem_sections_iff_exists (table : SectionTable) (raw : RawSection) :
    raw ∈ table.sections ↔ ∃ index : Fin 12, table.slots[index] = some raw := by
  simp [sections, List.reduceOption_mem_iff, Vector.mem_iff_getElem, Fin.exists_iff]

/-- If numbers increase, a section is the last one of its kind. -/
theorem find?_slot_of_mem
    {earlier : List RawSection}
    (descending : earlier.Pairwise fun later raw => raw.Precedes later)
    {raw : RawSection}
    (among : raw ∈ earlier) :
    (earlier.find? fun other => slot other.id = slot raw.id) = some raw := by
  induction earlier with
  | nil => cases among
  | cons last earlier inductionHypothesis =>
      obtain ⟨precede, descending⟩ := List.pairwise_cons.mp descending
      obtain rfl | among := List.mem_cons.mp among
      · simp
      · have apart : slot last.id ≠ slot raw.id := by
          intro same
          have smaller : raw.id.number.toNat < last.id.number.toNat := precede raw among
          rw [slot_injective same] at smaller
          exact Nat.lt_irrefl _ smaller
        rw [List.find?_cons_of_neg (by simpa using apart)]
        exact inductionHypothesis descending among

namespace Represents

variable {table : SectionTable} {earlier : List RawSection}

/-- A section stands in the slot of its kind. -/
theorem slot_of_getElem
    (represents : Represents table earlier)
    {index : Fin 12}
    {raw : RawSection}
    (present : table.slots[index] = some raw) :
    slot raw.id = index := by
  rw [represents.getElem_slots] at present
  simpa using List.find?_some present

/-- If no kind occurs twice, what stands in the slots is what has been put there. -/
theorem mem_sections_iff
    (represents : Represents table earlier)
    (descending : earlier.Pairwise fun later raw => raw.Precedes later)
    (raw : RawSection) :
    raw ∈ table.sections ↔ raw ∈ earlier := by
  simp only [mem_sections_iff_exists, represents.getElem_slots]
  constructor
  · rintro ⟨index, found⟩
    exact List.mem_of_find?_eq_some found
  · intro among
    exact ⟨slot raw.id, find?_slot_of_mem descending among⟩

/-- What stands in the slots is in the order of the numbers. -/
theorem sections_ordered (represents : Represents table earlier) :
    table.sections.Pairwise RawSection.Precedes := by
  rw [sections, List.reduceOption, List.pairwise_filterMap, List.pairwise_iff_getElem]
  intro first second firstBound secondBound before raw present other otherPresent
  rw [Vector.length_toList] at firstBound secondBound
  simp only [Vector.getElem_toList, id_eq] at present otherPresent
  have firstSlot : slot raw.id = ⟨first, firstBound⟩ := represents.slot_of_getElem present
  have secondSlot : slot other.id = ⟨second, secondBound⟩ :=
    represents.slot_of_getElem otherPresent
  have firstNumber : raw.id.number.toNat = first := congrArg Fin.val firstSlot
  have secondNumber : other.id.number.toNat = second := congrArg Fin.val secondSlot
  rw [RawSection.Precedes, firstNumber, secondNumber]
  exact before

/-- A table holds the sections it stands for, if their numbers increase. -/
theorem sections_eq
    (represents : Represents table earlier)
    (descending : earlier.Pairwise fun later raw => raw.Precedes later) :
    table.sections = earlier.reverse := by
  refine List.Pairwise.eq_of_mem_iff represents.sections_ordered
    (List.pairwise_reverse.mpr descending) fun raw => ?_
  rw [List.mem_reverse]
  exact represents.mem_sections_iff descending raw

end Represents

/-! ## The table of a binary -/

/-- The frame that a header and a table make. -/
def frame (framed : Header × SectionTable) : Frame where
  header := framed.1
  sections := framed.2.sections

/-- Framing into a table reads, demands and reports what framing into a list does. -/
theorem parallel_loop (format : HeaderFormat) :
    Parallel (.refl Reader) Represents
      (stepUntilEnd pure (step format) SectionTable.empty)
      (stepUntilEnd pure (Frame.step format) []) :=
  .stepUntilEnd Represents (fun _ _ represents => .pure represents)
    (fun _ _ represents => represents.step format) .empty

/-- What stands in the table of a binary, in the order of the numbers, is the list of
its frame, and a binary has no table for the reason for which it has no frame. -/
theorem map_frame_ofBytes (format : HeaderFormat) (input : List UInt8) :
    (ofBytes format input).map frame = Frame.ofBytes format input := by
  unfold ofBytes Frame.ofBytes outcome attempt decode Frame.decode
  cases header : Header.decode (Reader.ofBytes input) with
  | error failure after =>
      rw [bind_of_error header, bind_of_error header]
      rfl
  | ok value behind =>
      rw [bind_of_ok header, bind_of_ok header]
      have agreed := parallel_loop format behind behind rfl
      cases tableLoop : stepUntilEnd pure (step format) SectionTable.empty behind <;>
        cases listLoop : stepUntilEnd pure (Frame.step format) [] behind <;>
        rw [tableLoop, listLoop] at agreed <;> cases agreed
      case ok.ok.ok table _ reversed _ represents _ =>
        rw [bind_of_ok tableLoop, bind_of_ok listLoop]
        -- The demands made sure that no section was overwritten.
        obtain ⟨_, -, -, descending⟩ := Frame.exists_chain_of_loop .nil listLoop
        simp only [pure_apply, Except.map, frame, represents.sections_eq descending]
      case error.error.error =>
        rw [bind_of_error tableLoop, bind_of_error listLoop]
        simp only [Except.map, Accord.refl, Failure.shift_zero]

/-- A binary is decoded by going through the slots of its table. -/
theorem bind_ofFrame_ofBytes (format : HeaderFormat) (input : List UInt8) :
    ((ofBytes format input).bind fun framed => Module.ofFrame (frame framed)) =
      Module.ofBytes format input := by
  rw [Module.ofBytes, ← map_frame_ofBytes]
  cases ofBytes format input <;> rfl

end SectionTable

end WebAssembly
