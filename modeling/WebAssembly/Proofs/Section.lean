import WebAssembly.Proofs.Entry

/-!
# Decoding a section reads its layout

A section is valid in a module if its entries are. The decoder of a section
accepts the payloads of the valid sections with the count that the header
announces.
-/

namespace WebAssembly

open Decode
open Layout (spans_append)

/-- The functions of a code section, one for each entry of the function section,
with consecutive indices behind the imported functions. -/
def Func.AllValid
    (module : Module)
    (types : List FuncType)
    (typeIndices : List UInt32)
    (functions : List Func) :
    Prop :=
  List.Forall₂
    (fun (entry : UInt32 × Nat) function =>
      function.Valid module.indexSpace.bounds types
        (module.importedFunctions + entry.2.toUInt32) entry.1)
    typeIndices.zipIdx functions

namespace Section

/-- The entries of a section are valid in a module. -/
def Valid (module : Module) : Section → Prop
  | .types entries => ∀ type ∈ entries, type.Valid
  | .imports entries => ∀ item ∈ entries, item.desc.Valid module
  | .functions typeIndices => ∀ index ∈ typeIndices, index < module.numTypes
  | .tables _ => True
  | .memories _ => True
  | .globals entries => ∀ global ∈ entries, global.Valid module
  | .exports entries => ∀ item ∈ entries, item.desc.Typed module ∧ item.desc.Valid module
  | .start index => index < module.numFunctions
  | .elements entries => ∀ segment ∈ entries, segment.Valid module
  | .code entries =>
      ∃ types typeIndices, module.types = some types ∧ module.functions = some typeIndices ∧
        Func.AllValid module types typeIndices entries
  | .data entries => ∀ segment ∈ entries, segment.Valid module

/-- A type index is read if there is such a type. -/
theorem reads_decodeTypeIndex (module : Module) :
    (decodeTypeIndex module).Reads Layout.word fun index => index < module.numTypes := by
  intro index reader after
  simp only [decodeTypeIndex, bind_eq_ok_iff, require_eq_ok_iff, reads_indexBelow _ _ _ _ _]
  constructor
  · rintro ⟨_, _, ⟨-, rfl⟩, below, spans⟩
    exact ⟨below, spans⟩
  · rintro ⟨below, spans⟩
    exact ⟨(), reader, ⟨Module.isSome_types_of_lt below, rfl⟩, below, spans⟩

/-- A section of entries is read as many times an entry as the header says. -/
theorem decodeEntries_eq_ok_iff
    {module : Module}
    {entry : Decode Reader α}
    {layout : α → Layout}
    {valid : α → Prop}
    (reads : entry.Reads layout valid)
    {make : List α → Section}
    {id : SectionId}
    (shape : ∀ content : Section, content.id = id ↔ ∃ entries, make entries = content)
    (counts : ∀ entries, (make entries).count = entries.length)
    (validity : ∀ entries, (make entries).Valid module ↔ ∀ item ∈ entries, valid item)
    (payloads : ∀ entries, (make entries).payload = Layout.all (entries.map layout))
    (count : UInt32)
    (content : Section)
    (reader after : Reader) :
    (do return make (← decodeEntries count entry) : Decode Reader Section) reader =
        .ok content after ↔
      content.id = id ∧ content.count = count.toNat ∧ content.Valid module ∧
        content.payload.Spans reader after := by
  have readsEntry (number : Nat) : (inContext (.decodeEntry number) entry).Reads layout valid := by
    intro value reader after
    rw [inContext_eq_ok_iff, reads]
  simp only [decodeEntries, bind_eq_ok_iff, times_eq_ok_iff readsEntry, pure_eq_ok_iff]
  constructor
  · rintro ⟨entries, _, ⟨size, allValid, spans⟩, rfl, rfl⟩
    refine ⟨(shape _).mpr ⟨entries, rfl⟩, ?_, (validity _).mpr allValid, ?_⟩
    · rw [counts, size]
    · rwa [payloads]
  · rintro ⟨sameId, size, contentValid, spans⟩
    obtain ⟨entries, rfl⟩ := (shape _).mp sameId
    rw [counts] at size
    rw [payloads] at spans
    exact ⟨entries, after, ⟨size, (validity _).mp contentValid, spans⟩, rfl, rfl⟩

/-- Functions are decoded from their bodies if as many are declared and their types are
there. -/
theorem decodeCode_eq_ok_iff
    {module : Module}
    (countable : module.Countable)
    (count : UInt32)
    (functions : List Func)
    (reader after : Reader) :
    decodeCode module count reader = .ok functions after ↔
      functions.length = count.toNat ∧ (Section.code functions).Valid module ∧
        (Layout.all (functions.map Func.layout)).Spans reader after := by
  have readsFunc
      {types : List FuncType}
      (present : module.types = some types)
      (entry : UInt32 × Nat) :
      (Func.decode module.indexSpace types
        (module.importedFunctions + entry.2.toUInt32) entry.1).Reads Func.layout
          (Func.Valid module.indexSpace.bounds types
            (module.importedFunctions + entry.2.toUInt32) entry.1) := by
    apply Func.reads_decode
    intro type among
    exact countable.params type (by rwa [present])
  simp only [decodeCode, bind_eq_ok_iff _ _ _ reader, requireSome_eq_ok_iff, Valid]
  constructor
  · rintro ⟨types, _, ⟨hasTypes, rfl⟩, rest⟩
    simp only [bind_eq_ok_iff, requireSome_eq_ok_iff, require_eq_ok_iff, beq_iff_eq,
      mapM_eq_ok_iff (readsFunc hasTypes)] at rest
    obtain ⟨typeIndices, _, ⟨hasFunctions, rfl⟩, _, _, ⟨size, rfl⟩, allValid, spans⟩ := rest
    refine ⟨?_, ⟨types, typeIndices, hasTypes, hasFunctions, allValid⟩, spans⟩
    rw [← allValid.length_eq, List.length_zipIdx, size]
  · rintro ⟨size, ⟨types, typeIndices, hasTypes, hasFunctions, allValid⟩, spans⟩
    refine ⟨types, reader, ⟨hasTypes, rfl⟩, ?_⟩
    simp only [bind_eq_ok_iff, requireSome_eq_ok_iff, require_eq_ok_iff, beq_iff_eq,
      mapM_eq_ok_iff (readsFunc hasTypes)]
    refine ⟨typeIndices, reader, ⟨hasFunctions, rfl⟩, (), reader, ⟨?_, rfl⟩, allValid, spans⟩
    rw [← size, ← allValid.length_eq, List.length_zipIdx]

/-- The entries of a section are decoded from its payload exactly if they are valid. -/
theorem decodeContent_eq_ok_iff
    {module : Module}
    (countable : module.Countable)
    (id : SectionId)
    (count : UInt32)
    (content : Section)
    (reader after : Reader) :
    decodeContent module count id reader = .ok content after ↔
      content.id = id ∧ content.count = count.toNat ∧ content.Valid module ∧
        content.payload.Spans reader after := by
  cases id with
  | custom =>
      simp only [decodeContent, fail_ne_ok, false_iff, not_and]
      intro isCustom
      cases content <;> cases isCustom
  | types =>
      exact decodeEntries_eq_ok_iff FuncType.reads_decode
        (fun content => by cases content <;> simp [Section.id])
        (fun _ => rfl) (fun _ => Iff.rfl) (fun _ => rfl) ..
  | imports =>
      exact decodeEntries_eq_ok_iff (Import.reads_decode countable)
        (fun content => by cases content <;> simp [Section.id])
        (fun _ => rfl) (fun _ => Iff.rfl) (fun _ => rfl) ..
  | functions =>
      exact decodeEntries_eq_ok_iff (reads_decodeTypeIndex module)
        (fun content => by cases content <;> simp [Section.id])
        (fun _ => rfl) (fun _ => Iff.rfl) (fun _ => rfl) ..
  | tables =>
      exact decodeEntries_eq_ok_iff TableType.reads_decode
        (fun content => by cases content <;> simp [Section.id])
        (fun _ => rfl) (fun _ => by simp [Valid]) (fun _ => rfl) ..
  | memories =>
      exact decodeEntries_eq_ok_iff MemoryType.reads_decode
        (fun content => by cases content <;> simp [Section.id])
        (fun _ => rfl) (fun _ => by simp [Valid]) (fun _ => rfl) ..
  | globals =>
      exact decodeEntries_eq_ok_iff (Global.reads_decode module)
        (fun content => by cases content <;> simp [Section.id])
        (fun _ => rfl) (fun _ => Iff.rfl) (fun _ => rfl) ..
  | exports =>
      exact decodeEntries_eq_ok_iff (Export.reads_decode module)
        (fun content => by cases content <;> simp [Section.id])
        (fun _ => rfl) (fun _ => Iff.rfl) (fun _ => rfl) ..
  | start =>
      simp only [decodeContent, bind_eq_ok_iff, require_eq_ok_iff, decide_eq_true_eq,
        pure_eq_ok_iff]
      constructor
      · rintro ⟨_, _, ⟨below, rfl⟩, rfl, rfl⟩
        exact ⟨rfl, rfl, below, by simp [payload]⟩
      · rintro ⟨isStart, same, valid, spans⟩
        cases content <;> cases isStart
        obtain rfl := UInt32.toNat_inj.mp same
        rw [payload, Layout.spans_bytes, Reader.passes_nil] at spans
        exact ⟨(), reader, ⟨valid, rfl⟩, rfl, spans⟩
  | elements =>
      exact decodeEntries_eq_ok_iff (ElementSegment.reads_decode module)
        (fun content => by cases content <;> simp [Section.id])
        (fun _ => rfl) (fun _ => Iff.rfl) (fun _ => rfl) ..
  | code =>
      simp only [decodeContent, bind_eq_ok_iff, decodeCode_eq_ok_iff countable, pure_eq_ok_iff]
      constructor
      · rintro ⟨functions, _, ⟨size, valid, spans⟩, rfl, rfl⟩
        exact ⟨rfl, size, valid, spans⟩
      · rintro ⟨isCode, size, valid, spans⟩
        cases content <;> cases isCode
        exact ⟨_, after, ⟨size, valid, spans⟩, rfl, rfl⟩
  | data =>
      exact decodeEntries_eq_ok_iff (DataSegment.reads_decode module)
        (fun content => by cases content <;> simp [Section.id])
        (fun _ => rfl) (fun _ => Iff.rfl) (fun _ => rfl) ..

end Section

/-- The content of a section is valid and takes up the payload. -/
theorem RawSection.contentFor_eq_ok_iff
    {module : Module}
    (countable : module.Countable)
    (raw : RawSection)
    (content : Section) :
    raw.contentFor module = .ok content ↔
      content.id = raw.id ∧ content.count = raw.count.toNat ∧ content.Valid module ∧
        content.payload.Written raw.payload.unread := by
  simp only [contentFor, outcome_eq_ok_iff, Section.decode, bind_eq_ok_iff, finish_eq_ok_iff,
    pure_eq_ok_iff, Section.decodeContent_eq_ok_iff countable]
  rw [← Layout.spans_window_iff _ raw.payload.position]
  constructor
  · rintro ⟨_, _, after, ⟨sameId, sameCount, valid, spans⟩, _, _, ⟨finished, rfl⟩, rfl, rfl⟩
    exact ⟨sameId, sameCount, valid, after, spans, finished⟩
  · rintro ⟨sameId, sameCount, valid, after, spans, finished⟩
    exact ⟨after, content, after, ⟨sameId, sameCount, valid, spans⟩, (), after, ⟨finished, rfl⟩,
      rfl, rfl⟩

end WebAssembly
