import WebAssembly.Proofs.Sequence

/-!
# Decoding an entry of a section reads its layout

Entries refer to other sections by index. An entry is valid in a module if the
indices in it are in range there, and the decoders accept the layouts of the
valid entries.
-/

namespace WebAssembly

open Decode
open Layout (spans_append spans_measured spans_sized)

/-- A module with as many types, and as many params in each, as the format can
count. -/
structure Module.Countable (module : Module) : Prop where
  types : (Module.entries module.types).length < 2 ^ 32
  params : ∀ type ∈ Module.entries module.types, type.params.length < 2 ^ 32

namespace Module

variable {module : Module}

/-- A section that has an entry is present. -/
theorem isSome_of_mem_entries {list : Option (List α)} {item : α} (present : item ∈ entries list) :
    list.isSome = true := by
  cases list with
  | none => simp at present
  | some items => rfl

/-- Among few types, their number in 32 bits is exact. -/
theorem Countable.toNat_numTypes (countable : module.Countable) :
    module.numTypes.toNat = (entries module.types).length :=
  UInt32.toNat_ofNat_of_lt' countable.types

/-- An index of a type belongs to one. -/
theorem isSome_types_of_lt {index : UInt32} (below : index < module.numTypes) :
    module.types.isSome = true := by
  cases present : module.types with
  | some types => rfl
  | none =>
      have noTypes : module.numTypes = 0 := by simp [numTypes, present]
      simp [noTypes] at below

end Module

/-! ## Imports and exports -/

/-- What an import refers to exists. -/
def ImportDesc.Valid (module : Module) : ImportDesc → Prop
  | .func typeIndex => typeIndex < module.numTypes
  | .table _ => True
  | .memory _ => True
  | .global type => type.contentType.isNumber = true

/-- The four descriptions of an import are read from their layouts. -/
theorem ImportDesc.reads_decode {module : Module} (countable : module.Countable) :
    (decode module).Reads layout (Valid module) := by
  intro desc reader after
  have inRange (types : List FuncType) (index : UInt32) (present : module.types = some types) :
      index < module.numTypes ↔ index.toNat < types.length := by
    rw [UInt32.lt_iff_toNat_lt, countable.toNat_numTypes, present, Module.entries_some]
  simp only [decode, bind_eq_ok_iff _ _ _ reader, byte_eq_ok_iff]
  constructor
  · rintro ⟨kind, middle, kindSpans, rest⟩
    split at rest
    · simp only [bind_eq_ok_iff, requireSome_eq_ok_iff, u32_eq_ok_iff, require_eq_ok_iff,
        pure_eq_ok_iff, decide_eq_true_eq] at rest
      obtain ⟨types, _, ⟨present, rfl⟩, index, _, indexSpans, _, _, ⟨below, rfl⟩, rfl, rfl⟩ := rest
      exact ⟨(inRange types index present).mpr below,
        (spans_append _ _ _ _).mpr ⟨middle, kindSpans, indexSpans⟩⟩
    · simp only [bind_eq_ok_iff, TableType.reads_decode _ _ _, pure_eq_ok_iff] at rest
      obtain ⟨type, _, ⟨-, typeSpans⟩, rfl, rfl⟩ := rest
      exact ⟨trivial, (spans_append _ _ _ _).mpr ⟨middle, kindSpans, typeSpans⟩⟩
    · simp only [bind_eq_ok_iff, MemoryType.reads_decode _ _ _, pure_eq_ok_iff] at rest
      obtain ⟨type, _, ⟨-, typeSpans⟩, rfl, rfl⟩ := rest
      exact ⟨trivial, (spans_append _ _ _ _).mpr ⟨middle, kindSpans, typeSpans⟩⟩
    · simp only [bind_eq_ok_iff, GlobalType.reads_decode _ _ _, pure_eq_ok_iff] at rest
      obtain ⟨type, _, ⟨number, typeSpans⟩, rfl, rfl⟩ := rest
      exact ⟨number, (spans_append _ _ _ _).mpr ⟨middle, kindSpans, typeSpans⟩⟩
    · simp only [fail_ne_ok] at rest
  · rintro ⟨valid, spans⟩
    cases desc with
    | func index =>
        obtain ⟨middle, kindSpans, indexSpans⟩ := (spans_append _ _ _ _).mp spans
        obtain ⟨types, present⟩ := Option.isSome_iff_exists.mp (Module.isSome_types_of_lt valid)
        refine ⟨0x00, middle, kindSpans, ?_⟩
        simp only [bind_eq_ok_iff, requireSome_eq_ok_iff, u32_eq_ok_iff, require_eq_ok_iff,
          pure_eq_ok_iff, decide_eq_true_eq]
        exact ⟨types, _, ⟨present, rfl⟩, index, _, indexSpans, (), _,
          ⟨(inRange types index present).mp valid, rfl⟩, rfl, rfl⟩
    | table type =>
        obtain ⟨middle, kindSpans, typeSpans⟩ := (spans_append _ _ _ _).mp spans
        refine ⟨0x01, middle, kindSpans, ?_⟩
        simp only [bind_eq_ok_iff, TableType.reads_decode _ _ _, pure_eq_ok_iff]
        exact ⟨type, after, ⟨trivial, typeSpans⟩, rfl, rfl⟩
    | memory type =>
        obtain ⟨middle, kindSpans, typeSpans⟩ := (spans_append _ _ _ _).mp spans
        refine ⟨0x02, middle, kindSpans, ?_⟩
        simp only [bind_eq_ok_iff, MemoryType.reads_decode _ _ _, pure_eq_ok_iff]
        exact ⟨type, after, ⟨trivial, typeSpans⟩, rfl, rfl⟩
    | global type =>
        obtain ⟨middle, kindSpans, typeSpans⟩ := (spans_append _ _ _ _).mp spans
        refine ⟨0x03, middle, kindSpans, ?_⟩
        simp only [bind_eq_ok_iff, GlobalType.reads_decode _ _ _, pure_eq_ok_iff]
        exact ⟨type, after, ⟨valid, typeSpans⟩, rfl, rfl⟩

theorem Import.reads_decode {module : Module} (countable : module.Countable) :
    (decode module).Reads layout fun item => item.desc.Valid module := by
  intro item reader after
  simp only [decode, sized_eq_ok_iff, bind_eq_ok_iff, name_eq_ok_iff,
    ImportDesc.reads_decode countable _ _ _, pure_eq_ok_iff, layout, spans_measured, spans_append]
  constructor
  · rintro ⟨_, ⟨_, moduleNamed, moduleSpans, _, fieldNamed, fieldSpans, _, _, ⟨valid, descSpans⟩,
      rfl, rfl⟩, rfl⟩
    exact ⟨valid, ⟨moduleNamed, moduleSpans, fieldNamed, fieldSpans, descSpans⟩, rfl⟩
  · rintro ⟨valid, ⟨moduleNamed, moduleSpans, fieldNamed, fieldSpans, descSpans⟩, size⟩
    refine ⟨_, ⟨_, moduleNamed, moduleSpans, _, fieldNamed, fieldSpans, _, _, ⟨valid, descSpans⟩,
      rfl, rfl⟩, ?_⟩
    rw [size]

/-- What is exported exists. -/
def ExportDesc.Valid (module : Module) : ExportDesc → Prop
  | .func index => index < module.numFunctions
  | .table index => index < module.numTables
  | .memory index => index < module.numMemories
  | .global index => index < module.numGlobals

/-- The export of a function needs a type section. -/
def ExportDesc.Typed (module : Module) : ExportDesc → Prop
  | .func _ => module.types.isSome = true
  | _ => True

/-- The four descriptions of an export are read from their layouts. -/
theorem ExportDesc.reads_decode (module : Module) :
    (decode module).Reads layout fun desc => desc.Typed module ∧ desc.Valid module := by
  intro desc reader after
  simp only [decode, bind_eq_ok_iff _ _ _ reader, byte_eq_ok_iff]
  constructor
  · rintro ⟨kind, middle, kindSpans, rest⟩
    obtain ⟨index, behind, indexSpans, rest⟩ := (bind_eq_ok_iff _ _ _ _ _).mp rest
    rw [u32_eq_ok_iff] at indexSpans
    split at rest
    · obtain ⟨_, _, checked, rest⟩ := (bind_eq_ok_iff _ _ _ _ _).mp rest
      obtain ⟨typed, rfl⟩ := (require_eq_ok_iff _ _ _ _ _).mp checked
      obtain ⟨below, rfl, rfl⟩ := (require_bind_pure_eq_ok_iff _ _ _ _ _ _).mp rest
      exact ⟨⟨typed, below⟩,
        (spans_append _ _ _ _).mpr ⟨middle, kindSpans, indexSpans⟩⟩
    · obtain ⟨below, rfl, rfl⟩ := (require_bind_pure_eq_ok_iff _ _ _ _ _ _).mp rest
      exact ⟨⟨trivial, below⟩,
        (spans_append _ _ _ _).mpr ⟨middle, kindSpans, indexSpans⟩⟩
    · obtain ⟨below, rfl, rfl⟩ := (require_bind_pure_eq_ok_iff _ _ _ _ _ _).mp rest
      exact ⟨⟨trivial, below⟩,
        (spans_append _ _ _ _).mpr ⟨middle, kindSpans, indexSpans⟩⟩
    · obtain ⟨below, rfl, rfl⟩ := (require_bind_pure_eq_ok_iff _ _ _ _ _ _).mp rest
      exact ⟨⟨trivial, below⟩,
        (spans_append _ _ _ _).mpr ⟨middle, kindSpans, indexSpans⟩⟩
    · simp only [fail_ne_ok] at rest
  · rintro ⟨⟨typed, below⟩, spans⟩
    have decoded
        {kind : UInt8}
        {index : UInt32}
        {next : UInt32 → Decode Reader ExportDesc}
        (spans : (Layout.bytes [kind] ++ Layout.word index).Spans reader after)
        (returns : next index after = .ok desc after) :
        ∃ middle, (Layout.bytes [kind]).Spans reader middle ∧
          (u32 >>= next) middle = .ok desc after := by
      obtain ⟨middle, kindSpans, indexSpans⟩ := (spans_append _ _ _ _).mp spans
      exact ⟨middle, kindSpans, (bind_eq_ok_iff _ _ _ _ _).mpr
        ⟨index, after, (u32_eq_ok_iff _ _ _).mpr indexSpans, returns⟩⟩
    cases desc with
    | func index =>
        refine ⟨0x00, decoded spans ?_⟩
        apply (bind_eq_ok_iff _ _ _ _ _).mpr
        exact ⟨(), after, (require_eq_ok_iff _ _ _ _ _).mpr ⟨typed, rfl⟩,
          (require_bind_pure_eq_ok_iff _ _ _ _ _ _).mpr ⟨below, rfl, rfl⟩⟩
    | table index =>
        refine ⟨0x01, decoded spans ?_⟩
        exact (require_bind_pure_eq_ok_iff _ _ _ _ _ _).mpr ⟨below, rfl, rfl⟩
    | memory index =>
        refine ⟨0x02, decoded spans ?_⟩
        exact (require_bind_pure_eq_ok_iff _ _ _ _ _ _).mpr ⟨below, rfl, rfl⟩
    | global index =>
        refine ⟨0x03, decoded spans ?_⟩
        exact (require_bind_pure_eq_ok_iff _ _ _ _ _ _).mpr ⟨below, rfl, rfl⟩

theorem Export.reads_decode (module : Module) :
    (decode module).Reads layout
      fun item => item.desc.Typed module ∧ item.desc.Valid module := by
  intro item reader after
  simp only [decode, sized_eq_ok_iff, bind_eq_ok_iff, name_eq_ok_iff,
    ExportDesc.reads_decode module _ _ _, pure_eq_ok_iff, layout, spans_measured, spans_append]
  constructor
  · rintro ⟨_, ⟨_, named, nameSpans, _, _, ⟨valid, descSpans⟩, rfl, rfl⟩, rfl⟩
    exact ⟨valid, ⟨named, nameSpans, descSpans⟩, rfl⟩
  · rintro ⟨valid, ⟨named, nameSpans, descSpans⟩, size⟩
    refine ⟨_, ⟨_, named, nameSpans, _, _, ⟨valid, descSpans⟩, rfl, rfl⟩, ?_⟩
    rw [size]

/-! ## Globals and segments -/

/-- A number that is initialized by a valid expression. -/
def Global.Valid (module : Module) (global : Global) : Prop :=
  global.type.contentType.isNumber = true ∧ global.init.Valid module.importedGlobals.toNat

theorem Global.reads_decode (module : Module) : (decode module).Reads layout (Valid module) := by
  intro global reader after
  simp only [decode, sized_eq_ok_iff, bind_eq_ok_iff, GlobalType.reads_decode _ _ _,
    ConstExpr.reads_decode _ _ _ _, pure_eq_ok_iff, layout, Valid, spans_measured, spans_append]
  constructor
  · rintro ⟨_, ⟨_, typed, ⟨number, typeSpans⟩, _, _, ⟨initValid, initSpans⟩, rfl, rfl⟩, rfl⟩
    exact ⟨⟨number, initValid⟩, ⟨typed, typeSpans, initSpans⟩, rfl⟩
  · rintro ⟨⟨number, initValid⟩, ⟨typed, typeSpans, initSpans⟩, size⟩
    refine ⟨_, ⟨_, typed, ⟨number, typeSpans⟩, _, _, ⟨initValid, initSpans⟩, rfl, rfl⟩, ?_⟩
    rw [size]

/-- Functions that exist, placed in the first table by a valid expression. -/
structure ElementSegment.Valid (module : Module) (segment : ElementSegment) : Prop where
  table : segment.tableIndex = 0
  offset : segment.offset.Valid module.importedGlobals.toNat
  functions : ∀ index ∈ segment.init, index < module.numFunctions

theorem ElementSegment.reads_decode (module : Module) :
    (decode module).Reads layout (Valid module) := by
  intro segment reader after
  simp only [decode, sized_eq_ok_iff, bind_eq_ok_iff, u32_eq_ok_iff, require_eq_ok_iff,
    beq_iff_eq, ConstExpr.reads_decode _ _ _ _, reads_counted (reads_indexBelow _ _) _ _ _,
    pure_eq_ok_iff, layout, spans_measured, spans_append]
  constructor
  · rintro ⟨_, ⟨_, indexed, indexSpans, _, _, ⟨table, rfl⟩, _, placed, ⟨offset, offsetSpans⟩,
      _, _, ⟨functions, initSpans⟩, rfl, rfl⟩, rfl⟩
    exact ⟨⟨table, offset, functions⟩,
      ⟨indexed, indexSpans, placed, offsetSpans, initSpans⟩, rfl⟩
  · rintro ⟨⟨table, offset, functions⟩,
      ⟨indexed, indexSpans, placed, offsetSpans, initSpans⟩, size⟩
    refine ⟨_, ⟨_, indexed, indexSpans, (), _, ⟨table, rfl⟩, _, placed, ⟨offset, offsetSpans⟩,
      _, _, ⟨functions, initSpans⟩, rfl, rfl⟩, ?_⟩
    rw [size]

/-- Bytes that are placed in the first memory by a valid expression. -/
structure DataSegment.Valid (module : Module) (segment : DataSegment) : Prop where
  memory : segment.memoryIndex = 0
  offset : segment.offset.Valid module.importedGlobals.toNat

theorem DataSegment.reads_decode (module : Module) :
    (decode module).Reads layout (Valid module) := by
  intro segment reader after
  simp only [decode, sized_eq_ok_iff, bind_eq_ok_iff, u32_eq_ok_iff, require_eq_ok_iff,
    beq_iff_eq, ConstExpr.reads_decode _ _ _ _, bytes_eq_ok_iff, pure_eq_ok_iff, layout,
    spans_measured, spans_append]
  constructor
  · rintro ⟨_, ⟨_, indexed, indexSpans, _, _, ⟨memory, rfl⟩, _, placed, ⟨offset, offsetSpans⟩,
      _, counted, countSpans, _, _, ⟨same, initSpans⟩, rfl, rfl⟩, rfl⟩
    rw [← same] at countSpans
    exact ⟨⟨memory, offset⟩,
      ⟨indexed, indexSpans, placed, offsetSpans, counted, countSpans, initSpans⟩, rfl⟩
  · rintro ⟨⟨memory, offset⟩, ⟨indexed, indexSpans, placed, offsetSpans, counted,
      ⟨list, written, passes⟩, initSpans⟩, size⟩
    have fits := UInt32.toNat_ofNat_of_lt' written.natural_lt
    refine ⟨_, ⟨_, indexed, indexSpans, (), _, ⟨memory, rfl⟩, _, placed, ⟨offset, offsetSpans⟩,
      UInt32.ofNat segment.init.length, counted, ⟨list, ?_, passes⟩, segment.init, after,
      ⟨fits.symm, initSpans⟩, rfl, rfl⟩, ?_⟩
    · rwa [fits]
    · rw [size]

/-! ## Functions -/

/-- How many locals some groups have together. -/
def LocalGroup.total (groups : List LocalGroup) : Nat :=
  (groups.map fun group => group.count.toNat).sum

@[simp] theorem LocalGroup.total_nil : total [] = 0 := rfl

@[simp] theorem LocalGroup.total_cons (group : LocalGroup) (rest : List LocalGroup) :
    total (group :: rest) = group.count.toNat + total rest := by
  simp [total]

/-- The body of a function with some params is valid within the bounds of a
module: its locals are numbers and not too many, and its code is bracketed and
refers to what there is. -/
structure Body.Valid (bounds : IndexBounds) (type : FuncType) (body : Body) : Prop where
  locals : ∀ group ∈ body.locals, group.type.isNumber = true
  few : body.locals = [] ∨ type.params.length + LocalGroup.total body.locals ≤ Body.maxLocals
  code : ∀ instruction ∈ body.code, instruction.Admissible
    { bounds with locals := type.params.length + LocalGroup.total body.locals }
  bracketed : Bracketed (Instruction.opcodes body.code)

/-- Locals are read in groups for as long as there are not too many. -/
theorem Body.decodeLocals_eq_ok_iff
    (count total : Nat)
    (collected : List LocalGroup)
    (result : List LocalGroup × Nat)
    (reader after : Reader) :
    decodeLocals count total collected reader = .ok result after ↔
      ∃ groups, result = (collected.reverse ++ groups, total + LocalGroup.total groups) ∧
        groups.length = count ∧ (∀ group ∈ groups, group.type.isNumber = true) ∧
        (groups = [] ∨ total + LocalGroup.total groups ≤ maxLocals) ∧
        (Layout.all (groups.map LocalGroup.layout)).Spans reader after := by
  induction count generalizing total collected reader with
  | zero =>
      simp only [decodeLocals, pure_eq_ok_iff, List.length_eq_zero_iff]
      constructor
      · rintro ⟨rfl, rfl⟩
        exact ⟨[], by simp, rfl, by simp, .inl rfl, by simp⟩
      · rintro ⟨_, rfl, rfl, -, -, spans⟩
        simpa using spans
  | succ count inductionHypothesis =>
      simp only [decodeLocals, bind_eq_ok_iff, LocalGroup.reads_decode _ _ _, require_eq_ok_iff,
        decide_eq_true_eq, inductionHypothesis]
      constructor
      · rintro ⟨group, middle, ⟨number, groupSpans⟩, _, _, ⟨fits, rfl⟩, groups, rfl, rfl, numbers,
          few, spans⟩
        refine ⟨group :: groups, by simp [Nat.add_assoc], rfl,
          List.forall_mem_cons.mpr ⟨number, numbers⟩, .inr ?_,
          (spans_append _ _ _ _).mpr ⟨middle, groupSpans, spans⟩⟩
        obtain rfl | few := few
        · simpa using fits
        · rw [LocalGroup.total_cons]
          omega
      · rintro ⟨_ | ⟨group, groups⟩, rfl, size, numbers, few, spans⟩
        · simp at size
        · obtain ⟨middle, groupSpans, restSpans⟩ := (spans_append _ _ _ _).mp spans
          obtain ⟨number, numbers⟩ := List.forall_mem_cons.mp numbers
          have fits := few.resolve_left (List.cons_ne_nil _ _)
          rw [LocalGroup.total_cons] at fits
          refine ⟨group, middle, ⟨number, groupSpans⟩, (), _, ⟨by omega, rfl⟩, groups,
            by simp [Nat.add_assoc], Nat.succ_injective size, numbers, .inr (by omega), restSpans⟩

/-- A local index is bounded by the number of locals, as long as this fits into 32 bits.
-/
theorem IndexSpace.bounds_withLocals
    (space : IndexSpace)
    (total : Nat)
    (countable : total < 2 ^ 32) :
    { space with locals := total.toUInt32 }.bounds = { space.bounds with locals := total } := by
  have same : total.toUInt32.toNat = total := UInt32.toNat_ofNat_of_lt' countable
  simp [bounds, same]

/-- The content of a body is valid and takes up the window. -/
theorem Body.decodeContent_eq_ok_iff
    (space : IndexSpace)
    {type : FuncType}
    (countable : type.params.length < 2 ^ 32)
    (body : Body)
    (reader after : Reader) :
    decodeContent space type reader = .ok (body.locals, body.code) after ↔
      body.Valid space.bounds type ∧ body.contentLayout.Spans reader after ∧ after.unread = [] := by
  have total_lt (groups : List LocalGroup)
      (few : groups = [] ∨ type.params.length + LocalGroup.total groups ≤ maxLocals) :
      type.params.length + LocalGroup.total groups < 2 ^ 32 := by
    obtain rfl | few := few
    · simpa using countable
    · simp only [maxLocals] at few
      omega
  simp only [decodeContent, bind_eq_ok_iff, u32_eq_ok_iff, decodeLocals_eq_ok_iff,
    Instruction.reads_decodeSequence _ _ _ _, finish_eq_ok_iff, pure_eq_ok_iff, contentLayout,
    Layout.counted, spans_append, List.length_map, List.reverse_nil, List.nil_append]
  constructor
  · rintro ⟨count, counted, countSpans, _, grouped, ⟨groups, rfl, size, numbers, few, groupSpans⟩,
      code, _, ⟨⟨admissible, bracketed⟩, codeSpans⟩, _, _, ⟨finished, rfl⟩, same, rfl⟩
    obtain ⟨rfl, rfl⟩ := Prod.mk.inj same
    rw [space.bounds_withLocals _ (total_lt _ few)] at admissible
    rw [← size] at countSpans
    exact ⟨⟨numbers, few, admissible, bracketed⟩,
      ⟨grouped, ⟨counted, countSpans, groupSpans⟩, codeSpans⟩, finished⟩
  · rintro ⟨⟨numbers, few, admissible, bracketed⟩,
      ⟨grouped, ⟨counted, ⟨list, written, passes⟩, groupSpans⟩, codeSpans⟩, finished⟩
    have fits := UInt32.toNat_ofNat_of_lt' written.natural_lt
    rw [← space.bounds_withLocals _ (total_lt _ few)] at admissible
    refine ⟨UInt32.ofNat body.locals.length, counted, ⟨list, ?_, passes⟩, _, grouped,
      ⟨body.locals, rfl, fits.symm, numbers, few, groupSpans⟩, body.code, after,
      ⟨⟨admissible, bracketed⟩, codeSpans⟩, (), after, ⟨finished, rfl⟩, rfl, rfl⟩
    rwa [fits]

/-- A body is read from its layout, with its parameters among its locals. -/
theorem Body.reads_decode
    (space : IndexSpace)
    {type : FuncType}
    (countable : type.params.length < 2 ^ 32) :
    (decode space type).Reads layout (Valid space.bounds type) := by
  intro body reader after
  simp only [decode, sized_eq_ok_iff, bind_eq_ok_iff, u32_eq_ok_iff, split_eq_ok_iff,
    within_eq_ok_iff, pure_eq_ok_iff, layout, spans_measured, spans_sized,
    Layout.written_measured]
  constructor
  · rintro ⟨_, ⟨declaredSize, sized, sizeSpans, ⟨position, list⟩, _, ⟨rfl, same, passes⟩,
      ⟨locals, code⟩, _, ⟨⟨rest, decoded⟩, rfl⟩, rfl, rfl⟩, rfl⟩
    simp only at same passes
    have content := (decodeContent_eq_ok_iff space countable
      ⟨declaredSize, locals, code, 0⟩ _ _).mp decoded
    obtain ⟨⟨numbers, few, admissible, bracketed⟩, spans, finished⟩ := content
    rw [← same] at sizeSpans
    exact ⟨⟨numbers, few, admissible, bracketed⟩, ⟨list, sized, sizeSpans,
      ⟨same, (Layout.spans_window_iff _ _ _).mp ⟨rest, spans, finished⟩⟩, passes⟩, rfl⟩
  · rintro ⟨valid, ⟨list, sized, sizeSpans, ⟨same, written⟩, passes⟩, size⟩
    obtain ⟨rest, spans, finished⟩ := (Layout.spans_window_iff _ sized.position _).mpr written
    have decoded := (decodeContent_eq_ok_iff space countable body _ _).mpr ⟨valid, spans, finished⟩
    rw [same] at sizeSpans
    refine ⟨_, ⟨body.declaredSize, sized, sizeSpans, ⟨sized.position, list⟩, after,
      ⟨rfl, same, passes⟩, _, _, ⟨⟨rest, decoded⟩, rfl⟩, rfl, rfl⟩, ?_⟩
    rw [size]

/-- A function has the type that its type index names, and a valid body. -/
structure Func.Valid
    (bounds : IndexBounds)
    (types : List FuncType)
    (index typeIndex : UInt32)
    (function : Func) :
    Prop where
  sameIndex : function.index = index
  sameTypeIndex : function.typeIndex = typeIndex
  sameType : types[typeIndex.toNat]? = some function.type
  body : function.body.Valid bounds function.type

/-- A function is read from the layout of its body, if its type is there. -/
theorem Func.reads_decode
    (space : IndexSpace)
    {types : List FuncType}
    (countable : ∀ type ∈ types, type.params.length < 2 ^ 32)
    (index typeIndex : UInt32) :
    (decode space types index typeIndex).Reads layout
      (Valid space.bounds types index typeIndex) := by
  intro function reader after
  simp only [decode, bind_eq_ok_iff, requireSome_eq_ok_iff, inContext_eq_ok_iff, pure_eq_ok_iff,
    layout]
  constructor
  · rintro ⟨type, _, ⟨known, rfl⟩, body, _, decoded, rfl, rfl⟩
    have typeCountable := countable type (List.mem_of_getElem? known)
    obtain ⟨valid, spans⟩ := (Body.reads_decode space typeCountable _ _ _).mp decoded
    exact ⟨⟨rfl, rfl, known, valid⟩, spans⟩
  · rintro ⟨⟨rfl, rfl, known, valid⟩, spans⟩
    have typeCountable := countable _ (List.mem_of_getElem? known)
    have decoded := (Body.reads_decode space typeCountable _ _ _).mpr ⟨valid, spans⟩
    exact ⟨_, _, ⟨known, rfl⟩, _, _, decoded, rfl, rfl⟩

end WebAssembly
