import WebAssembly.Proofs.Encoding

/-!
# Recorded sizes

The parts of a module record how many bytes they were decoded from. `unsized`
forgets these sizes. A layout without its claims about lengths does not depend
on them, and any bytes of such a layout fit some sizes.
-/

namespace WebAssembly

open Layout (Written)

/-! ## Forgetting sizes -/

/-- The signature with no size recorded. -/
def FuncType.unsized (type : FuncType) : FuncType := { type with size := 0 }

/-- The limits with no size recorded. -/
def Limits.unsized (limits : Limits) : Limits := { limits with size := 0 }

/-- The table type with no size recorded, in its limits neither. -/
def TableType.unsized (type : TableType) : TableType :=
  { type with limits := type.limits.unsized, size := 0 }

/-- The memory type with no size recorded, in its limits neither. -/
def MemoryType.unsized (type : MemoryType) : MemoryType :=
  { limits := type.limits.unsized, size := 0 }

/-- The global type with no size recorded. -/
def GlobalType.unsized (type : GlobalType) : GlobalType := { type with size := 0 }

/-- The expression with no size recorded. -/
def ConstExpr.unsized (expression : ConstExpr) : ConstExpr := { expression with size := 0 }

/-- What is imported, with no size recorded. -/
def ImportDesc.unsized : ImportDesc → ImportDesc
  | .func typeIndex => .func typeIndex
  | .table type => .table type.unsized
  | .memory type => .memory type.unsized
  | .global type => .global type.unsized

/-- The import with no size recorded, in any part of it. -/
def Import.unsized (item : Import) : Import :=
  { item with desc := item.desc.unsized, size := 0 }

/-- The global with no size recorded, in any part of it. -/
def Global.unsized (global : Global) : Global :=
  { type := global.type.unsized, init := global.init.unsized, size := 0 }

/-- The export with no size recorded. -/
def Export.unsized (item : Export) : Export := { item with size := 0 }

/-- The segment of elements with no size recorded, in its offset neither. -/
def ElementSegment.unsized (segment : ElementSegment) : ElementSegment :=
  { segment with offset := segment.offset.unsized, size := 0 }

/-- The segment of data with no size recorded, in its offset neither. -/
def DataSegment.unsized (segment : DataSegment) : DataSegment :=
  { segment with offset := segment.offset.unsized, size := 0 }

/-- The body with neither its size nor its declared size. -/
def Body.unsized (body : Body) : Body := { body with declaredSize := 0, size := 0 }

/-- The function with no size recorded, in its type and its body neither. -/
def Func.unsized (function : Func) : Func :=
  { function with type := function.type.unsized, body := function.body.unsized }

/-- The section with no size recorded in any entry. -/
def Section.unsized : Section → Section
  | .types entries => .types (entries.map FuncType.unsized)
  | .imports entries => .imports (entries.map Import.unsized)
  | .functions typeIndices => .functions typeIndices
  | .tables entries => .tables (entries.map TableType.unsized)
  | .memories entries => .memories (entries.map MemoryType.unsized)
  | .globals entries => .globals (entries.map Global.unsized)
  | .exports entries => .exports (entries.map Export.unsized)
  | .start index => .start index
  | .elements entries => .elements (entries.map ElementSegment.unsized)
  | .code entries => .code (entries.map Func.unsized)
  | .data entries => .data (entries.map DataSegment.unsized)

/-- The module without the sizes that its parts record. -/
def Module.unsized (module : Module) : Module :=
  { module with
    types := module.types.map fun entries => entries.map FuncType.unsized
    imports := module.imports.map fun entries => entries.map Import.unsized
    tables := module.tables.map fun entries => entries.map TableType.unsized
    memories := module.memories.map fun entries => entries.map MemoryType.unsized
    globals := module.globals.map fun entries => entries.map Global.unsized
    exports := module.exports.map fun entries => entries.map Export.unsized
    elements := module.elements.map fun entries => entries.map ElementSegment.unsized
    code := module.code.map fun entries => entries.map Func.unsized
    data := module.data.map fun entries => entries.map DataSegment.unsized }

/-! ## Adjusting sizes -/

/-- The sizes that items record can be adjusted to any bytes of their layouts, in
which nothing else depends on these sizes. -/
structure Resizable (layout : α → Layout) (unsized : α → α) : Prop where
  unmeasured : ∀ item, (layout (unsized item)).unmeasured = (layout item).unmeasured
  adjusts : ∀ item list, (layout item).unmeasured.Written list →
    ∃ resized, unsized resized = unsized item ∧ (layout resized).Written list

namespace Resizable

variable {layout : α → Layout} {unsized : α → α}

/-- What is written in a layout of items depends on their sizes only as it claims
lengths. -/
theorem unmeasured_all (resizable : Resizable layout unsized) (items : List α) :
    (Layout.all ((items.map unsized).map layout)).unmeasured =
      (Layout.all (items.map layout)).unmeasured := by
  induction items with
  | nil => rfl
  | cons item items inductionHypothesis =>
      simp only [List.map_cons, Layout.all_cons, Layout.unmeasured_append,
        resizable.unmeasured item, inductionHypothesis]

/-- If the sizes of items can be adjusted to their bytes, so can those of a list of
items. -/
theorem adjusts_all
    (resizable : Resizable layout unsized)
    (items : List α)
    (list : List UInt8)
    (written : (Layout.all (items.map layout)).unmeasured.Written list) :
    ∃ resized : List α, resized.map unsized = items.map unsized ∧
      (Layout.all (resized.map layout)).Written list := by
  induction items generalizing list with
  | nil => exact ⟨[], rfl, written⟩
  | cons item items inductionHypothesis =>
      obtain ⟨head, tail, rfl, itemWritten, itemsWritten⟩ :=
        (Layout.written_append _ _ _).mp written
      obtain ⟨first, sameFirst, firstWritten⟩ := resizable.adjusts item head itemWritten
      obtain ⟨rest, sameRest, restWritten⟩ := inductionHypothesis tail itemsWritten
      exact ⟨first :: rest, by rw [List.map_cons, List.map_cons, sameFirst, sameRest],
        (Layout.written_append _ _ _).mpr ⟨head, tail, rfl, firstWritten, restWritten⟩⟩

/-- What stands in front of items does not hinder adjusting them. -/
theorem behind
    (resizable : Resizable layout unsized)
    {front : Layout}
    (fixed : front.unmeasured = front) :
    Resizable (fun item => front ++ layout item) unsized where
  unmeasured item := by
    simp only [Layout.unmeasured_append, resizable.unmeasured]
  adjusts item list written := by
    obtain ⟨head, tail, rfl, frontWritten, itemWritten⟩ := (Layout.written_append _ _ _).mp written
    rw [fixed] at frontWritten
    obtain ⟨resized, same, resizedWritten⟩ := resizable.adjusts item tail itemWritten
    exact ⟨resized, same,
      (Layout.written_append _ _ _).mpr ⟨head, tail, rfl, frontWritten, resizedWritten⟩⟩

/-- Nor does what stands behind them. -/
theorem before
    (resizable : Resizable layout unsized)
    {back : Layout}
    (fixed : back.unmeasured = back) :
    Resizable (fun item => layout item ++ back) unsized where
  unmeasured item := by
    simp only [Layout.unmeasured_append, resizable.unmeasured]
  adjusts item list written := by
    obtain ⟨head, tail, rfl, itemWritten, backWritten⟩ := (Layout.written_append _ _ _).mp written
    rw [fixed] at backWritten
    obtain ⟨resized, same, resizedWritten⟩ := resizable.adjusts item head itemWritten
    exact ⟨resized, same,
      (Layout.written_append _ _ _).mpr ⟨head, tail, rfl, resizedWritten, backWritten⟩⟩

end Resizable

/-- Bytes are written as what is measured to have their length. -/
theorem Layout.Written.measured
    {content : Layout}
    {list : List UInt8}
    (written : content.Written list) :
    (Layout.measured list.length content).Written list :=
  (Layout.written_measured _ _ _).mpr ⟨rfl, written⟩

/-- The sizes of each kind of entry can be adjusted to the bytes that are written of it.
A signature has no part with a size of its own. -/
theorem FuncType.resizable : Resizable layout unsized where
  unmeasured _ := rfl
  adjusts type list written := by
    have sameContent : type.layout.unmeasured =
        Layout.bytes [ValueType.func.code] ++
          (Layout.counted (type.params.map ValueType.layout) ++
            Layout.counted (type.results.map ValueType.layout)) := by
      simp only [layout, Layout.unmeasured, Layout.unmeasured_append, Layout.unmeasured_counted,
        List.map_map]
      rfl
    rw [sameContent] at written
    exact ⟨{ type with size := list.length }, rfl, written.measured⟩

theorem Limits.resizable : Resizable layout unsized where
  unmeasured _ := rfl
  adjusts limits list written := by
    obtain ⟨min, max, size⟩ := limits
    cases max with
    | none => exact ⟨⟨min, none, list.length⟩, rfl, Written.measured written⟩
    | some max => exact ⟨⟨min, some max, list.length⟩, rfl, Written.measured written⟩

theorem TableType.resizable : Resizable layout unsized where
  unmeasured _ := rfl
  adjusts type list written := by
    have code : (Layout.bytes [type.elemType.code]).unmeasured =
        Layout.bytes [type.elemType.code] := rfl
    obtain ⟨limits, sameLimits, resizedWritten⟩ :=
      (Limits.resizable.behind code).adjusts type.limits list written
    exact ⟨⟨type.elemType, limits, list.length⟩, by simp only [unsized, sameLimits],
      resizedWritten.measured⟩

theorem MemoryType.resizable : Resizable layout unsized where
  unmeasured _ := rfl
  adjusts type list written := by
    obtain ⟨limits, sameLimits, resizedWritten⟩ :=
      Limits.resizable.adjusts type.limits list written
    exact ⟨⟨limits, list.length⟩, by simp only [unsized, sameLimits], resizedWritten.measured⟩

theorem GlobalType.resizable : Resizable layout unsized where
  unmeasured _ := rfl
  adjusts type list written :=
    ⟨{ type with size := list.length }, rfl, Written.measured written⟩

@[simp] theorem Immediate.unmeasured_layout (kind : ImmediateKind) (immediate : Immediate) :
    (layout kind immediate).unmeasured = layout kind immediate := by
  cases immediate with
  | absent =>
      by_cases reserved : kind = .memoryReserved <;>
        simp [layout, reserved, Layout.unmeasured]
  | block type => cases type <;> rfl
  | branchTable targets fallback =>
      simp only [layout, Layout.unmeasured_append, Layout.unmeasured_counted, List.map_map]
      rfl
  | _ => rfl

@[simp] theorem Instruction.unmeasured_layout (instruction : Instruction) :
    instruction.layout.unmeasured = instruction.layout := by
  simp only [layout, Layout.unmeasured_append, Layout.unmeasured, Immediate.unmeasured_layout]

theorem ConstExpr.resizable : Resizable layout unsized where
  unmeasured _ := rfl
  adjusts expression list written := by
    simp only [layout, Layout.unmeasured, Layout.unmeasured_append,
      Instruction.unmeasured_layout] at written
    exact ⟨{ expression with size := list.length }, rfl, Written.measured written⟩

theorem ImportDesc.resizable : Resizable layout unsized where
  unmeasured desc := by
    cases desc <;> rfl
  adjusts desc list written := by
    have kind (number : UInt8) : (Layout.bytes [number]).unmeasured = Layout.bytes [number] := rfl
    cases desc with
    | func typeIndex => exact ⟨.func typeIndex, rfl, written⟩
    | table type =>
        obtain ⟨resized, same, resizedWritten⟩ :=
          (TableType.resizable.behind (kind 0x01)).adjusts type list written
        exact ⟨.table resized, by simp only [unsized, same], resizedWritten⟩
    | memory type =>
        obtain ⟨resized, same, resizedWritten⟩ :=
          (MemoryType.resizable.behind (kind 0x02)).adjusts type list written
        exact ⟨.memory resized, by simp only [unsized, same], resizedWritten⟩
    | global type =>
        obtain ⟨resized, same, resizedWritten⟩ :=
          (GlobalType.resizable.behind (kind 0x03)).adjusts type list written
        exact ⟨.global resized, by simp only [unsized, same], resizedWritten⟩

/-- An import is adjusted behind what it describes. -/
theorem Import.resizable : Resizable layout unsized where
  unmeasured item := by
    simp only [layout, unsized, Layout.unmeasured, Layout.unmeasured_append,
      ImportDesc.resizable.unmeasured]
  adjusts item list written := by
    have name (text : String) : (Layout.text text).unmeasured = Layout.text text := rfl
    obtain ⟨desc, same, resizedWritten⟩ :=
      ((ImportDesc.resizable.behind (name item.fieldName)).behind
        (name item.moduleName)).adjusts item.desc list written
    exact ⟨{ item with desc, size := list.length }, by simp only [unsized, same],
      resizedWritten.measured⟩

theorem Global.resizable : Resizable layout unsized where
  unmeasured _ := rfl
  adjusts global list written := by
    obtain ⟨head, tail, rfl, typeWritten, initWritten⟩ := (Layout.written_append _ _ _).mp written
    obtain ⟨type, sameType, typeResized⟩ := GlobalType.resizable.adjusts _ head typeWritten
    obtain ⟨init, sameInit, initResized⟩ := ConstExpr.resizable.adjusts _ tail initWritten
    refine ⟨⟨type, init, (head ++ tail).length⟩, ?_, ?_⟩
    · simp only [unsized, sameType, sameInit]
    · exact Written.measured
        ((Layout.written_append _ _ _).mpr ⟨head, tail, rfl, typeResized, initResized⟩)

theorem Export.resizable : Resizable layout unsized where
  unmeasured _ := rfl
  adjusts item list written := by
    have sameContent : item.layout.unmeasured = Layout.text item.name ++ item.desc.layout := by
      simp only [layout, Layout.unmeasured, Layout.unmeasured_append]
      cases item.desc <;> rfl
    rw [sameContent] at written
    exact ⟨{ item with size := list.length }, rfl, Written.measured written⟩

theorem ElementSegment.resizable : Resizable layout unsized where
  unmeasured _ := rfl
  adjusts segment list written := by
    have table : (Layout.word segment.tableIndex).unmeasured =
        Layout.word segment.tableIndex := rfl
    have init : (Layout.counted (segment.init.map Layout.word)).unmeasured =
        Layout.counted (segment.init.map Layout.word) := by
      rw [Layout.unmeasured_counted, List.map_map]
      rfl
    obtain ⟨offset, same, resizedWritten⟩ :=
      ((ConstExpr.resizable.before init).behind table).adjusts segment.offset list written
    exact ⟨{ segment with offset, size := list.length }, by simp only [unsized, same],
      resizedWritten.measured⟩

theorem DataSegment.resizable : Resizable layout unsized where
  unmeasured _ := rfl
  adjusts segment list written := by
    have memory : (Layout.word segment.memoryIndex).unmeasured =
        Layout.word segment.memoryIndex := rfl
    have init :
        (Layout.natural .leb128 segment.init.length ++ Layout.bytes segment.init).unmeasured =
          Layout.natural .leb128 segment.init.length ++ Layout.bytes segment.init := rfl
    obtain ⟨offset, same, resizedWritten⟩ :=
      ((ConstExpr.resizable.before init).behind memory).adjusts segment.offset list written
    exact ⟨{ segment with offset, size := list.length }, by simp only [unsized, same],
      resizedWritten.measured⟩

@[simp] theorem Body.unmeasured_contentLayout (body : Body) :
    body.contentLayout.unmeasured = body.contentLayout := by
  have sameCode : Layout.unmeasured ∘ Instruction.layout = Instruction.layout :=
    funext Instruction.unmeasured_layout
  simp only [contentLayout, Instruction.sequenceLayout, Layout.unmeasured_append,
    Layout.unmeasured_counted, Layout.unmeasured_all, List.map_map, sameCode]
  rfl

theorem Body.resizable : Resizable layout unsized where
  unmeasured _ := rfl
  adjusts body list written := by
    obtain ⟨size, content, rfl, sizeWritten, contentWritten⟩ :=
      (Layout.written_sized _ _ _).mp written
    rw [Layout.unmeasured, unmeasured_contentLayout] at contentWritten
    have fits := UInt32.toNat_ofNat_of_lt' sizeWritten.natural_lt
    refine ⟨{ body with
      declaredSize := UInt32.ofNat content.length
      size := (size ++ content).length }, rfl, Written.measured ?_⟩
    refine (Layout.written_sized _ _ _).mpr ⟨size, content, rfl, sizeWritten, ?_⟩
    exact (Layout.written_measured _ _ _).mpr ⟨fits.symm, contentWritten⟩

theorem Func.resizable : Resizable layout unsized where
  unmeasured _ := rfl
  adjusts function list written := by
    obtain ⟨body, same, bodyWritten⟩ := Body.resizable.adjusts function.body list written
    exact ⟨{ function with body }, by simp only [unsized, same], bodyWritten⟩

/-! ## Sections -/

namespace Section

@[simp] theorem id_unsized (content : Section) : content.unsized.id = content.id := by
  cases content <;> rfl

@[simp] theorem count_unsized (content : Section) : content.unsized.count = content.count := by
  cases content <;> simp [unsized, count]

/-- The sizes of all entries of a section can be adjusted. -/
theorem payload_resizable : Resizable payload unsized where
  unmeasured content := by
    cases content with
    | types entries => exact FuncType.resizable.unmeasured_all entries
    | imports entries => exact Import.resizable.unmeasured_all entries
    | functions typeIndices => rfl
    | tables entries => exact TableType.resizable.unmeasured_all entries
    | memories entries => exact MemoryType.resizable.unmeasured_all entries
    | globals entries => exact Global.resizable.unmeasured_all entries
    | exports entries => exact Export.resizable.unmeasured_all entries
    | start index => rfl
    | elements entries => exact ElementSegment.resizable.unmeasured_all entries
    | code entries => exact Func.resizable.unmeasured_all entries
    | data entries => exact DataSegment.resizable.unmeasured_all entries
  adjusts content list written := by
    cases content with
    | types entries =>
        obtain ⟨resized, same, written⟩ := FuncType.resizable.adjusts_all entries list written
        exact ⟨.types resized, by simp only [unsized, same], written⟩
    | imports entries =>
        obtain ⟨resized, same, written⟩ := Import.resizable.adjusts_all entries list written
        exact ⟨.imports resized, by simp only [unsized, same], written⟩
    | functions typeIndices =>
        rw [payload, Layout.unmeasured_all, List.map_map] at written
        exact ⟨.functions typeIndices, rfl, written⟩
    | tables entries =>
        obtain ⟨resized, same, written⟩ := TableType.resizable.adjusts_all entries list written
        exact ⟨.tables resized, by simp only [unsized, same], written⟩
    | memories entries =>
        obtain ⟨resized, same, written⟩ := MemoryType.resizable.adjusts_all entries list written
        exact ⟨.memories resized, by simp only [unsized, same], written⟩
    | globals entries =>
        obtain ⟨resized, same, written⟩ := Global.resizable.adjusts_all entries list written
        exact ⟨.globals resized, by simp only [unsized, same], written⟩
    | exports entries =>
        obtain ⟨resized, same, written⟩ := Export.resizable.adjusts_all entries list written
        exact ⟨.exports resized, by simp only [unsized, same], written⟩
    | start index => exact ⟨.start index, rfl, written⟩
    | elements entries =>
        obtain ⟨resized, same, written⟩ := ElementSegment.resizable.adjusts_all entries list written
        exact ⟨.elements resized, by simp only [unsized, same], written⟩
    | code entries =>
        obtain ⟨resized, same, written⟩ := Func.resizable.adjusts_all entries list written
        exact ⟨.code resized, by simp only [unsized, same], written⟩
    | data entries =>
        obtain ⟨resized, same, written⟩ := DataSegment.resizable.adjusts_all entries list written
        exact ⟨.data resized, by simp only [unsized, same], written⟩

/-- The size field of a section is written from its bytes, so nothing else is to be
adjusted. -/
theorem resizable (format : HeaderFormat) : Resizable (layout format) unsized where
  unmeasured content := by
    simp only [layout, Layout.unmeasured_append, Layout.unmeasured, id_unsized, count_unsized,
      payload_resizable.unmeasured]
  adjusts content list written := by
    obtain ⟨identifier, sized, rfl, identifierWritten, written⟩ :=
      (Layout.written_append _ _ _).mp written
    obtain ⟨size, body, rfl, sizeWritten, written⟩ := (Layout.written_sized _ _ _).mp written
    obtain ⟨count, entries, rfl, countWritten, entriesWritten⟩ :=
      (Layout.written_append _ _ _).mp written
    obtain ⟨resized, same, resizedWritten⟩ :=
      payload_resizable.adjusts content entries entriesWritten
    have sameId : resized.id = content.id := by rw [← id_unsized, same, id_unsized]
    have sameCount : resized.count = content.count := by rw [← count_unsized, same, count_unsized]
    refine ⟨resized, same, ?_⟩
    rw [layout, sameId, sameCount]
    exact (Layout.written_append _ _ _).mpr ⟨identifier, _, rfl, identifierWritten,
      (Layout.written_sized _ _ _).mpr ⟨size, _, rfl, sizeWritten,
        (Layout.written_append _ _ _).mpr ⟨count, entries, rfl, countWritten, resizedWritten⟩⟩⟩

end Section

end WebAssembly
