import WebAssembly.Proofs.Layout

/-!
# Encoding modules

The layout of every part of a module in the binary format, and with them the
encoder of modules, `Module.encode`, which spells every integer as short as can
be. The sizes that the parts of a module carry appear as claims about lengths
only, so that the encoder ignores them.
-/

namespace WebAssembly

open Layout

namespace Layout

/-- An unsigned integer of 32 bits. -/
abbrev word (value : UInt32) : Layout := natural .leb128 value.toNat

/-- The length of a string in UTF-8, then the string. -/
def text (value : String) : Layout :=
  natural .leb128 value.toByteArray.data.toList.length ++ bytes value.toByteArray.data.toList

end Layout

/-! ## Types -/

/-- A value type is its byte. -/
def ValueType.layout (type : ValueType) : Layout := bytes [type.code]

/-- A signature is marked by `0x60` and has two counted lists of value types. -/
def FuncType.layout (type : FuncType) : Layout :=
  measured type.size
    (bytes [ValueType.func.code] ++
      (counted (type.params.map ValueType.layout) ++
        counted (type.results.map ValueType.layout)))

/-- The first byte of limits tells whether there is a maximum. -/
def Limits.layout (limits : Limits) : Layout :=
  measured limits.size
    (match limits.max with
    | none => bytes [0x00] ++ word limits.min
    | some max => bytes [0x01] ++ (word limits.min ++ word max))

/-- A table type is the byte of its elements and its limits. -/
def TableType.layout (type : TableType) : Layout :=
  measured type.size (bytes [type.elemType.code] ++ type.limits.layout)

/-- A memory type is its limits. -/
def MemoryType.layout (type : MemoryType) : Layout :=
  measured type.size type.limits.layout

/-- A global type is the byte of its content and one for its mutability. -/
def GlobalType.layout (type : GlobalType) : Layout :=
  measured type.size (type.contentType.layout ++ bytes [type.mutability.code])

/-- Locals of one type are their number and the byte of the type. -/
def LocalGroup.layout (group : LocalGroup) : Layout :=
  word group.count ++ group.type.layout

/-! ## Instructions -/

/-- A block without a result is marked by `0x40`, any other by the byte of its result.
-/
def BlockType.layout : BlockType → Layout
  | .empty => bytes [0x40]
  | .value type => type.layout

/-- The layout of an immediate behind an opcode that takes immediates of a kind. -/
def Immediate.layout (kind : ImmediateKind) : Immediate → Layout
  | .absent => if kind = .memoryReserved then bytes [0x00] else bytes []
  | .block type => type.layout
  | .branchDepth depth => word depth
  | .branchTable targets fallback => counted (targets.map word) ++ word fallback
  | .functionIndex index => word index
  | .typeIndex index => word index ++ bytes [0x00]
  | .localIndex index => word index
  | .globalIndex index => word index
  | .memory argument => word argument.align ++ word argument.offset
  | .i32 value => integer value.toInt
  | .i64 value => integer value.toInt
  | .f32 bits => bytes (Numeral.littleEndianBytes 4 bits.toNat)
  | .f64 bits => bytes (Numeral.littleEndianBytes 8 bits.toNat)

/-- An instruction is the byte of its opcode and what follows this one. -/
def Instruction.layout (instruction : Instruction) : Layout :=
  bytes [instruction.opcode.code] ++
    instruction.immediate.layout instruction.opcode.immediateKind

/-- Instructions and the `end` that closes them. -/
def Instruction.sequenceLayout (code : List Instruction) : Layout :=
  all (code.map Instruction.layout) ++ bytes [Opcode.endOp.code]

/-- A constant expression is one instruction and the `end` that closes it. -/
def ConstExpr.layout (expression : ConstExpr) : Layout :=
  measured expression.size (expression.instruction.layout ++ bytes [Opcode.endOp.code])

/-! ## Entries of sections -/

/-- What is imported is marked by its kind. -/
def ImportDesc.layout : ImportDesc → Layout
  | .func typeIndex => bytes [0x00] ++ word typeIndex
  | .table type => bytes [0x01] ++ type.layout
  | .memory type => bytes [0x02] ++ type.layout
  | .global type => bytes [0x03] ++ type.layout

/-- An import has two names in front of what it describes. -/
def Import.layout (item : Import) : Layout :=
  measured item.size (text item.moduleName ++ (text item.fieldName ++ item.desc.layout))

/-- A global is its type and the expression for its initial value. -/
def Global.layout (global : Global) : Layout :=
  measured global.size (global.type.layout ++ global.init.layout)

/-- What is exported is an index, marked by its kind. -/
def ExportDesc.layout : ExportDesc → Layout
  | .func index => bytes [0x00] ++ word index
  | .table index => bytes [0x01] ++ word index
  | .memory index => bytes [0x02] ++ word index
  | .global index => bytes [0x03] ++ word index

/-- An export is a name and what it stands for. -/
def Export.layout (item : Export) : Layout :=
  measured item.size (text item.name ++ item.desc.layout)

/-- A segment of elements has the table, where to begin and a counted list of functions.
-/
def ElementSegment.layout (segment : ElementSegment) : Layout :=
  measured segment.size
    (word segment.tableIndex ++ (segment.offset.layout ++ counted (segment.init.map word)))

/-- A segment of data has the memory, where to begin and its bytes with their number. -/
def DataSegment.layout (segment : DataSegment) : Layout :=
  measured segment.size
    (word segment.memoryIndex ++
      (segment.offset.layout ++ (natural .leb128 segment.init.length ++ bytes segment.init)))

/-- The layout of the part of a function body behind its declared size. -/
def Body.contentLayout (body : Body) : Layout :=
  counted (body.locals.map LocalGroup.layout) ++ Instruction.sequenceLayout body.code

/-- A body has its declared size in front of its content. -/
def Body.layout (body : Body) : Layout :=
  measured body.size (sized .leb128 (measured body.declaredSize.toNat body.contentLayout))

/-- A function is written by its body; its signature stands in another section. -/
def Func.layout (function : Func) : Layout := function.body.layout

/-! ## Sections and modules -/

namespace Section

/-- What the count field of a section holds: the number of entries, or the index
of the start function. -/
def count : Section → Nat
  | .types entries => entries.length
  | .imports entries => entries.length
  | .functions typeIndices => typeIndices.length
  | .tables entries => entries.length
  | .memories entries => entries.length
  | .globals entries => entries.length
  | .exports entries => entries.length
  | .start index => index.toNat
  | .elements entries => entries.length
  | .code entries => entries.length
  | .data entries => entries.length

/-- The layout of the part of a section behind its count field. -/
def payload : Section → Layout
  | .types entries => all (entries.map FuncType.layout)
  | .imports entries => all (entries.map Import.layout)
  | .functions typeIndices => all (typeIndices.map word)
  | .tables entries => all (entries.map TableType.layout)
  | .memories entries => all (entries.map MemoryType.layout)
  | .globals entries => all (entries.map Global.layout)
  | .exports entries => all (entries.map Export.layout)
  | .start _ => bytes []
  | .elements entries => all (entries.map ElementSegment.layout)
  | .code entries => all (entries.map Func.layout)
  | .data entries => all (entries.map DataSegment.layout)

/-- The layout of a whole section. -/
def layout (format : HeaderFormat) (content : Section) : Layout :=
  bytes [content.id.number] ++ sized format (natural format content.count ++ content.payload)

end Section

namespace Module

/-- The section of a kind, if the module has one. -/
def section? (module : Module) : SectionId → Option Section
  | .custom => none
  | .types => module.types.map .types
  | .imports => module.imports.map .imports
  | .functions => module.functions.map .functions
  | .tables => module.tables.map .tables
  | .memories => module.memories.map .memories
  | .globals => module.globals.map .globals
  | .exports => module.exports.map .exports
  | .start => module.start.map .start
  | .elements => module.elements.map .elements
  | .code => module.code.map .code
  | .data => module.data.map .data

/-- The sections of a module, in the order of their numbers. -/
def sections (module : Module) : List Section :=
  SectionId.all.filterMap module.section?

/-- The layout of a binary: the header, then the sections. -/
def layout (format : HeaderFormat) (module : Module) : Layout :=
  bytes (Header.magicBytes ++ Header.versionBytes) ++
    all (module.sections.map (Section.layout format))

/-- The binary of a module in which every integer has its shortest spelling. -/
def encode (format : HeaderFormat) (module : Module) : List UInt8 :=
  (module.layout format).shortest

end Module

end WebAssembly
