import WebAssembly.Json.Basic
import WebAssembly.Module

/-!
# Modules as JSON

Every structure becomes an object with its fields in order, and every choice
between alternatives a string or an object with one field that names the
alternative. What is absent is `null`.
-/

namespace WebAssembly

namespace Json

/-- A list of values. -/
def list (item : α → Json) (values : List α) : Json := .array (values.map item)

/-- A value that may be absent. -/
def option (item : α → Json) : Option α → Json
  | none => .null
  | some value => item value

/-- A natural number. -/
def nat (value : Nat) : Json := .number value

/-- A word of 32 bits. -/
def word (value : UInt32) : Json := nat value.toNat

/-- An alternative with a content. -/
def variant (name : String) (content : Json) : Json := .object [(name, content)]

end Json

open Json

/-- The name of a value type in JSON. -/
def ValueType.variantName : ValueType → String
  | .i32 => "I32"
  | .i64 => "I64"
  | .f32 => "F32"
  | .f64 => "F64"
  | .anyfunc => "AnyFunc"
  | .func => "Func"
  | .pseudoType => "PseudoType"

/-- The words of a mnemonic run together, each with a capital letter; `initial`
tells that a word starts. -/
def capitalizeWords : (initial : Bool) → List Char → List Char
  | _, [] => []
  | _, '.' :: rest => capitalizeWords true rest
  | _, '_' :: rest => capitalizeWords true rest
  | true, char :: rest => char.toUpper :: capitalizeWords false rest
  | false, char :: rest => char :: capitalizeWords false rest

/-- The name of an opcode in JSON. -/
def Opcode.variantName (op : Opcode) : String :=
  String.ofList (capitalizeWords true op.mnemonic.toList)

/-- A value type by its name. -/
def ValueType.toJson (type : ValueType) : Json := .string type.variantName

/-- The object of a signature. -/
def FuncType.toJson (type : FuncType) : Json :=
  .object
    [("params", list ValueType.toJson type.params),
      ("results", list ValueType.toJson type.results),
      ("size", nat type.size)]

/-- The object of limits. -/
def Limits.toJson (limits : Limits) : Json :=
  .object
    [("min", word limits.min),
      ("max", option word limits.max),
      ("size", nat limits.size)]

/-- An element type by its name. -/
def ElemType.toJson : ElemType → Json
  | .funcref => .string "FuncRef"

/-- The object of a table type. -/
def TableType.toJson (type : TableType) : Json :=
  .object
    [("elem_type", type.elemType.toJson),
      ("limits", type.limits.toJson),
      ("size", nat type.size)]

/-- The object of a memory type. -/
def MemoryType.toJson (type : MemoryType) : Json :=
  .object [("limits", type.limits.toJson), ("size", nat type.size)]

/-- A mutability by its name. -/
def Mutability.toJson : Mutability → Json
  | .const => .string "Const"
  | .var => .string "Var"

/-- The object of a global type. -/
def GlobalType.toJson (type : GlobalType) : Json :=
  .object
    [("content_type", type.contentType.toJson),
      ("mutability", type.mutability.toJson),
      ("size", nat type.size)]

/-- A block type as an alternative. -/
def BlockType.toJson : BlockType → Json
  | .empty => .string "Empty"
  | .value type => variant "Value" type.toJson

/-- The object of a memory access. -/
def MemoryArg.toJson (argument : MemoryArg) : Json :=
  .object [("align", word argument.align), ("offset", word argument.offset)]

/-- An immediate as an alternative. -/
def Immediate.toJson : Immediate → Json
  | .absent => .string "None"
  | .block type => variant "Block" type.toJson
  | .branchDepth depth => variant "Depth" (word depth)
  | .branchTable targets fallback =>
      variant "BrTable"
        (.object [("targets", list word targets), ("default", word fallback)])
  | .functionIndex index => variant "Function" (word index)
  | .typeIndex index => variant "CallIndirect" (.object [("type_index", word index)])
  | .localIndex index => variant "Local" (word index)
  | .globalIndex index => variant "Global" (word index)
  | .memory argument => variant "Memory" argument.toJson
  | .i32 value => variant "I32" (.number value.toInt)
  | .i64 value => variant "I64" (.number value.toInt)
  | .f32 bits => variant "F32" (word bits)
  | .f64 bits => variant "F64" (nat bits.toNat)

/-- The object of an instruction. -/
def Instruction.toJson (instruction : Instruction) : Json :=
  .object
    [("opcode", .string instruction.opcode.variantName),
      ("immediate", instruction.immediate.toJson)]

/-- The object of a constant expression. -/
def ConstExpr.toJson (expr : ConstExpr) : Json :=
  .object [("instruction", expr.instruction.toJson), ("size", nat expr.size)]

/-- What is imported as an alternative. -/
def ImportDesc.toJson : ImportDesc → Json
  | .func typeIndex => variant "Func" (word typeIndex)
  | .table type => variant "Table" type.toJson
  | .memory type => variant "Memory" type.toJson
  | .global type => variant "Global" type.toJson

/-- The object of an import. -/
def Import.toJson (item : Import) : Json :=
  .object
    [("module_name", .string item.moduleName),
      ("field_name", .string item.fieldName),
      ("kind", item.desc.toJson),
      ("size", nat item.size)]

/-- What is exported as an alternative. -/
def ExportDesc.toJson : ExportDesc → Json
  | .func index => variant "Func" (word index)
  | .table index => variant "Table" (word index)
  | .memory index => variant "Memory" (word index)
  | .global index => variant "Global" (word index)

/-- The object of an export. -/
def Export.toJson (item : Export) : Json :=
  .object
    [("name", .string item.name),
      ("desc", item.desc.toJson),
      ("size", nat item.size)]

/-- The object of a global. -/
def Global.toJson (item : Global) : Json :=
  .object
    [("global_type", item.type.toJson),
      ("init_expr", item.init.toJson),
      ("size", nat item.size)]

/-- The object of an element segment. -/
def ElementSegment.toJson (segment : ElementSegment) : Json :=
  .object
    [("table_index", word segment.tableIndex),
      ("offset", segment.offset.toJson),
      ("init", list word segment.init),
      ("size", nat segment.size)]

/-- The object of a data segment, whose bytes are numbers. -/
def DataSegment.toJson (segment : DataSegment) : Json :=
  .object
    [("memory_index", word segment.memoryIndex),
      ("offset", segment.offset.toJson),
      ("init", list (fun byte => nat byte.toNat) segment.init),
      ("size", nat segment.size)]

/-- The object of a run of locals. -/
def LocalGroup.toJson (group : LocalGroup) : Json :=
  .object [("type_count", word group.count), ("value_type", group.type.toJson)]

/-- The object of a function body. -/
def Body.toJson (body : Body) : Json :=
  .object
    [("body_size", word body.declaredSize),
      ("locals", list LocalGroup.toJson body.locals),
      ("code", list Instruction.toJson body.code),
      ("size", nat body.size)]

/-- The object of a function. -/
def Func.toJson (function : Func) : Json :=
  .object
    [("index", word function.index),
      ("type_index", word function.typeIndex),
      ("func_type", function.type.toJson),
      ("body", function.body.toJson)]

/-- The entries of a section, or the index that the start section holds. -/
def Section.toJson : Section → Json
  | .types entries => list FuncType.toJson entries
  | .imports entries => list Import.toJson entries
  | .functions typeIndices => list word typeIndices
  | .tables entries => list TableType.toJson entries
  | .memories entries => list MemoryType.toJson entries
  | .globals entries => list Global.toJson entries
  | .exports entries => list Export.toJson entries
  | .start index => word index
  | .elements entries => list ElementSegment.toJson entries
  | .code entries => list Func.toJson entries
  | .data entries => list DataSegment.toJson entries

/-- The object of a module. -/
def Module.toJson (module : Module) : Json :=
  .object
    [("magic", .string module.magic),
      ("version", word module.version),
      ("type_section", option (list FuncType.toJson) module.types),
      ("import_section", option (list Import.toJson) module.imports),
      ("function_section", option (list word) module.functions),
      ("table_section", option (list TableType.toJson) module.tables),
      ("memory_section", option (list MemoryType.toJson) module.memories),
      ("global_section", option (list Global.toJson) module.globals),
      ("export_section", option (list Export.toJson) module.exports),
      ("start_section", option word module.start),
      ("element_section", option (list ElementSegment.toJson) module.elements),
      ("code_section", option (list Func.toJson) module.code),
      ("data_section", option (list DataSegment.toJson) module.data)]

end WebAssembly
