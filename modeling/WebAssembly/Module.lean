import WebAssembly.Instruction

/-!
# Modules

A module is a header and eleven optional sections. The entries of a section
carry `size`, the number of bytes they occupied in the binary. Index spaces
number imports first and the module's own definitions after them.
-/

namespace WebAssembly

/-- The kind and type of an imported entity. -/
inductive ImportDesc
  | func (typeIndex : UInt32)
  | table (type : TableType)
  | memory (type : MemoryType)
  | global (type : GlobalType)
  deriving DecidableEq

namespace ImportDesc

/-- Whether a function is imported. -/
def isFunc : ImportDesc → Bool
  | .func _ => true
  | _ => false

/-- Whether a table is imported. -/
def isTable : ImportDesc → Bool
  | .table _ => true
  | _ => false

/-- Whether a memory is imported. -/
def isMemory : ImportDesc → Bool
  | .memory _ => true
  | _ => false

/-- Whether a global is imported. -/
def isGlobal : ImportDesc → Bool
  | .global _ => true
  | _ => false

end ImportDesc

/-- An entry of the import section. -/
structure Import where
  moduleName : String
  fieldName : String
  desc : ImportDesc
  size : Nat
  deriving DecidableEq

/-- The kind and index of an exported entity. -/
inductive ExportDesc
  | func (index : UInt32)
  | table (index : UInt32)
  | memory (index : UInt32)
  | global (index : UInt32)
  deriving DecidableEq

/-- An entry of the export section. -/
structure Export where
  name : String
  desc : ExportDesc
  size : Nat
  deriving DecidableEq

/-- An entry of the global section. -/
structure Global where
  type : GlobalType
  init : ConstExpr
  size : Nat
  deriving DecidableEq

/-- An entry of the element section: function indices for a stretch of a table. -/
structure ElementSegment where
  tableIndex : UInt32
  offset : ConstExpr
  init : List UInt32
  size : Nat
  deriving DecidableEq

/-- An entry of the data section: bytes for a stretch of a memory. -/
structure DataSegment where
  memoryIndex : UInt32
  offset : ConstExpr
  init : List UInt8
  size : Nat
  deriving DecidableEq

/-- A run of locals of one type. -/
structure LocalGroup where
  count : UInt32
  type : ValueType
  deriving DecidableEq

/-- The body of a function. `declaredSize` counts the bytes after the size
field, `size` all of them. The `end` of the body is not part of `code`. -/
structure Body where
  declaredSize : UInt32
  locals : List LocalGroup
  code : List Instruction
  size : Nat
  deriving DecidableEq

/-- A function defined by the module: a body with its position in the function
index space and its signature. -/
structure Func where
  index : UInt32
  typeIndex : UInt32
  type : FuncType
  body : Body
  deriving DecidableEq

/-- The kinds of sections. -/
inductive SectionId
  | custom
  | types
  | imports
  | functions
  | tables
  | memories
  | globals
  | exports
  | start
  | elements
  | code
  | data
  deriving DecidableEq

namespace SectionId

/-- Every kind of section, in the order of the numbers. -/
def all : List SectionId :=
  [.custom, .types, .imports, .functions, .tables, .memories, .globals, .exports,
    .start, .elements, .code, .data]

/-- The byte that stands for a kind of section. -/
def number : SectionId → UInt8
  | .custom => 0
  | .types => 1
  | .imports => 2
  | .functions => 3
  | .tables => 4
  | .memories => 5
  | .globals => 6
  | .exports => 7
  | .start => 8
  | .elements => 9
  | .code => 10
  | .data => 11

/-- The kind of section that a byte stands for. -/
def ofNumber? (byte : UInt8) : Option SectionId :=
  all.find? fun id => id.number == byte

@[simp] theorem ofNumber?_number (id : SectionId) :
    ofNumber? id.number = some id := by
  cases id <;> rfl

/-- The name of a kind of section in messages. -/
def title : SectionId → String
  | .custom => "Custom"
  | .types => "Type"
  | .imports => "Import"
  | .functions => "Function"
  | .tables => "Table"
  | .memories => "Memory"
  | .globals => "Global"
  | .exports => "Export"
  | .start => "Start"
  | .elements => "Element"
  | .code => "Code"
  | .data => "Data"

end SectionId

/-- The decoded content of a section. The start section holds an index, every
other one a list of entries. -/
inductive Section
  | types (entries : List FuncType)
  | imports (entries : List Import)
  | functions (typeIndices : List UInt32)
  | tables (entries : List TableType)
  | memories (entries : List MemoryType)
  | globals (entries : List Global)
  | exports (entries : List Export)
  | start (index : UInt32)
  | elements (entries : List ElementSegment)
  | code (entries : List Func)
  | data (entries : List DataSegment)
  deriving DecidableEq

/-- The kind of a section. -/
def Section.id : Section → SectionId
  | .types _ => .types
  | .imports _ => .imports
  | .functions _ => .functions
  | .tables _ => .tables
  | .memories _ => .memories
  | .globals _ => .globals
  | .exports _ => .exports
  | .start _ => .start
  | .elements _ => .elements
  | .code _ => .code
  | .data _ => .data

/-- A module. A section that is absent is told apart from one that is present
and empty. -/
structure Module where
  magic : String := ""
  version : UInt32 := 0
  types : Option (List FuncType) := none
  imports : Option (List Import) := none
  functions : Option (List UInt32) := none
  tables : Option (List TableType) := none
  memories : Option (List MemoryType) := none
  globals : Option (List Global) := none
  exports : Option (List Export) := none
  start : Option UInt32 := none
  elements : Option (List ElementSegment) := none
  code : Option (List Func) := none
  data : Option (List DataSegment) := none
  deriving DecidableEq

namespace Module

/-- The module without a header or any section, to which a caller may add some. -/
def empty : Module := {}

/-- Add a section, in place of an earlier one of the same kind. -/
def add (module : Module) : Section → Module
  | .types entries => { module with types := some entries }
  | .imports entries => { module with imports := some entries }
  | .functions typeIndices => { module with functions := some typeIndices }
  | .tables entries => { module with tables := some entries }
  | .memories entries => { module with memories := some entries }
  | .globals entries => { module with globals := some entries }
  | .exports entries => { module with exports := some entries }
  | .start index => { module with start := some index }
  | .elements entries => { module with elements := some entries }
  | .code entries => { module with code := some entries }
  | .data entries => { module with data := some entries }

/-- The entries of a section, none if it is absent. -/
def entries (list : Option (List α)) : List α := list.getD []

@[simp] theorem entries_none : entries (none : Option (List α)) = [] := rfl

@[simp] theorem entries_some (list : List α) : entries (some list) = list := rfl

/-- How many imports are of one kind. -/
def importCount (module : Module) (kind : ImportDesc → Bool) : UInt32 :=
  ((entries module.imports).countP fun item => kind item.desc).toUInt32

/-- How many types there are. -/
def numTypes (module : Module) : UInt32 :=
  (entries module.types).length.toUInt32

/-- How many functions are imported. -/
def importedFunctions (module : Module) : UInt32 :=
  module.importCount ImportDesc.isFunc

/-- How many globals are imported. -/
def importedGlobals (module : Module) : UInt32 :=
  module.importCount ImportDesc.isGlobal

/-- How many tables are imported. -/
def importedTables (module : Module) : UInt32 :=
  module.importCount ImportDesc.isTable

/-- How many memories are imported. -/
def importedMemories (module : Module) : UInt32 :=
  module.importCount ImportDesc.isMemory

/-- The size of the function index space. -/
def numFunctions (module : Module) : UInt32 :=
  module.importedFunctions + (entries module.functions).length.toUInt32

/-- The size of the global index space. -/
def numGlobals (module : Module) : UInt32 :=
  module.importedGlobals + (entries module.globals).length.toUInt32

/-- The size of the table index space. -/
def numTables (module : Module) : UInt32 :=
  module.importedTables + (entries module.tables).length.toUInt32

/-- The size of the memory index space. -/
def numMemories (module : Module) : UInt32 :=
  module.importedMemories + (entries module.memories).length.toUInt32

end Module

end WebAssembly
