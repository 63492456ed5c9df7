import WebAssembly.Decode.Instruction

/-!
# Decoding sections

Each kind of section has a decoder for its entries. Sections refer to one
another by index, so a section is decoded against the module made of the
sections before it.
-/

namespace WebAssembly

open Decode

variable {ρ : Type} [Source ρ]

/-- Run a decoder once for each of `count` entries. -/
def Section.decodeEntries (count : UInt32) (entry : Decode ρ α) : Decode ρ (List α) :=
  times count fun number => inContext (.decodeEntry number) entry

/-- Read what is imported; the index of a function's type must exist. -/
def ImportDesc.decode (module : Module) : Decode ρ ImportDesc := do
  let kind ← byte
  match kind with
  | 0x00 => do
      let types ← requireSome module.types .missingTypeSection
      let index ← u32
      require (index.toNat < types.length) (.invalidTypeIndex index)
      return .func index
  | 0x01 => return .table (← TableType.decode)
  | 0x02 => return .memory (← MemoryType.decode)
  | 0x03 => return .global (← GlobalType.decode)
  | _ => fail (.unknownExternalKind kind)

/-- Read an import. -/
def Import.decode (module : Module) : Decode ρ Import := sized do
  let moduleName ← Decode.name
  let fieldName ← Decode.name
  let desc ← ImportDesc.decode module
  return fun size => { moduleName, fieldName, desc, size }

/-- Read the type index of a function. -/
def Section.decodeTypeIndex (module : Module) : Decode ρ UInt32 := do
  require module.types.isSome .missingTypeSection
  indexBelow module.numTypes .invalidTypeIndex

/-- Read a global, which may be initialized from an imported one. -/
def Global.decode (module : Module) : Decode ρ Global := sized do
  let type ← GlobalType.decode
  let init ← ConstExpr.decode module.importedGlobals
  return fun size => { type, init, size }

/-- Read what is exported. The index is read before the kind is judged. -/
def ExportDesc.decode (module : Module) : Decode ρ ExportDesc := do
  let kind ← byte
  let index ← u32
  match kind with
  | 0x00 => do
      require module.types.isSome .missingTypeSection
      require (index < module.numFunctions) (.invalidFunctionIndex index)
      return .func index
  | 0x01 => do
      require (index < module.numTables) (.invalidTableIndex index)
      return .table index
  | 0x02 => do
      require (index < module.numMemories) (.invalidMemoryIndex index)
      return .memory index
  | 0x03 => do
      require (index < module.numGlobals) (.invalidGlobalIndex index)
      return .global index
  | _ => fail (.unknownExternalKind kind)

/-- Read an export. -/
def Export.decode (module : Module) : Decode ρ Export := sized do
  let name ← Decode.name
  let desc ← ExportDesc.decode module
  return fun size => { name, desc, size }

/-- Read an element segment. There is a single table to place it in. -/
def ElementSegment.decode (module : Module) : Decode ρ ElementSegment := sized do
  let tableIndex ← u32
  require (tableIndex == 0) (.invalidTableIndex tableIndex)
  let offset ← ConstExpr.decode module.importedGlobals
  let init ← counted (indexBelow module.numFunctions .invalidFunctionIndex)
  return fun size => { tableIndex, offset, init, size }

/-- Read a data segment. There is a single memory to place it in. -/
def DataSegment.decode (module : Module) : Decode ρ DataSegment := sized do
  let memoryIndex ← u32
  require (memoryIndex == 0) (.invalidMemoryIndex memoryIndex)
  let offset ← ConstExpr.decode module.importedGlobals
  let init ← bytes (← u32).toNat
  return fun size => { memoryIndex, offset, init, size }

/-- The greatest number of params and locals of a function together. -/
def Body.maxLocals : Nat := 50000

/-- Read `count` groups of locals of a function that has `total` params and locals
so far, behind the groups read before, which are given last first. Yields all
groups and the new total. -/
def Body.decodeLocals :
    (count total : Nat) → List LocalGroup → Decode ρ (List LocalGroup × Nat)
  | 0, total, collected => return (collected.reverse, total)
  | count + 1, total, collected => do
      let group ← LocalGroup.decode
      let total := total + group.count.toNat
      require (total ≤ Body.maxLocals) (.tooManyLocals total)
      Body.decodeLocals count total (group :: collected)

/-- Read the content of a function body, the whole of its window. -/
def Body.decodeContent
    (space : IndexSpace)
    (type : FuncType) :
    Decode ρ (List LocalGroup × List Instruction) := do
  let count ← u32
  let (locals, total) ← Body.decodeLocals count.toNat type.params.length []
  let code ← Instruction.decodeSequence { space with locals := total.toUInt32 }
  finish
  return (locals, code)

/-- Read a function body of a signature; the bound on locals in `space` is set
by the body. -/
def Body.decode (space : IndexSpace) (type : FuncType) : Decode ρ Body := sized do
  let declaredSize ← u32
  let window ← split declaredSize.toNat
  let (locals, code) ← within window (Body.decodeContent space type)
  return fun size => { declaredSize, locals, code, size }

/-- The indices that the functions of a module may refer to, locals apart. -/
def Module.indexSpace (module : Module) : IndexSpace where
  types := module.numTypes
  functions := module.numFunctions
  globals := module.numGlobals
  locals := 0

/-- Read the body of the function with an index, whose type index is known. -/
def Func.decode
    (space : IndexSpace)
    (types : List FuncType)
    (index typeIndex : UInt32) :
    Decode ρ Func := do
  let type ← requireSome types[typeIndex.toNat]? (.invalidTypeIndex typeIndex)
  let body ← inContext (.decodeBody index) (Body.decode space type)
  return { index, typeIndex, type, body }

/-- Read the entries of the code section, one for each entry of the function
section. The functions are numbered on from the imported ones. -/
def Section.decodeCode (module : Module) (count : UInt32) : Decode ρ (List Func) := do
  let types ← requireSome module.types .missingTypeSection
  let functions ← requireSome module.functions .missingFunctionSection
  require (functions.length == count.toNat)
    (.functionCountMismatch functions.length count.toNat)
  let space := module.indexSpace
  let imported := module.importedFunctions
  functions.zipIdx.mapM fun (typeIndex, position) =>
    Func.decode space types (imported + position.toUInt32) typeIndex

/-- Read the content of a section from a window that starts after the count. In
the start section the count is the index of the start function. -/
def Section.decodeContent
    (module : Module)
    (count : UInt32) :
    SectionId → Decode ρ Section
  | .custom => fail .customSectionEntries
  | .types => return .types (← Section.decodeEntries count FuncType.decode)
  | .imports => return .imports (← Section.decodeEntries count (Import.decode module))
  | .functions =>
      return .functions (← Section.decodeEntries count (Section.decodeTypeIndex module))
  | .tables => return .tables (← Section.decodeEntries count TableType.decode)
  | .memories => return .memories (← Section.decodeEntries count MemoryType.decode)
  | .globals => return .globals (← Section.decodeEntries count (Global.decode module))
  | .exports => return .exports (← Section.decodeEntries count (Export.decode module))
  | .start => do
      require (count < module.numFunctions) (.invalidFunctionIndex count)
      return .start count
  | .elements => return .elements (← Section.decodeEntries count (ElementSegment.decode module))
  | .code => return .code (← Section.decodeCode module count)
  | .data => return .data (← Section.decodeEntries count (DataSegment.decode module))

/-- Read the content of a section, which is the whole of its window. -/
def Section.decode (module : Module) (id : SectionId) (count : UInt32) : Decode ρ Section := do
  let content ← Section.decodeContent module count id
  finish
  return content

end WebAssembly
