import WebAssembly.Text.Item

/-!
# The text of a module

A module is written as one form with a line for each of its parts. The order of
the parts is fixed and differs from the order of the sections in a binary:
types, imports, globals, functions, memories, tables, data, exports, elements
and the start function.

A line has a depth, and is indented by two spaces for each unit of depth up to
`Line.maxDepth`. The depths are those of a printer that raises a counter behind an
opener and lowers it before an `else` or an `end`; `WebAssembly.Proofs.Printer` has
this printer and proves that it writes the same text.
-/

namespace WebAssembly

/-- A line of text and its depth. -/
structure Line where
  depth : Nat
  text : String
  deriving DecidableEq

namespace Line

/-- The greatest depth that shows. -/
def maxDepth : Nat := 50

/-- The spaces in front of a line. -/
def indentation (depth : Nat) : String :=
  String.ofList (List.replicate (2 * min maxDepth depth) ' ')

/-- A line behind the break that starts it. -/
def render (line : Line) : String :=
  "\n" ++ indentation line.depth ++ line.text

end Line

/-- The depth of an instruction's line and the depth behind it, in a sequence
that started at depth `base`. An `else` stands as deep as its `if`, and an `end`
as deep as its opener unless there is none. -/
def Opcode.place (base depth : Nat) (op : Opcode) : Nat × Nat :=
  match op with
  | .elseOp => (depth - 1, depth)
  | .endOp => if base < depth then (depth - 1, depth - 1) else (depth, depth)
  | _ => if op.opensBlock then (depth, depth + 1) else (depth, depth)

/-- The lines of a sequence that started at depth `base` and is now at `depth`,
behind earlier lines, which are given last first. -/
def codeLines
    (params base : Nat) :
    (depth : Nat) → List Instruction → List Line → List Line
  | _, [], earlier => earlier.reverse
  | depth, instruction :: rest, earlier =>
      let (here, next) := instruction.opcode.place base depth
      codeLines params base next rest (⟨here, instruction.text params⟩ :: earlier)

namespace Func

/-- The first line of a function: its name, type, params and results. -/
def headerText (function : Func) : String :=
  "(func " ++ funcName function.index.toNat ++
    " (type " ++ typeName function.typeIndex.toNat ++ ")" ++
    String.join (function.type.params.zipIdx.map fun (param, index) =>
      " (param $p" ++ toString index ++ " " ++ param.name ++ ")") ++
    resultFields function.type.results

/-- The types of the locals of a function, params apart. -/
def localTypes (function : Func) : List ValueType :=
  function.body.locals.flatMap fun group => List.replicate group.count.toNat group.type

/-- The lines of the locals, which are numbered on from the params. -/
def localLines (function : Func) : List Line :=
  (function.localTypes.zipIdx function.type.params.length).map fun (type, index) =>
    ⟨2, "(local $l" ++ toString index ++ " " ++ type.name ++ ")"⟩

/-- The lines of a function. -/
def lines (function : Func) : List Line :=
  ⟨1, function.headerText⟩ ::
    (function.localLines ++
      codeLines function.type.params.length 2 2 function.body.code [] ++ [⟨1, ")"⟩])

end Func

/-- The lines of the imports when some functions and globals came before. -/
def importLines : (functions globals : Nat) → List Import → List Line
  | _, _, [] => []
  | functions, globals, item :: rest =>
      let line (form : String) : Line :=
        ⟨1, "(import " ++ Quoted.name item.moduleName ++ " " ++
          Quoted.name item.fieldName ++ " " ++ form ++ ")"⟩
      match item.desc with
      | .func typeIndex =>
          line ("(func " ++ funcName functions ++
            " (type " ++ typeName typeIndex.toNat ++ "))") ::
          importLines (functions + 1) globals rest
      | .table type =>
          line ("(table " ++ type.text ++ ")") :: importLines functions globals rest
      | .memory type =>
          line ("(memory " ++ type.text ++ ")") :: importLines functions globals rest
      | .global type =>
          line ("(global " ++ globalName globals ++ " " ++ type.text ++ ")") ::
          importLines functions (globals + 1) rest

namespace Module

/-- The size of a page of memory. -/
def pageSize : Nat := 65536

/-- How many pages some bytes need. -/
def pagesFor (length : Nat) : UInt32 :=
  ((length + pageSize - 1) / pageSize).toUInt32

/-- The data segment that is written inside the memory it fills. The form
`(memory (data ...))` declares a memory of just the pages that the data needs
and places the data at its start, so it can only stand for a single segment at
offset zero, with no memory imported and none defined but such a one. -/
def foldedData? (module : Module) : Option DataSegment :=
  match module.data with
  | some [segment] =>
      let pages := pagesFor segment.init.length
      let memoryFits :=
        match entries module.memories with
        | [] => true
        | [memory] => memory.limits.min == pages && memory.limits.max == some pages
        | _ => false
      if segment.memoryIndex == 0
          && segment.offset.instruction == ⟨.i32Const, .i32 0⟩
          && module.importedMemories == 0
          && memoryFits then
        some segment
      else none
  | _ => none

/-- The lines of the types. -/
def typeLines (module : Module) : List Line :=
  (entries module.types).zipIdx.map fun (type, index) =>
    ⟨1, "(type " ++ typeName index ++ " " ++ type.text ++ ")"⟩

/-- The lines of the globals, which are numbered on from the imported ones. -/
def globalLines (module : Module) : List Line :=
  ((entries module.globals).zipIdx module.importedGlobals.toNat).map
    fun (item, index) =>
      ⟨1, "(global " ++ globalName index ++ " " ++ item.type.text ++ " " ++
        item.init.text ++ ")"⟩

/-- The lines of the memories. -/
def memoryLines (module : Module) : List Line :=
  match module.foldedData? with
  | some segment => [⟨1, "(memory (data " ++ Quoted.data segment.init ++ "))"⟩]
  | none => (entries module.memories).map fun type => ⟨1, "(memory " ++ type.text ++ ")"⟩

/-- The lines of the tables. -/
def tableLines (module : Module) : List Line :=
  (entries module.tables).map fun type => ⟨1, "(table " ++ type.text ++ ")"⟩

/-- The lines of the data segments that stand on their own. -/
def dataLines (module : Module) : List Line :=
  match module.foldedData? with
  | some _ => []
  | none => (entries module.data).map fun segment => ⟨1, segment.text⟩

/-- The line of the start function. -/
def startLines (module : Module) : List Line :=
  match module.start with
  | some index => [⟨1, "(start " ++ funcName index.toNat ++ ")"⟩]
  | none => []

/-- The lines between the first and the last of a module. -/
def lines (module : Module) : List Line :=
  module.typeLines ++
    importLines 0 0 (entries module.imports) ++
    module.globalLines ++
    (entries module.code).flatMap Func.lines ++
    module.memoryLines ++
    module.tableLines ++
    module.dataLines ++
    ((entries module.exports).map fun item => ⟨1, item.text⟩) ++
    ((entries module.elements).map fun segment => ⟨1, segment.text⟩) ++
    module.startLines

/-- The text of a module. -/
def text (module : Module) : String :=
  let lines := module.lines
  String.join ("(module" :: lines.map Line.render) ++
    (if lines.isEmpty then "" else "\n") ++ ")\n"

end Module

end WebAssembly
