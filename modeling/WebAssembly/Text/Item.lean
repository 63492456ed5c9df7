import WebAssembly.Module
import WebAssembly.Text.Float
import WebAssembly.Text.Quoted

/-!
# The text of single items

Entities are named by their indices: `$t` for types, `$f` for functions, `$g`
for globals, `$p` for params and `$l` for the other locals.
-/

namespace WebAssembly

-- Whatever else is imported, powers are those of the core library.
attribute [local instance (high)] instPowNat

/-- The name of a type. -/
def typeName (index : Nat) : String := "$t" ++ toString index

/-- The name of a function. -/
def funcName (index : Nat) : String := "$f" ++ toString index

/-- The name of a global. -/
def globalName (index : Nat) : String := "$g" ++ toString index

/-- The name of a local of a function with some params. -/
def localName (params index : Nat) : String :=
  (if index < params then "$p" else "$l") ++ toString index

/-- The minimum, followed by the maximum if there is one. -/
def Limits.text (limits : Limits) : String :=
  toString limits.min.toNat ++
    match limits.max with
    | none => ""
    | some max => " " ++ toString max.toNat

/-- The limits and the element type of a table. -/
def TableType.text (type : TableType) : String :=
  match type.elemType with
  | .funcref => type.limits.text ++ " funcref"

/-- The limits of a memory. -/
def MemoryType.text (type : MemoryType) : String := type.limits.text

/-- The type of a global, marked if it is mutable. -/
def GlobalType.text (type : GlobalType) : String :=
  match type.mutability with
  | .const => type.contentType.name
  | .var => "(mut " ++ type.contentType.name ++ ")"

/-- The results of a function, a field for each. -/
def resultFields (results : List ValueType) : String :=
  String.join (results.map fun type => " (result " ++ type.name ++ ")")

/-- A signature without names. -/
def FuncType.text (type : FuncType) : String :=
  "(func" ++ String.join (type.params.map fun param => " (param " ++ param.name ++ ")") ++
    resultFields type.results ++ ")"

/-- The immediate of an instruction behind its mnemonic, in a function with some
params. The alignment of a memory access is written unless it is the natural
one, and exponents from 63 on are written alike. -/
def Immediate.text (op : Opcode) (params : Nat) : Immediate → String
  | .absent => ""
  | .block .empty => ""
  | .block (.value type) => " (result " ++ type.name ++ ")"
  | .branchDepth depth => " " ++ toString depth.toNat
  | .branchTable targets fallback =>
      String.join (targets.map fun target => " " ++ toString target.toNat) ++
        " " ++ toString fallback.toNat
  | .functionIndex index => " " ++ funcName index.toNat
  | .typeIndex index => " (type " ++ typeName index.toNat ++ ")"
  | .localIndex index => " " ++ localName params index.toNat
  | .globalIndex index => " " ++ globalName index.toNat
  | .memory argument =>
      (if argument.offset = 0 then ""
        else " offset=" ++ toString argument.offset.toNat) ++
      (if argument.align = op.naturalAlignment then ""
        else " align=" ++ toString (2 ^ min argument.align.toNat 63))
  | .i32 value => " " ++ toString value.toInt
  | .i64 value => " " ++ toString value.toInt
  | .f32 bits => " " ++ f32Literal bits
  | .f64 bits => " " ++ f64Literal bits

/-- An instruction of a function with some params. -/
def Instruction.text (params : Nat) (instruction : Instruction) : String :=
  instruction.opcode.mnemonic ++ instruction.immediate.text instruction.opcode params

/-- The immediate of a constant expression; one that no constant expression has
is left out. -/
def Immediate.constText : Immediate → String
  | .i32 value => " " ++ toString value.toInt
  | .i64 value => " " ++ toString value.toInt
  | .f32 bits => " " ++ f32Literal bits
  | .f64 bits => " " ++ f64Literal bits
  | .globalIndex index => " " ++ globalName index.toNat
  | _ => ""

/-- A constant expression. -/
def ConstExpr.text (expr : ConstExpr) : String :=
  "(" ++ expr.instruction.opcode.mnemonic ++ expr.instruction.immediate.constText ++ ")"

/-- An element segment. -/
def ElementSegment.text (segment : ElementSegment) : String :=
  "(elem " ++ segment.offset.text ++
    String.join (segment.init.map fun index => " " ++ funcName index.toNat) ++ ")"

/-- A data segment. -/
def DataSegment.text (segment : DataSegment) : String :=
  "(data " ++ segment.offset.text ++ " " ++ Quoted.data segment.init ++ ")"

/-- What is exported. -/
def ExportDesc.text : ExportDesc → String
  | .func index => "(func " ++ funcName index.toNat ++ ")"
  | .table index => "(table " ++ toString index.toNat ++ ")"
  | .memory index => "(memory " ++ toString index.toNat ++ ")"
  | .global index => "(global " ++ globalName index.toNat ++ ")"

/-- An export. -/
def Export.text (item : Export) : String :=
  "(export " ++ Quoted.name item.name ++ " " ++ item.desc.text ++ ")"

end WebAssembly
