/-!
# Types of a WebAssembly module

Value types, function signatures, limits, and the types of tables, memories
and globals. Every compound type carries `size`, the number of bytes it
occupied in the binary it was decoded from; the size has no influence on the
text of a module.
-/

namespace WebAssembly

/-- A type code of the binary format. Only the four number types may describe
parameters, results, locals, globals and block results. -/
inductive ValueType
  | i32
  | i64
  | f32
  | f64
  | anyfunc
  | func
  | pseudoType
  deriving DecidableEq

namespace ValueType

/-- Every value type, number types first. -/
def all : List ValueType :=
  [.i32, .i64, .f32, .f64, .anyfunc, .func, .pseudoType]

/-- The byte that stands for a value type. -/
def code : ValueType → UInt8
  | .i32 => 0x7F
  | .i64 => 0x7E
  | .f32 => 0x7D
  | .f64 => 0x7C
  | .anyfunc => 0x70
  | .func => 0x60
  | .pseudoType => 0x40

/-- The value type that a byte stands for. -/
def ofCode? (byte : UInt8) : Option ValueType :=
  all.find? fun type => type.code == byte

@[simp] theorem ofCode?_code (type : ValueType) :
    ofCode? type.code = some type := by
  cases type <;> rfl

/-- The name of a value type in the text format. -/
def name : ValueType → String
  | .i32 => "i32"
  | .i64 => "i64"
  | .f32 => "f32"
  | .f64 => "f64"
  | .anyfunc => "anyfunc"
  | .func => "func"
  | .pseudoType => "pseudo_type"

/-- Whether a value of this type is a number. -/
def isNumber : ValueType → Bool
  | .i32 | .i64 | .f32 | .f64 => true
  | .anyfunc | .func | .pseudoType => false

end ValueType

/-- A function signature. -/
structure FuncType where
  params : List ValueType
  results : List ValueType
  size : Nat
  deriving DecidableEq

/-- The type of the elements of a table. -/
inductive ElemType
  | funcref
  deriving DecidableEq

namespace ElemType

/-- The byte that stands for an element type. -/
def code : ElemType → UInt8
  | .funcref => 0x70

/-- The element type that a byte stands for. -/
def ofCode? (byte : UInt8) : Option ElemType :=
  [ElemType.funcref].find? fun type => type.code == byte

@[simp] theorem ofCode?_code (type : ElemType) :
    ofCode? type.code = some type := by
  cases type
  rfl

end ElemType

/-- The least and, if bounded, the greatest size of a table or memory. -/
structure Limits where
  min : UInt32
  max : Option UInt32
  size : Nat
  deriving DecidableEq

/-- The type of a table. -/
structure TableType where
  elemType : ElemType
  limits : Limits
  size : Nat
  deriving DecidableEq

/-- The type of a memory; its limits count pages. -/
structure MemoryType where
  limits : Limits
  size : Nat
  deriving DecidableEq

/-- Whether a global may be assigned to. -/
inductive Mutability
  | const
  | var
  deriving DecidableEq

namespace Mutability

/-- The byte that stands for a mutability. -/
def code : Mutability → UInt8
  | .const => 0x00
  | .var => 0x01

/-- The mutability that a byte stands for. -/
def ofCode? (byte : UInt8) : Option Mutability :=
  [Mutability.const, .var].find? fun mutability => mutability.code == byte

@[simp] theorem ofCode?_code (mutability : Mutability) :
    ofCode? mutability.code = some mutability := by
  cases mutability <;> rfl

end Mutability

/-- The type of a global variable. -/
structure GlobalType where
  contentType : ValueType
  mutability : Mutability
  size : Nat
  deriving DecidableEq

end WebAssembly
