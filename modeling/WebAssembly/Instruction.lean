import WebAssembly.Types
import WebAssembly.Opcode

/-!
# Instructions

An instruction is an opcode together with one immediate. Constant expressions
are the single instructions that initialize globals and place segments.

Instructions form a flat sequence in the binary, in which block openers,
`else` and `end` bracket nested scopes. `Scope.effect` is the rule that
follows the open scopes through such a sequence.
-/

namespace WebAssembly

/-- The result of a block: nothing or one value. -/
inductive BlockType
  | empty
  | value (type : ValueType)
  deriving DecidableEq

/-- The static part of a memory address; `align` is a base two logarithm. -/
structure MemoryArg where
  align : UInt32
  offset : UInt32
  deriving DecidableEq

/-- The immediate operand of an instruction. Floats are raw bit patterns. -/
inductive Immediate
  | absent
  | block (type : BlockType)
  | branchDepth (depth : UInt32)
  | branchTable (targets : List UInt32) (fallback : UInt32)
  | functionIndex (index : UInt32)
  | typeIndex (index : UInt32)
  | localIndex (index : UInt32)
  | globalIndex (index : UInt32)
  | memory (argument : MemoryArg)
  | i32 (value : Int32)
  | i64 (value : Int64)
  | f32 (bits : UInt32)
  | f64 (bits : UInt64)
  deriving DecidableEq

/-- One instruction. -/
structure Instruction where
  opcode : Opcode
  immediate : Immediate
  deriving DecidableEq

/-- A constant expression: one instruction, with the `end` left implicit. -/
structure ConstExpr where
  instruction : Instruction
  size : Nat
  deriving DecidableEq

/-- Bounds of the indices that an instruction may refer to. -/
structure IndexSpace where
  types : UInt32
  functions : UInt32
  globals : UInt32
  locals : UInt32
  deriving DecidableEq

/-- What an open scope may still meet: `else` may only follow an `if` that has
none yet. -/
inductive Scope
  | plain
  | conditional
  deriving DecidableEq

namespace Scope

/-- The outcome of passing one opcode. -/
inductive Effect
  /-- The sequence goes on within these scopes, innermost first. -/
  | within (scopes : List Scope)
  /-- The opcode is the `end` of the whole sequence. -/
  | closesSequence
  /-- The opcode is an `else` that belongs to no `if`. -/
  | strayElse
  deriving DecidableEq

/-- How an opcode changes the open scopes, innermost first. -/
def effect (scopes : List Scope) : Opcode → Effect
  | .endOp =>
      match scopes with
      | [] => .closesSequence
      | _ :: outer => .within outer
  | .elseOp =>
      match scopes with
      | .conditional :: outer => .within (.plain :: outer)
      | _ => .strayElse
  | .block | .loop => .within (.plain :: scopes)
  | .ifOp => .within (.conditional :: scopes)
  | _ => .within scopes

@[simp] theorem effect_endOp_nil :
    effect [] .endOp = .closesSequence := rfl

@[simp] theorem effect_endOp_cons (scope : Scope) (outer : List Scope) :
    effect (scope :: outer) .endOp = .within outer := rfl

@[simp] theorem effect_elseOp_nil :
    effect [] .elseOp = .strayElse := rfl

@[simp] theorem effect_elseOp_plain (outer : List Scope) :
    effect (.plain :: outer) .elseOp = .strayElse := rfl

@[simp] theorem effect_elseOp_conditional (outer : List Scope) :
    effect (.conditional :: outer) .elseOp = .within (.plain :: outer) := rfl

@[simp] theorem effect_block (scopes : List Scope) :
    effect scopes .block = .within (.plain :: scopes) := rfl

@[simp] theorem effect_loop (scopes : List Scope) :
    effect scopes .loop = .within (.plain :: scopes) := rfl

@[simp] theorem effect_ifOp (scopes : List Scope) :
    effect scopes .ifOp = .within (.conditional :: scopes) := rfl

end Scope

end WebAssembly
