import WebAssembly.Decode.Types

/-!
# Decoding instructions

A single instruction, the instruction sequence of a body, and a constant
expression. Indices are checked against an `IndexSpace` as they are read.
-/

namespace WebAssembly

open Decode

variable {ρ : Type} [Source ρ]

/-- Read the type of a block. Nothing is read if the next byte is no such type. -/
def BlockType.decode : Decode ρ BlockType := do
  match ← peek with
  | none => fail (.unbalancedBlock (← position))
  | some 0x40 => do
      let _ ← byte
      return .empty
  | some code =>
      match (ValueType.ofCode? code).filter ValueType.isNumber with
      | some type => do
          let _ ← byte
          return .value type
      | none => fail (.invalidBlockType code)

/-- Read the alignment and the offset of a memory access. -/
def MemoryArg.decode : Decode ρ MemoryArg := do
  let align ← u32
  let offset ← u32
  return { align, offset }

/-- Read the immediate of an instruction. -/
def Immediate.decode (space : IndexSpace) : ImmediateKind → Decode ρ Immediate
  | .absent => return .absent
  | .blockType => return .block (← BlockType.decode)
  | .branchDepth => return .branchDepth (← u32)
  | .branchTable => do
      let targets ← counted u32
      let fallback ← u32
      return .branchTable targets fallback
  | .functionIndex =>
      return .functionIndex (← indexBelow space.functions .invalidFunctionIndex)
  | .callIndirect => do
      let index ← indexBelow space.types .invalidTypeIndex
      reservedByte
      return .typeIndex index
  | .localIndex => return .localIndex (← indexBelow space.locals .invalidLocalIndex)
  | .globalIndex => return .globalIndex (← indexBelow space.globals .invalidGlobalIndex)
  | .memoryArg => return .memory (← MemoryArg.decode)
  | .memoryReserved => do
      reservedByte
      return .absent
  | .i32 => return .i32 (← Decode.i32)
  | .i64 => return .i64 (← Decode.i64)
  | .f32 => return .f32 (← Decode.f32)
  | .f64 => return .f64 (← Decode.f64)

/-- Read one instruction. -/
def Instruction.decode (space : IndexSpace) : Decode ρ Instruction := do
  let offset ← position
  let code ← byte
  let opcode ← requireSome (Opcode.ofCode? code) (.unknownOpcode code offset)
  let immediate ← Immediate.decode space opcode.immediateKind
  return { opcode, immediate }

/-- A sequence of instructions in the middle of being read: the open scopes,
innermost first, and the instructions read so far, last first. -/
structure OpenSequence where
  scopes : List Scope
  reversed : List Instruction

/-- Read one more instruction of a sequence, which may be its last one. -/
def OpenSequence.step
    (space : IndexSpace)
    (sequence : OpenSequence) :
    Decode ρ (OpenSequence ⊕ List Instruction) := do
  let offset ← position
  let instruction ← Instruction.decode space
  match Scope.effect sequence.scopes instruction.opcode with
  | .within scopes => return .inl ⟨scopes, instruction :: sequence.reversed⟩
  | .closesSequence => return .inr sequence.reversed.reverse
  | .strayElse => fail (.unexpectedElse offset)

/-- Read instructions up to the `end` that matches no opener among them, which
is not part of the result. -/
def Instruction.decodeSequence (space : IndexSpace) : Decode ρ (List Instruction) :=
  stepUntilEnd
    (fun _ => do fail (.unbalancedBlock (← position)))
    (OpenSequence.step space)
    ⟨[], []⟩

/-- The opcodes that may form a constant expression. -/
def Opcode.isConstant : Opcode → Bool
  | .i32Const | .i64Const | .f32Const | .f64Const | .globalGet => true
  | _ => false

/-- Read the rest of an instruction that may form a constant expression, behind
its code. The first `globals` globals may be referred to. -/
def ConstExpr.decodeInstruction (globals : UInt32) (code : UInt8) : Decode ρ Instruction :=
  match Opcode.ofCode? code with
  | some .i32Const => return ⟨.i32Const, .i32 (← Decode.i32)⟩
  | some .i64Const => return ⟨.i64Const, .i64 (← Decode.i64)⟩
  | some .f32Const => return ⟨.f32Const, .f32 (← Decode.f32)⟩
  | some .f64Const => return ⟨.f64Const, .f64 (← Decode.f64)⟩
  | some .globalGet =>
      return ⟨.globalGet, .globalIndex (← indexBelow globals .invalidGlobalIndex)⟩
  | _ => fail (.invalidConstExpr code)

/-- Read a constant expression that may refer to the first `globals` globals. -/
def ConstExpr.decode (globals : UInt32) : Decode ρ ConstExpr := sized do
  let instruction ← decodeInstruction globals (← byte)
  let last ← byte
  require (Opcode.ofCode? last == some .endOp) (.invalidConstExpr last)
  return fun size => { instruction, size }

end WebAssembly
