/-!
# Opcodes

The one-byte opcodes of the binary format in the order of their codes. A
single table gives the code, the mnemonic and the kind of immediate of each;
everything else about an opcode is derived from it.
-/

namespace WebAssembly

/-- Shape of the immediate operands that follow an opcode byte. -/
inductive ImmediateKind
  | absent
  | blockType
  | branchDepth
  | branchTable
  | functionIndex
  | callIndirect
  | localIndex
  | globalIndex
  | memoryArg
  | memoryReserved
  | i32
  | i64
  | f32
  | f64
  deriving DecidableEq

/-- The operation of an instruction. -/
inductive Opcode
  | unreachable | nop | block | loop | ifOp | elseOp | endOp | br | brIf | brTable | returnOp
  | call | callIndirect | drop | select | localGet | localSet | localTee | globalGet | globalSet
  | i32Load | i64Load | f32Load | f64Load | i32Load8S | i32Load8U | i32Load16S | i32Load16U
  | i64Load8S | i64Load8U | i64Load16S | i64Load16U | i64Load32S | i64Load32U | i32Store
  | i64Store | f32Store | f64Store | i32Store8 | i32Store16 | i64Store8 | i64Store16
  | i64Store32 | memorySize | memoryGrow | i32Const | i64Const | f32Const | f64Const | i32Eqz
  | i32Eq | i32Ne | i32LtS | i32LtU | i32GtS | i32GtU | i32LeS | i32LeU | i32GeS | i32GeU
  | i64Eqz | i64Eq | i64Ne | i64LtS | i64LtU | i64GtS | i64GtU | i64LeS | i64LeU | i64GeS
  | i64GeU | f32Eq | f32Ne | f32Lt | f32Gt | f32Le | f32Ge | f64Eq | f64Ne | f64Lt | f64Gt
  | f64Le | f64Ge | i32Clz | i32Ctz | i32Popcnt | i32Add | i32Sub | i32Mul | i32DivS | i32DivU
  | i32RemS | i32RemU | i32And | i32Or | i32Xor | i32Shl | i32ShrS | i32ShrU | i32Rotl | i32Rotr
  | i64Clz | i64Ctz | i64Popcnt | i64Add | i64Sub | i64Mul | i64DivS | i64DivU | i64RemS
  | i64RemU | i64And | i64Or | i64Xor | i64Shl | i64ShrS | i64ShrU | i64Rotl | i64Rotr | f32Abs
  | f32Neg | f32Ceil | f32Floor | f32Trunc | f32Nearest | f32Sqrt | f32Add | f32Sub | f32Mul
  | f32Div | f32Min | f32Max | f32Copysign | f64Abs | f64Neg | f64Ceil | f64Floor | f64Trunc
  | f64Nearest | f64Sqrt | f64Add | f64Sub | f64Mul | f64Div | f64Min | f64Max | f64Copysign
  | i32WrapI64 | i32TruncF32S | i32TruncF32U | i32TruncF64S | i32TruncF64U | i64ExtendI32S
  | i64ExtendI32U | i64TruncF32S | i64TruncF32U | i64TruncF64S | i64TruncF64U | f32ConvertI32S
  | f32ConvertI32U | f32ConvertI64S | f32ConvertI64U | f32DemoteF64 | f64ConvertI32S
  | f64ConvertI32U | f64ConvertI64S | f64ConvertI64U | f64PromoteF32 | i32ReinterpretF32
  | i64ReinterpretF64 | f32ReinterpretI32 | f64ReinterpretI64 | i32Extend8S | i32Extend16S
  | i64Extend8S | i64Extend16S | i64Extend32S
  deriving DecidableEq

namespace Opcode

/-- One line of the opcode table. -/
structure Entry where
  code : UInt8
  mnemonic : String
  kind : ImmediateKind

/-- The opcode table. -/
def entry : Opcode → Entry
  | .unreachable => ⟨0x00, "unreachable", .absent⟩
  | .nop => ⟨0x01, "nop", .absent⟩
  | .block => ⟨0x02, "block", .blockType⟩
  | .loop => ⟨0x03, "loop", .blockType⟩
  | .ifOp => ⟨0x04, "if", .blockType⟩
  | .elseOp => ⟨0x05, "else", .absent⟩
  | .endOp => ⟨0x0B, "end", .absent⟩
  | .br => ⟨0x0C, "br", .branchDepth⟩
  | .brIf => ⟨0x0D, "br_if", .branchDepth⟩
  | .brTable => ⟨0x0E, "br_table", .branchTable⟩
  | .returnOp => ⟨0x0F, "return", .absent⟩
  | .call => ⟨0x10, "call", .functionIndex⟩
  | .callIndirect => ⟨0x11, "call_indirect", .callIndirect⟩
  | .drop => ⟨0x1A, "drop", .absent⟩
  | .select => ⟨0x1B, "select", .absent⟩
  | .localGet => ⟨0x20, "local.get", .localIndex⟩
  | .localSet => ⟨0x21, "local.set", .localIndex⟩
  | .localTee => ⟨0x22, "local.tee", .localIndex⟩
  | .globalGet => ⟨0x23, "global.get", .globalIndex⟩
  | .globalSet => ⟨0x24, "global.set", .globalIndex⟩
  | .i32Load => ⟨0x28, "i32.load", .memoryArg⟩
  | .i64Load => ⟨0x29, "i64.load", .memoryArg⟩
  | .f32Load => ⟨0x2A, "f32.load", .memoryArg⟩
  | .f64Load => ⟨0x2B, "f64.load", .memoryArg⟩
  | .i32Load8S => ⟨0x2C, "i32.load8_s", .memoryArg⟩
  | .i32Load8U => ⟨0x2D, "i32.load8_u", .memoryArg⟩
  | .i32Load16S => ⟨0x2E, "i32.load16_s", .memoryArg⟩
  | .i32Load16U => ⟨0x2F, "i32.load16_u", .memoryArg⟩
  | .i64Load8S => ⟨0x30, "i64.load8_s", .memoryArg⟩
  | .i64Load8U => ⟨0x31, "i64.load8_u", .memoryArg⟩
  | .i64Load16S => ⟨0x32, "i64.load16_s", .memoryArg⟩
  | .i64Load16U => ⟨0x33, "i64.load16_u", .memoryArg⟩
  | .i64Load32S => ⟨0x34, "i64.load32_s", .memoryArg⟩
  | .i64Load32U => ⟨0x35, "i64.load32_u", .memoryArg⟩
  | .i32Store => ⟨0x36, "i32.store", .memoryArg⟩
  | .i64Store => ⟨0x37, "i64.store", .memoryArg⟩
  | .f32Store => ⟨0x38, "f32.store", .memoryArg⟩
  | .f64Store => ⟨0x39, "f64.store", .memoryArg⟩
  | .i32Store8 => ⟨0x3A, "i32.store8", .memoryArg⟩
  | .i32Store16 => ⟨0x3B, "i32.store16", .memoryArg⟩
  | .i64Store8 => ⟨0x3C, "i64.store8", .memoryArg⟩
  | .i64Store16 => ⟨0x3D, "i64.store16", .memoryArg⟩
  | .i64Store32 => ⟨0x3E, "i64.store32", .memoryArg⟩
  | .memorySize => ⟨0x3F, "memory.size", .memoryReserved⟩
  | .memoryGrow => ⟨0x40, "memory.grow", .memoryReserved⟩
  | .i32Const => ⟨0x41, "i32.const", .i32⟩
  | .i64Const => ⟨0x42, "i64.const", .i64⟩
  | .f32Const => ⟨0x43, "f32.const", .f32⟩
  | .f64Const => ⟨0x44, "f64.const", .f64⟩
  | .i32Eqz => ⟨0x45, "i32.eqz", .absent⟩
  | .i32Eq => ⟨0x46, "i32.eq", .absent⟩
  | .i32Ne => ⟨0x47, "i32.ne", .absent⟩
  | .i32LtS => ⟨0x48, "i32.lt_s", .absent⟩
  | .i32LtU => ⟨0x49, "i32.lt_u", .absent⟩
  | .i32GtS => ⟨0x4A, "i32.gt_s", .absent⟩
  | .i32GtU => ⟨0x4B, "i32.gt_u", .absent⟩
  | .i32LeS => ⟨0x4C, "i32.le_s", .absent⟩
  | .i32LeU => ⟨0x4D, "i32.le_u", .absent⟩
  | .i32GeS => ⟨0x4E, "i32.ge_s", .absent⟩
  | .i32GeU => ⟨0x4F, "i32.ge_u", .absent⟩
  | .i64Eqz => ⟨0x50, "i64.eqz", .absent⟩
  | .i64Eq => ⟨0x51, "i64.eq", .absent⟩
  | .i64Ne => ⟨0x52, "i64.ne", .absent⟩
  | .i64LtS => ⟨0x53, "i64.lt_s", .absent⟩
  | .i64LtU => ⟨0x54, "i64.lt_u", .absent⟩
  | .i64GtS => ⟨0x55, "i64.gt_s", .absent⟩
  | .i64GtU => ⟨0x56, "i64.gt_u", .absent⟩
  | .i64LeS => ⟨0x57, "i64.le_s", .absent⟩
  | .i64LeU => ⟨0x58, "i64.le_u", .absent⟩
  | .i64GeS => ⟨0x59, "i64.ge_s", .absent⟩
  | .i64GeU => ⟨0x5A, "i64.ge_u", .absent⟩
  | .f32Eq => ⟨0x5B, "f32.eq", .absent⟩
  | .f32Ne => ⟨0x5C, "f32.ne", .absent⟩
  | .f32Lt => ⟨0x5D, "f32.lt", .absent⟩
  | .f32Gt => ⟨0x5E, "f32.gt", .absent⟩
  | .f32Le => ⟨0x5F, "f32.le", .absent⟩
  | .f32Ge => ⟨0x60, "f32.ge", .absent⟩
  | .f64Eq => ⟨0x61, "f64.eq", .absent⟩
  | .f64Ne => ⟨0x62, "f64.ne", .absent⟩
  | .f64Lt => ⟨0x63, "f64.lt", .absent⟩
  | .f64Gt => ⟨0x64, "f64.gt", .absent⟩
  | .f64Le => ⟨0x65, "f64.le", .absent⟩
  | .f64Ge => ⟨0x66, "f64.ge", .absent⟩
  | .i32Clz => ⟨0x67, "i32.clz", .absent⟩
  | .i32Ctz => ⟨0x68, "i32.ctz", .absent⟩
  | .i32Popcnt => ⟨0x69, "i32.popcnt", .absent⟩
  | .i32Add => ⟨0x6A, "i32.add", .absent⟩
  | .i32Sub => ⟨0x6B, "i32.sub", .absent⟩
  | .i32Mul => ⟨0x6C, "i32.mul", .absent⟩
  | .i32DivS => ⟨0x6D, "i32.div_s", .absent⟩
  | .i32DivU => ⟨0x6E, "i32.div_u", .absent⟩
  | .i32RemS => ⟨0x6F, "i32.rem_s", .absent⟩
  | .i32RemU => ⟨0x70, "i32.rem_u", .absent⟩
  | .i32And => ⟨0x71, "i32.and", .absent⟩
  | .i32Or => ⟨0x72, "i32.or", .absent⟩
  | .i32Xor => ⟨0x73, "i32.xor", .absent⟩
  | .i32Shl => ⟨0x74, "i32.shl", .absent⟩
  | .i32ShrS => ⟨0x75, "i32.shr_s", .absent⟩
  | .i32ShrU => ⟨0x76, "i32.shr_u", .absent⟩
  | .i32Rotl => ⟨0x77, "i32.rotl", .absent⟩
  | .i32Rotr => ⟨0x78, "i32.rotr", .absent⟩
  | .i64Clz => ⟨0x79, "i64.clz", .absent⟩
  | .i64Ctz => ⟨0x7A, "i64.ctz", .absent⟩
  | .i64Popcnt => ⟨0x7B, "i64.popcnt", .absent⟩
  | .i64Add => ⟨0x7C, "i64.add", .absent⟩
  | .i64Sub => ⟨0x7D, "i64.sub", .absent⟩
  | .i64Mul => ⟨0x7E, "i64.mul", .absent⟩
  | .i64DivS => ⟨0x7F, "i64.div_s", .absent⟩
  | .i64DivU => ⟨0x80, "i64.div_u", .absent⟩
  | .i64RemS => ⟨0x81, "i64.rem_s", .absent⟩
  | .i64RemU => ⟨0x82, "i64.rem_u", .absent⟩
  | .i64And => ⟨0x83, "i64.and", .absent⟩
  | .i64Or => ⟨0x84, "i64.or", .absent⟩
  | .i64Xor => ⟨0x85, "i64.xor", .absent⟩
  | .i64Shl => ⟨0x86, "i64.shl", .absent⟩
  | .i64ShrS => ⟨0x87, "i64.shr_s", .absent⟩
  | .i64ShrU => ⟨0x88, "i64.shr_u", .absent⟩
  | .i64Rotl => ⟨0x89, "i64.rotl", .absent⟩
  | .i64Rotr => ⟨0x8A, "i64.rotr", .absent⟩
  | .f32Abs => ⟨0x8B, "f32.abs", .absent⟩
  | .f32Neg => ⟨0x8C, "f32.neg", .absent⟩
  | .f32Ceil => ⟨0x8D, "f32.ceil", .absent⟩
  | .f32Floor => ⟨0x8E, "f32.floor", .absent⟩
  | .f32Trunc => ⟨0x8F, "f32.trunc", .absent⟩
  | .f32Nearest => ⟨0x90, "f32.nearest", .absent⟩
  | .f32Sqrt => ⟨0x91, "f32.sqrt", .absent⟩
  | .f32Add => ⟨0x92, "f32.add", .absent⟩
  | .f32Sub => ⟨0x93, "f32.sub", .absent⟩
  | .f32Mul => ⟨0x94, "f32.mul", .absent⟩
  | .f32Div => ⟨0x95, "f32.div", .absent⟩
  | .f32Min => ⟨0x96, "f32.min", .absent⟩
  | .f32Max => ⟨0x97, "f32.max", .absent⟩
  | .f32Copysign => ⟨0x98, "f32.copysign", .absent⟩
  | .f64Abs => ⟨0x99, "f64.abs", .absent⟩
  | .f64Neg => ⟨0x9A, "f64.neg", .absent⟩
  | .f64Ceil => ⟨0x9B, "f64.ceil", .absent⟩
  | .f64Floor => ⟨0x9C, "f64.floor", .absent⟩
  | .f64Trunc => ⟨0x9D, "f64.trunc", .absent⟩
  | .f64Nearest => ⟨0x9E, "f64.nearest", .absent⟩
  | .f64Sqrt => ⟨0x9F, "f64.sqrt", .absent⟩
  | .f64Add => ⟨0xA0, "f64.add", .absent⟩
  | .f64Sub => ⟨0xA1, "f64.sub", .absent⟩
  | .f64Mul => ⟨0xA2, "f64.mul", .absent⟩
  | .f64Div => ⟨0xA3, "f64.div", .absent⟩
  | .f64Min => ⟨0xA4, "f64.min", .absent⟩
  | .f64Max => ⟨0xA5, "f64.max", .absent⟩
  | .f64Copysign => ⟨0xA6, "f64.copysign", .absent⟩
  | .i32WrapI64 => ⟨0xA7, "i32.wrap_i64", .absent⟩
  | .i32TruncF32S => ⟨0xA8, "i32.trunc_f32_s", .absent⟩
  | .i32TruncF32U => ⟨0xA9, "i32.trunc_f32_u", .absent⟩
  | .i32TruncF64S => ⟨0xAA, "i32.trunc_f64_s", .absent⟩
  | .i32TruncF64U => ⟨0xAB, "i32.trunc_f64_u", .absent⟩
  | .i64ExtendI32S => ⟨0xAC, "i64.extend_i32_s", .absent⟩
  | .i64ExtendI32U => ⟨0xAD, "i64.extend_i32_u", .absent⟩
  | .i64TruncF32S => ⟨0xAE, "i64.trunc_f32_s", .absent⟩
  | .i64TruncF32U => ⟨0xAF, "i64.trunc_f32_u", .absent⟩
  | .i64TruncF64S => ⟨0xB0, "i64.trunc_f64_s", .absent⟩
  | .i64TruncF64U => ⟨0xB1, "i64.trunc_f64_u", .absent⟩
  | .f32ConvertI32S => ⟨0xB2, "f32.convert_i32_s", .absent⟩
  | .f32ConvertI32U => ⟨0xB3, "f32.convert_i32_u", .absent⟩
  | .f32ConvertI64S => ⟨0xB4, "f32.convert_i64_s", .absent⟩
  | .f32ConvertI64U => ⟨0xB5, "f32.convert_i64_u", .absent⟩
  | .f32DemoteF64 => ⟨0xB6, "f32.demote_f64", .absent⟩
  | .f64ConvertI32S => ⟨0xB7, "f64.convert_i32_s", .absent⟩
  | .f64ConvertI32U => ⟨0xB8, "f64.convert_i32_u", .absent⟩
  | .f64ConvertI64S => ⟨0xB9, "f64.convert_i64_s", .absent⟩
  | .f64ConvertI64U => ⟨0xBA, "f64.convert_i64_u", .absent⟩
  | .f64PromoteF32 => ⟨0xBB, "f64.promote_f32", .absent⟩
  | .i32ReinterpretF32 => ⟨0xBC, "i32.reinterpret_f32", .absent⟩
  | .i64ReinterpretF64 => ⟨0xBD, "i64.reinterpret_f64", .absent⟩
  | .f32ReinterpretI32 => ⟨0xBE, "f32.reinterpret_i32", .absent⟩
  | .f64ReinterpretI64 => ⟨0xBF, "f64.reinterpret_i64", .absent⟩
  | .i32Extend8S => ⟨0xC0, "i32.extend8_s", .absent⟩
  | .i32Extend16S => ⟨0xC1, "i32.extend16_s", .absent⟩
  | .i64Extend8S => ⟨0xC2, "i64.extend8_s", .absent⟩
  | .i64Extend16S => ⟨0xC3, "i64.extend16_s", .absent⟩
  | .i64Extend32S => ⟨0xC4, "i64.extend32_s", .absent⟩

/-- The byte that stands for an opcode. -/
def code (op : Opcode) : UInt8 := op.entry.code

/-- The name of an opcode in the text format. -/
def mnemonic (op : Opcode) : String := op.entry.mnemonic

/-- The immediate operands that an opcode takes. -/
def immediateKind (op : Opcode) : ImmediateKind := op.entry.kind

/-- Every opcode, in the order of the codes. -/
def all : List Opcode :=
  [.unreachable, .nop, .block, .loop, .ifOp, .elseOp, .endOp, .br, .brIf, .brTable, .returnOp,
   .call, .callIndirect, .drop, .select, .localGet, .localSet, .localTee, .globalGet, .globalSet,
   .i32Load, .i64Load, .f32Load, .f64Load, .i32Load8S, .i32Load8U, .i32Load16S, .i32Load16U,
   .i64Load8S, .i64Load8U, .i64Load16S, .i64Load16U, .i64Load32S, .i64Load32U, .i32Store,
   .i64Store, .f32Store, .f64Store, .i32Store8, .i32Store16, .i64Store8, .i64Store16,
   .i64Store32, .memorySize, .memoryGrow, .i32Const, .i64Const, .f32Const, .f64Const, .i32Eqz,
   .i32Eq, .i32Ne, .i32LtS, .i32LtU, .i32GtS, .i32GtU, .i32LeS, .i32LeU, .i32GeS, .i32GeU,
   .i64Eqz, .i64Eq, .i64Ne, .i64LtS, .i64LtU, .i64GtS, .i64GtU, .i64LeS, .i64LeU, .i64GeS,
   .i64GeU, .f32Eq, .f32Ne, .f32Lt, .f32Gt, .f32Le, .f32Ge, .f64Eq, .f64Ne, .f64Lt, .f64Gt,
   .f64Le, .f64Ge, .i32Clz, .i32Ctz, .i32Popcnt, .i32Add, .i32Sub, .i32Mul, .i32DivS, .i32DivU,
   .i32RemS, .i32RemU, .i32And, .i32Or, .i32Xor, .i32Shl, .i32ShrS, .i32ShrU, .i32Rotl, .i32Rotr,
   .i64Clz, .i64Ctz, .i64Popcnt, .i64Add, .i64Sub, .i64Mul, .i64DivS, .i64DivU, .i64RemS,
   .i64RemU, .i64And, .i64Or, .i64Xor, .i64Shl, .i64ShrS, .i64ShrU, .i64Rotl, .i64Rotr, .f32Abs,
   .f32Neg, .f32Ceil, .f32Floor, .f32Trunc, .f32Nearest, .f32Sqrt, .f32Add, .f32Sub, .f32Mul,
   .f32Div, .f32Min, .f32Max, .f32Copysign, .f64Abs, .f64Neg, .f64Ceil, .f64Floor, .f64Trunc,
   .f64Nearest, .f64Sqrt, .f64Add, .f64Sub, .f64Mul, .f64Div, .f64Min, .f64Max, .f64Copysign,
   .i32WrapI64, .i32TruncF32S, .i32TruncF32U, .i32TruncF64S, .i32TruncF64U, .i64ExtendI32S,
   .i64ExtendI32U, .i64TruncF32S, .i64TruncF32U, .i64TruncF64S, .i64TruncF64U, .f32ConvertI32S,
   .f32ConvertI32U, .f32ConvertI64S, .f32ConvertI64U, .f32DemoteF64, .f64ConvertI32S,
   .f64ConvertI32U, .f64ConvertI64S, .f64ConvertI64U, .f64PromoteF32, .i32ReinterpretF32,
   .i64ReinterpretF64, .f32ReinterpretI32, .f64ReinterpretI64, .i32Extend8S, .i32Extend16S,
   .i64Extend8S, .i64Extend16S, .i64Extend32S]

/-- The opcode that a byte stands for. -/
def ofCode? (byte : UInt8) : Option Opcode :=
  all.find? fun op => op.code == byte

/-- The list of opcodes is complete. -/
theorem mem_all (op : Opcode) : op ∈ all := by
  have position : all[op.ctorIdx]? = some op := by cases op <;> rfl
  exact List.mem_of_getElem? position

/-- No two opcodes of the table share a code. -/
theorem code_table_recognized :
    (all.all fun op => ofCode? op.code == some op) = true := by
  decide +kernel

@[simp] theorem ofCode?_code (op : Opcode) : ofCode? op.code = some op := by
  simpa using List.all_eq_true.mp code_table_recognized op op.mem_all

/-- The base two logarithm of the access width, which is the alignment assumed
where none is written. Opcodes that access no memory count as four bytes wide. -/
def naturalAlignment : Opcode → UInt32
  | .i32Load8S | .i32Load8U | .i64Load8S | .i64Load8U | .i32Store8 | .i64Store8 => 0
  | .i32Load16S | .i32Load16U | .i64Load16S | .i64Load16U | .i32Store16 | .i64Store16 => 1
  | .i64Load | .f64Load | .i64Store | .f64Store => 3
  | _ => 2

/-- Whether an opcode starts a nested scope. -/
def opensBlock : Opcode → Bool
  | .block | .loop | .ifOp | .elseOp => true
  | _ => false

end Opcode

end WebAssembly
