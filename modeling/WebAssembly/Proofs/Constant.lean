import WebAssembly.Proofs.Orderly

/-!
# Constant expressions are sequences of one instruction

A constant expression has a decoder of its own, which knows five opcodes and reads a
single instruction. It accepts what the decoder of sequences reads as just one such
instruction, and it refuses an immediate in the same way.
-/

namespace WebAssembly

open Decode
open Layout (spans_append)

/-- Constant instructions neither open, divide nor close a scope. -/
theorem Opcode.isPlain_of_isConstant {op : Opcode} (constant : op.isConstant = true) :
    op.IsPlain := by
  have among := mem_constants_of_isConstant constant
  simp only [List.mem_cons, List.not_mem_nil, or_false] at among
  obtain rfl | rfl | rfl | rfl | rfl := among <;> exact ⟨rfl, nofun⟩

namespace ConstExpr

variable (globals : UInt32)

/-- A sequence of one constant instruction is laid out like the expression that it
forms. -/
theorem decode_eq_ok_iff_decodeSequence
    (expression : ConstExpr)
    (reader after : Reader) :
    decode globals reader = .ok expression after ↔
      Instruction.decodeSequence (.ofGlobals globals) reader = .ok [expression.instruction] after ∧
        expression.instruction.opcode.isConstant = true ∧
        expression.size = after.position - reader.position := by
  have sameBounds : (IndexSpace.ofGlobals globals).bounds =
      { types := 0, functions := 0, globals := globals.toNat, locals := 0 } := rfl
  have sameLayout : Instruction.sequenceLayout [expression.instruction] =
      expression.instruction.layout ++ Layout.bytes [] ++ Layout.bytes [Opcode.endOp.code] := rfl
  rw [reads_decode, Instruction.reads_decodeSequence _ _ _ _, sameBounds, sameLayout, layout,
    Layout.spans_measured]
  simp only [spans_append, Layout.spans_bytes, Reader.passes_nil, List.forall_mem_singleton]
  constructor
  · rintro ⟨⟨constant, admissible⟩, ⟨middle, spans, ending⟩, size⟩
    have bracketed : Bracketed [expression.instruction.opcode] :=
      .plain (Opcode.isPlain_of_isConstant constant) .nil
    exact ⟨⟨⟨admissible, bracketed⟩, middle, ⟨middle, spans, rfl⟩, ending⟩, constant, size.symm⟩
  · rintro ⟨⟨⟨admissible, -⟩, _, ⟨middle, spans, rfl⟩, ending⟩, constant, size⟩
    exact ⟨⟨constant, admissible⟩, ⟨middle, spans, ending⟩, size.symm⟩

section Refused

variable {op : Opcode} {position : Nat} {rest : List UInt8} {failure : Failure} {after : Reader}

/-- The two readings of an immediate refuse it alike. -/
theorem decodeInstruction_eq_error_iff (constant : op.isConstant = true) (reader : Reader) :
    decodeInstruction globals op.code reader = .error failure after ↔
      Immediate.decode (.ofGlobals globals) op.immediateKind reader = .error failure after := by
  rw [decodeInstruction_of_isConstant globals constant, bind_pure_eq_error_iff]

/-- A refused immediate fails a constant expression. -/
theorem decode_of_immediate_error
    (constant : op.isConstant = true)
    (refused : Immediate.decode (.ofGlobals globals) op.immediateKind ⟨position + 1, rest⟩ =
      .error failure after) :
    decode globals ⟨position, op.code :: rest⟩ = .error failure after := by
  have failed := (decodeInstruction_eq_error_iff globals constant _).mpr refused
  refine (sized_eq_error_iff _ _ _ _).mpr ?_
  rw [bind_of_ok (byte_cons _ _ _), bind_of_error failed]

/-- A refused immediate fails a sequence in the same way. -/
theorem decodeSequence_of_immediate_error
    {space : IndexSpace}
    (refused : Immediate.decode space op.immediateKind ⟨position + 1, rest⟩ =
      .error failure after) :
    Instruction.decodeSequence space ⟨position, op.code :: rest⟩ = .error failure after := by
  have known : requireSome (Opcode.ofCode? op.code) (.unknownOpcode op.code position)
      (Reader.mk (position + 1) rest) = .ok op (Reader.mk (position + 1) rest) := by
    simp
  refine OpenSequence.resume_of_error ⟨[], []⟩ Bool.false_ne_true ?_
  unfold Instruction.decode
  rw [bind_of_ok (position_apply _), bind_of_ok (byte_cons _ _ _), bind_of_ok known,
    bind_of_error refused]

end Refused

/-- The decoder of constant expressions and that of sequences agree. An expression is
decoded exactly where a sequence of just its instruction is, and it is as large as
what was read. If the immediate of a constant instruction is refused in either
decoder, then both fail with that failure. -/
theorem decode_agrees_with_decodeSequence (reader : Reader) :
    let space : IndexSpace := { types := 0, functions := 0, globals, locals := 0 }
    let constants : List Opcode := [.i32Const, .i64Const, .f32Const, .f64Const, .globalGet]
    (∀ expression after,
      decode globals reader = .ok expression after ↔
        Instruction.decodeSequence space reader = .ok [expression.instruction] after ∧
          expression.instruction.opcode ∈ constants ∧
          expression.size = after.position - reader.position) ∧
    ∀ op ∈ constants, ∀ rest failure after,
      reader.unread = op.code :: rest →
      Immediate.decode space op.immediateKind (reader.advance 1) = .error failure after ∨
          decodeInstruction globals op.code (reader.advance 1) = .error failure after →
        decode globals reader = .error failure after ∧
          Instruction.decodeSequence space reader = .error failure after := by
  intro space constants
  have constant_iff (op : Opcode) : op ∈ constants ↔ op.isConstant = true := by
    refine ⟨fun among => ?_, Opcode.mem_constants_of_isConstant⟩
    simp only [constants, List.mem_cons, List.not_mem_nil, or_false] at among
    obtain rfl | rfl | rfl | rfl | rfl := among <;> rfl
  constructor
  · intro expression after
    rw [constant_iff]
    exact decode_eq_ok_iff_decodeSequence globals expression reader after
  · intro op among rest failure after unread refused
    have constant := (constant_iff op).mp among
    obtain ⟨position, bytes⟩ := reader
    obtain rfl : bytes = op.code :: rest := unread
    have immediate : Immediate.decode space op.immediateKind ⟨position + 1, rest⟩ =
        .error failure after :=
      refused.elim id (decodeInstruction_eq_error_iff globals constant _).mp
    exact ⟨decode_of_immediate_error globals constant immediate,
      decodeSequence_of_immediate_error immediate⟩

/-- The first global is read, by a padded index, and the second is refused where there
is only one. -/
theorem decode_agrees_on_first_global :
    let space : IndexSpace := { types := 0, functions := 0, globals := 1, locals := 0 }
    let expression : ConstExpr := ⟨⟨.globalGet, .globalIndex 0⟩, 4⟩
    let failure := Failure.ofCause (.invalidGlobalIndex 1)
    decode 1 ⟨7, [0x23, 0x80, 0x00, 0x0B, 0xFF]⟩ = .ok expression ⟨11, [0xFF]⟩ ∧
      Instruction.decodeSequence space ⟨7, [0x23, 0x80, 0x00, 0x0B, 0xFF]⟩ =
        .ok [expression.instruction] ⟨11, [0xFF]⟩ ∧
      decode 1 ⟨7, [0x23, 0x01, 0x0B]⟩ = .error failure ⟨9, [0x0B]⟩ ∧
      Instruction.decodeSequence space ⟨7, [0x23, 0x01, 0x0B]⟩ = .error failure ⟨9, [0x0B]⟩ := by
  intro space expression failure
  have decoded : decode 1 ⟨7, [0x23, 0x80, 0x00, 0x0B, 0xFF]⟩ = .ok expression ⟨11, [0xFF]⟩ :=
    rfl
  have refused : Immediate.decode space Opcode.globalGet.immediateKind ⟨8, [0x01, 0x0B]⟩ =
      .error failure ⟨9, [0x0B]⟩ :=
    rfl
  have sequence := ((decode_agrees_with_decodeSequence 1 _).1 _ _).mp decoded
  have failed := (decode_agrees_with_decodeSequence 1 ⟨7, [0x23, 0x01, 0x0B]⟩).2
    .globalGet (by simp) _ _ _ rfl (.inl refused)
  exact ⟨decoded, sequence.1, failed⟩

end ConstExpr

end WebAssembly
