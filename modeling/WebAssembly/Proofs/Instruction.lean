import WebAssembly.Proofs.Types

/-!
# Decoding an instruction reads its layout

An instruction is admissible within some bounds if its immediate is of the kind
that its opcode takes, indices are below their bounds, and the type of a block
is empty or a number. The decoder accepts the layouts of the admissible
instructions, and of constant expressions made of them.
-/

namespace WebAssembly

open Decode
open Layout (spans_append spans_measured)

/-- Bounds of indices, as natural numbers. -/
structure IndexBounds where
  types : Nat
  functions : Nat
  globals : Nat
  locals : Nat

/-- The bounds that an index space holds. -/
def IndexSpace.bounds (space : IndexSpace) : IndexBounds where
  types := space.types.toNat
  functions := space.functions.toNat
  globals := space.globals.toNat
  locals := space.locals.toNat

theorem Opcode.ofCode?_eq_some_iff (byte : UInt8) (op : Opcode) :
    ofCode? byte = some op ↔ byte = op.code :=
  ⟨eq_code_of_find?_eq_some, fun same => same ▸ ofCode?_code op⟩

/-- The byte that stands for the type of a block. -/
def BlockType.code : BlockType → UInt8
  | .empty => 0x40
  | .value type => type.code

/-- A block yields nothing or a number. -/
def BlockType.Valid : BlockType → Prop
  | .empty => True
  | .value type => type.isNumber = true

/-- An immediate is of the kind that an opcode takes. -/
def Immediate.Suits (kind : ImmediateKind) : Immediate → Prop
  | .absent => kind = .absent ∨ kind = .memoryReserved
  | .block _ => kind = .blockType
  | .branchDepth _ => kind = .branchDepth
  | .branchTable _ _ => kind = .branchTable
  | .functionIndex _ => kind = .functionIndex
  | .typeIndex _ => kind = .callIndirect
  | .localIndex _ => kind = .localIndex
  | .globalIndex _ => kind = .globalIndex
  | .memory _ => kind = .memoryArg
  | .i32 _ => kind = .i32
  | .i64 _ => kind = .i64
  | .f32 _ => kind = .f32
  | .f64 _ => kind = .f64

/-- The index in an immediate is below its bound, the type of a block valid. -/
def Immediate.InRange (bounds : IndexBounds) : Immediate → Prop
  | .block type => type.Valid
  | .functionIndex index => index.toNat < bounds.functions
  | .typeIndex index => index.toNat < bounds.types
  | .localIndex index => index.toNat < bounds.locals
  | .globalIndex index => index.toNat < bounds.globals
  | _ => True

/-- An immediate is of the kind that its opcode takes and within bounds. -/
def Immediate.Admissible
    (bounds : IndexBounds)
    (kind : ImmediateKind)
    (immediate : Immediate) :
    Prop :=
  immediate.Suits kind ∧ immediate.InRange bounds

/-- An instruction has an immediate that suits its opcode and is within bounds. -/
def Instruction.Admissible (bounds : IndexBounds) (instruction : Instruction) : Prop :=
  instruction.immediate.Admissible bounds instruction.opcode.immediateKind

/-- No number type is written like a block without a result. -/
theorem ValueType.code_ne_of_isNumber {type : ValueType} :
    type.isNumber = true → type.code ≠ 0x40 := by
  cases type <;> decide

/-- A missing block type is reported as a missing end. -/
theorem BlockType.decode_nil (position : Nat) :
    decode ⟨position, []⟩ =
      .error (.ofCause (.unbalancedBlock position)) ⟨position, []⟩ := rfl

/-- The byte of a block type is judged as such. -/
theorem BlockType.decode_cons (position : Nat) (code : UInt8) (rest : List UInt8) :
    decode ⟨position, code :: rest⟩ =
      if code = 0x40 then .ok .empty ⟨position + 1, rest⟩
      else
        match (ValueType.ofCode? code).filter ValueType.isNumber with
        | some type => .ok (.value type) ⟨position + 1, rest⟩
        | none => .error (.ofCause (.invalidBlockType code)) ⟨position, code :: rest⟩ := by
  by_cases isEmpty : code = 0x40
  · subst isEmpty
    rfl
  · have peeked : peek ⟨position, code :: rest⟩ = .ok (some code) ⟨position, code :: rest⟩ := rfl
    unfold decode
    rw [bind_of_ok peeked, if_neg isEmpty]
    cases known : (ValueType.ofCode? code).filter ValueType.isNumber with
    | none => simp only [known, fail_apply]
    | some type =>
        simp only [known]
        rfl

theorem BlockType.reads_decode : decode.Reads layout Valid := by
  intro type reader after
  obtain ⟨position, unread⟩ := reader
  have spansIff : type.layout.Spans ⟨position, unread⟩ after ↔
      byte ⟨position, unread⟩ = .ok type.code after := by
    rw [byte_eq_ok_iff]
    cases type <;> rfl
  rw [spansIff]
  cases unread with
  | nil => simp [decode_nil]
  | cons code rest =>
      rw [decode_cons, byte_cons]
      simp only [EStateM.Result.ok.injEq]
      by_cases isEmpty : code = 0x40
      · subst isEmpty
        rw [if_pos rfl, EStateM.Result.ok.injEq]
        constructor
        · rintro ⟨rfl, same⟩
          exact ⟨trivial, rfl, same⟩
        · rintro ⟨valid, sameCode, same⟩
          cases type with
          | empty => exact ⟨rfl, same⟩
          | value number => exact absurd sameCode.symm (ValueType.code_ne_of_isNumber valid)
      · rw [if_neg isEmpty]
        constructor
        · intro decoded
          cases known : (ValueType.ofCode? code).filter ValueType.isNumber with
          | none => simp [known] at decoded
          | some number =>
              simp only [known, EStateM.Result.ok.injEq] at decoded
              obtain ⟨rfl, same⟩ := decoded
              simp only [Option.filter_eq_some_iff, ValueType.ofCode?_eq_some_iff] at known
              exact ⟨known.2, known.1, same⟩
        · rintro ⟨valid, rfl, same⟩
          cases type with
          | empty => exact absurd rfl isEmpty
          | value number =>
              have isNumber : number.isNumber = true := valid
              have known : (ValueType.ofCode? number.code).filter ValueType.isNumber =
                  some number := by
                rw [ValueType.ofCode?_code, Option.filter_some, if_pos isNumber]
              simp only [BlockType.code, known, same]

theorem MemoryArg.reads_decode :
    decode.Reads (fun argument => Layout.word argument.align ++ Layout.word argument.offset)
      fun _ => True := by
  intro argument reader after
  simp only [decode, bind_eq_ok_iff, u32_eq_ok_iff, pure_eq_ok_iff, spans_append, true_and]
  constructor
  · rintro ⟨_, aligned, alignSpans, _, _, offsetSpans, rfl, rfl⟩
    exact ⟨aligned, alignSpans, offsetSpans⟩
  · rintro ⟨aligned, alignSpans, offsetSpans⟩
    exact ⟨_, aligned, alignSpans, _, after, offsetSpans, rfl, rfl⟩

/-- Immediates are read from the layout of their kind, if their indices are in range. -/
theorem Immediate.reads_decode (space : IndexSpace) (kind : ImmediateKind) :
    (decode space kind).Reads (layout kind) (Admissible space.bounds kind) := by
  intro immediate reader after
  cases kind with
  | absent | branchDepth | memoryReserved | i32 | i64 | f32 | f64 =>
      cases immediate <;> simp [decode, Admissible, Suits, InRange, layout, map_eq_ok_iff]
  | blockType =>
      cases immediate <;>
        simp [decode, Admissible, Suits, InRange, layout, map_eq_ok_iff,
          BlockType.reads_decode _ _ _]
  | branchTable =>
      cases immediate <;>
        simp [decode, Admissible, Suits, InRange, layout, bind_eq_ok_iff, map_eq_ok_iff,
          reads_counted reads_u32 _ _ _]
  | functionIndex | localIndex | globalIndex =>
      cases immediate <;>
        simp [decode, Admissible, Suits, InRange, layout, map_eq_ok_iff, reads_indexBelow _ _ _ _ _,
          IndexSpace.bounds, UInt32.lt_iff_toNat_lt]
  | callIndirect =>
      cases immediate <;>
        simp [decode, Admissible, Suits, InRange, layout, bind_eq_ok_iff, map_eq_ok_iff,
          reads_indexBelow _ _ _ _ _, IndexSpace.bounds, UInt32.lt_iff_toNat_lt, and_assoc]
  | memoryArg =>
      cases immediate <;>
        simp [decode, Admissible, Suits, InRange, layout, map_eq_ok_iff,
          MemoryArg.reads_decode _ _ _]

/-- Instructions are read from their layout. -/
theorem Instruction.reads_decode (space : IndexSpace) :
    (decode space).Reads layout (Admissible space.bounds) := by
  intro instruction reader after
  obtain ⟨opcode, immediate⟩ := instruction
  unfold decode
  rw [position_bind_eq_ok_iff]
  simp only [bind_eq_ok_iff, byte_eq_ok_iff,
    requireSome_eq_ok_iff, Opcode.ofCode?_eq_some_iff, Immediate.reads_decode space _ _ _ _,
    pure_eq_ok_iff, layout, spans_append, Admissible, Instruction.mk.injEq]
  constructor
  · rintro ⟨_, coded, codeSpans, _, _, ⟨rfl, rfl⟩, _, _, ⟨admissible, spans⟩, ⟨rfl, rfl⟩, rfl⟩
    exact ⟨admissible, coded, codeSpans, spans⟩
  · rintro ⟨admissible, coded, codeSpans, spans⟩
    exact ⟨_, coded, codeSpans, _, _, ⟨rfl, rfl⟩, _, _, ⟨admissible, spans⟩, ⟨rfl, rfl⟩, rfl⟩

/-- The opcodes that may begin a constant expression take a number or a global. -/
theorem Opcode.immediateKind_of_isConstant {op : Opcode} (constant : op.isConstant = true) :
    op.immediateKind ∈ [.i32, .i64, .f32, .f64, .globalIndex] := by
  have kinds : ∀ op ∈ Opcode.all, op.isConstant = true →
      op.immediateKind ∈ [.i32, .i64, .f32, .f64, .globalIndex] := by
    decide +kernel
  exact kinds op op.mem_all constant

/-- A constant, or the value of one of the first `globals` globals. -/
def ConstExpr.Valid (globals : Nat) (expression : ConstExpr) : Prop :=
  expression.instruction.opcode.isConstant = true ∧
    expression.instruction.Admissible { types := 0, functions := 0, globals, locals := 0 }

/-- The bounds within which constant expressions refer to globals, and to nothing else. -/
def IndexSpace.ofGlobals (globals : UInt32) : IndexSpace :=
  { types := 0, functions := 0, globals, locals := 0 }

/-- There are five opcodes that may begin a constant expression. -/
theorem Opcode.mem_constants_of_isConstant {op : Opcode} (constant : op.isConstant = true) :
    op ∈ [.i32Const, .i64Const, .f32Const, .f64Const, .globalGet] := by
  have among : ∀ op ∈ Opcode.all, op.isConstant = true →
      op ∈ [.i32Const, .i64Const, .f32Const, .f64Const, .globalGet] := by
    decide +kernel
  exact among op op.mem_all constant

/-- Behind the code of a constant instruction its immediate is read as that of any
instruction. -/
theorem ConstExpr.decodeInstruction_of_isConstant
    (globals : UInt32)
    {op : Opcode}
    (constant : op.isConstant = true) :
    decodeInstruction globals op.code =
      (do return ⟨op, ← Immediate.decode (.ofGlobals globals) op.immediateKind⟩) := by
  unfold decodeInstruction
  rw [Opcode.ofCode?_code]
  have among := Opcode.mem_constants_of_isConstant constant
  simp only [List.mem_cons, List.not_mem_nil, or_false] at among
  obtain rfl | rfl | rfl | rfl | rfl := among <;>
    simp only [Opcode.immediateKind, Opcode.entry, Immediate.decode, IndexSpace.ofGlobals,
      bind_assoc, pure_bind]

/-- Any other code is refused. -/
theorem ConstExpr.decodeInstruction_of_not_isConstant
    (globals : UInt32)
    {code : UInt8}
    (others : ∀ op, Opcode.ofCode? code = some op → op.isConstant = false) :
    decodeInstruction globals code = fail (.invalidConstExpr code) := by
  unfold decodeInstruction
  split
  case h_6 => rfl
  all_goals
    rename_i known
    cases others _ known

/-- What is decoded behind a code has an opcode with that code. -/
theorem ConstExpr.decodeInstruction_eq_ok_iff
    (globals : UInt32)
    (code : UInt8)
    (instruction : Instruction)
    (reader after : Reader) :
    decodeInstruction globals code reader = .ok instruction after ↔
      instruction.opcode.isConstant = true ∧ code = instruction.opcode.code ∧
        Immediate.decode (.ofGlobals globals) instruction.opcode.immediateKind reader =
          .ok instruction.immediate after := by
  obtain ⟨opcode, immediate⟩ := instruction
  constructor
  · intro decoded
    by_cases known : ∃ op, Opcode.ofCode? code = some op ∧ op.isConstant = true
    · obtain ⟨op, known, constant⟩ := known
      obtain rfl := (Opcode.ofCode?_eq_some_iff _ _).mp known
      rw [decodeInstruction_of_isConstant globals constant, bind_eq_ok_iff] at decoded
      obtain ⟨_, _, immediateRead, returned⟩ := decoded
      obtain ⟨same, rfl⟩ := (pure_eq_ok_iff _ _ _ _).mp returned
      cases same
      exact ⟨constant, rfl, immediateRead⟩
    · have others (op : Opcode) (same : Opcode.ofCode? code = some op) : op.isConstant = false :=
        Bool.eq_false_iff.mpr fun constant => known ⟨op, same, constant⟩
      simp [decodeInstruction_of_not_isConstant globals others] at decoded
  · rintro ⟨constant, rfl, immediateRead⟩
    rw [decodeInstruction_of_isConstant globals constant, bind_of_ok immediateRead, pure_apply]

/-- Constant expressions are read from their layout, with the size that they have. -/
theorem ConstExpr.reads_decode (globals : UInt32) :
    (decode globals).Reads layout (Valid globals.toNat) := by
  intro expression reader after
  obtain ⟨⟨opcode, immediate⟩, size⟩ := expression
  simp only [decode, sized_eq_ok_iff, bind_eq_ok_iff, byte_eq_ok_iff, decodeInstruction_eq_ok_iff,
    Immediate.reads_decode _ _ _ _, require_eq_ok_iff, beq_iff_eq, Opcode.ofCode?_eq_some_iff,
    pure_eq_ok_iff, layout, Instruction.layout, spans_measured, spans_append, Valid,
    Instruction.Admissible, IndexSpace.bounds, IndexSpace.ofGlobals]
  constructor
  · rintro ⟨_, ⟨_, coded, codeSpans, _, closing, ⟨constant, rfl, admissible, spans⟩, _, _,
      closingSpans, _, _, ⟨rfl, rfl⟩, rfl, rfl⟩, same⟩
    cases same
    exact ⟨⟨constant, admissible⟩, ⟨closing, ⟨coded, codeSpans, spans⟩, closingSpans⟩, rfl⟩
  · rintro ⟨⟨constant, admissible⟩, ⟨closing, ⟨coded, codeSpans, spans⟩, closingSpans⟩, rfl⟩
    exact ⟨_, ⟨_, coded, codeSpans, ⟨opcode, immediate⟩, closing,
      ⟨constant, rfl, admissible, spans⟩, _, _, closingSpans, (), _, ⟨rfl, rfl⟩, rfl, rfl⟩, rfl⟩

end WebAssembly
