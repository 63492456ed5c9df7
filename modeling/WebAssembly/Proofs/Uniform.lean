import WebAssembly.Proofs.Accord
import WebAssembly.Session

/-!
# Every decoder is uniform

Each decoder of the format is made of the operations of its source by combinators
that keep accords. So sources in accord are decoded to the same, and where they
differ only shows in the offset that a cause names.
-/

namespace WebAssembly

open Decode

variable {ρ ς : Type} [Source ρ] [Source ς] {accord : Accord ρ ς}

/-! ## Types -/

/-- The lemmas that follow go through the decoders as these are composed. Each of them
hands on no position but in failures and as a difference. -/
theorem ValueType.uniform_decode : Uniform accord ValueType.decode ValueType.decode :=
  .bind .byte fun _ => .requireSome _ _ fun _ => rfl

theorem ValueType.uniform_decodeNumber :
    Uniform accord ValueType.decodeNumber ValueType.decodeNumber :=
  .bind .byte fun _ => .requireSome _ _ fun _ => rfl

theorem FuncType.uniform_decode : Uniform accord FuncType.decode FuncType.decode := by
  refine .sized (.bind .byte fun form => .bind (.require _ _ fun _ => rfl) fun _ => ?_)
  refine .bind (.counted ValueType.uniform_decodeNumber) fun params => ?_
  refine .bind .u32 fun count => .bind (.require _ _ fun _ => rfl) fun _ => ?_
  exact .bind (.times _ fun _ => ValueType.uniform_decodeNumber) fun _ => .pure _

theorem Limits.uniform_decode : Uniform accord Limits.decode Limits.decode := by
  refine .sized (.bind .byte fun flag => .bind .u32 fun min => ?_)
  split
  · exact .bind (.pure none) fun _ => .pure _
  · exact .bind (.map some .u32) fun _ => .pure _
  · exact .bind (.fail _ fun _ => rfl) fun _ => .pure _

theorem TableType.uniform_decode : Uniform accord TableType.decode TableType.decode := by
  refine .sized (.bind .byte fun code => .bind (.requireSome _ _ fun _ => rfl) fun elemType => ?_)
  exact .bind Limits.uniform_decode fun _ => .pure _

theorem MemoryType.uniform_decode : Uniform accord MemoryType.decode MemoryType.decode :=
  .bind Limits.uniform_decode fun _ => .pure _

theorem GlobalType.uniform_decode : Uniform accord GlobalType.decode GlobalType.decode := by
  refine .sized (.bind ValueType.uniform_decodeNumber fun contentType => ?_)
  exact .bind .byte fun flag => .bind (.requireSome _ _ fun _ => rfl) fun _ => .pure _

theorem LocalGroup.uniform_decode : Uniform accord LocalGroup.decode LocalGroup.decode :=
  .bind .u32 fun _ => .bind ValueType.uniform_decodeNumber fun _ => .pure _

/-! ## Instructions -/

/-- A missing block type fails at the end of the window, wherever that is. -/
theorem BlockType.uniform_decode : Uniform accord BlockType.decode BlockType.decode := by
  refine .bind .peek fun next => ?_
  split
  · exact .position_bind fun start => Parallel.fail (.unbalancedBlock start)
  · exact .bind .byte fun _ => .pure _
  · split
    · exact .bind .byte fun _ => .pure _
    · exact .fail _ fun _ => rfl

theorem MemoryArg.uniform_decode : Uniform accord MemoryArg.decode MemoryArg.decode :=
  .bind .u32 fun _ => .bind .u32 fun _ => .pure _

/-- An immediate is decoded alike, whatever its kind. -/
theorem Immediate.uniform_decode (space : IndexSpace) (kind : ImmediateKind) :
    Uniform accord (Immediate.decode space kind) (Immediate.decode space kind) := by
  cases kind with
  | absent => exact .pure _
  | blockType => exact .bind BlockType.uniform_decode fun _ => .pure _
  | branchDepth => exact .bind .u32 fun _ => .pure _
  | branchTable => exact .bind (.counted .u32) fun _ => .bind .u32 fun _ => .pure _
  | functionIndex => exact .bind (.indexBelow _ _ fun _ _ => rfl) fun _ => .pure _
  | callIndirect =>
      exact .bind (.indexBelow _ _ fun _ _ => rfl) fun _ => .bind .reservedByte fun _ => .pure _
  | localIndex => exact .bind (.indexBelow _ _ fun _ _ => rfl) fun _ => .pure _
  | globalIndex => exact .bind (.indexBelow _ _ fun _ _ => rfl) fun _ => .pure _
  | memoryArg => exact .bind MemoryArg.uniform_decode fun _ => .pure _
  | memoryReserved => exact .bind .reservedByte fun _ => .pure _
  | i32 => exact .bind .i32 fun _ => .pure _
  | i64 => exact .bind .i64 fun _ => .pure _
  | f32 => exact .bind .f32 fun _ => .pure _
  | f64 => exact .bind .f64 fun _ => .pure _

theorem Instruction.uniform_decode (space : IndexSpace) :
    Uniform accord (Instruction.decode space) (Instruction.decode space) := by
  refine .position_bind fun start => .bind .byte fun code => ?_
  -- the cause names the offset of the opcode, so the two checks are not the same
  have known : Uniform accord
      (requireSome (Opcode.ofCode? code) (.unknownOpcode code (start + accord.distance)))
      (requireSome (Opcode.ofCode? code) (.unknownOpcode code start)) := by
    cases Opcode.ofCode? code with
    | some opcode => exact .pure opcode
    | none => exact Parallel.fail (.unknownOpcode code start)
  exact .bind known fun opcode => .bind (Immediate.uniform_decode space _) fun _ => .pure _

/-- A step through a sequence judges the scopes, which have no position. -/
theorem OpenSequence.uniform_step (space : IndexSpace) (sequence : OpenSequence) :
    Uniform accord (OpenSequence.step space sequence) (OpenSequence.step space sequence) := by
  refine .position_bind fun start =>
    .bind (Instruction.uniform_decode space) fun instruction => ?_
  cases Scope.effect sequence.scopes instruction.opcode with
  | within scopes => exact .pure _
  | closesSequence => exact .pure _
  | strayElse => exact Parallel.fail (.unexpectedElse start)

/-- A sequence runs to the end of the window in as many steps. -/
theorem Instruction.uniform_decodeSequence (space : IndexSpace) :
    Uniform accord (Instruction.decodeSequence space) (Instruction.decodeSequence space) := by
  refine .stepUntilEnd (fun _ => ?_) (OpenSequence.uniform_step space) _
  exact .position_bind fun start => Parallel.fail (.unbalancedBlock start)

/-- An instruction of a constant expression is decoded alike, or its opcode is refused.
-/
theorem ConstExpr.uniform_decodeInstruction (globals : UInt32) (code : UInt8) :
    Uniform accord (ConstExpr.decodeInstruction globals code)
      (ConstExpr.decodeInstruction globals code) := by
  unfold ConstExpr.decodeInstruction
  split
  · exact .bind .i32 fun _ => .pure _
  · exact .bind .i64 fun _ => .pure _
  · exact .bind .f32 fun _ => .pure _
  · exact .bind .f64 fun _ => .pure _
  · exact .bind (.indexBelow _ _ fun _ _ => rfl) fun _ => .pure _
  · exact .fail _ fun _ => rfl

theorem ConstExpr.uniform_decode (globals : UInt32) :
    Uniform accord (ConstExpr.decode globals) (ConstExpr.decode globals) :=
  .sized (.bind .byte fun _ => .bind (ConstExpr.uniform_decodeInstruction _ _) fun _ =>
    .bind .byte fun _ => .bind (.require _ _ fun _ => rfl) fun _ => .pure _)

/-! ## Entries of sections -/

section Entries

variable (module : Module)

theorem ImportDesc.uniform_decode :
    Uniform accord (ImportDesc.decode module) (ImportDesc.decode module) := by
  refine .bind .byte fun kind => ?_
  split
  · exact .bind (.requireSome _ _ fun _ => rfl) fun types => .bind .u32 fun index =>
      .bind (.require _ _ fun _ => rfl) fun _ => .pure _
  · exact .bind TableType.uniform_decode fun _ => .pure _
  · exact .bind MemoryType.uniform_decode fun _ => .pure _
  · exact .bind GlobalType.uniform_decode fun _ => .pure _
  · exact .fail _ fun _ => rfl

theorem Import.uniform_decode : Uniform accord (Import.decode module) (Import.decode module) :=
  .sized (.bind .name fun _ => .bind .name fun _ =>
    .bind (ImportDesc.uniform_decode module) fun _ => .pure _)

theorem Section.uniform_decodeTypeIndex :
    Uniform accord (Section.decodeTypeIndex module) (Section.decodeTypeIndex module) :=
  .bind (.require _ _ fun _ => rfl) fun _ => .indexBelow _ _ fun _ _ => rfl

theorem Global.uniform_decode : Uniform accord (Global.decode module) (Global.decode module) :=
  .sized (.bind GlobalType.uniform_decode fun _ =>
    .bind (ConstExpr.uniform_decode _) fun _ => .pure _)

theorem ExportDesc.uniform_decode :
    Uniform accord (ExportDesc.decode module) (ExportDesc.decode module) := by
  refine .bind .byte fun kind => .bind .u32 fun index => ?_
  split
  · exact .bind (.require _ _ fun _ => rfl) fun _ =>
      .bind (.require _ _ fun _ => rfl) fun _ => .pure _
  · exact .bind (.require _ _ fun _ => rfl) fun _ => .pure _
  · exact .bind (.require _ _ fun _ => rfl) fun _ => .pure _
  · exact .bind (.require _ _ fun _ => rfl) fun _ => .pure _
  · exact .fail _ fun _ => rfl

theorem Export.uniform_decode : Uniform accord (Export.decode module) (Export.decode module) :=
  .sized (.bind .name fun _ => .bind (ExportDesc.uniform_decode module) fun _ => .pure _)

theorem ElementSegment.uniform_decode :
    Uniform accord (ElementSegment.decode module) (ElementSegment.decode module) := by
  refine .sized (.bind .u32 fun tableIndex => .bind (.require _ _ fun _ => rfl) fun _ => ?_)
  refine .bind (ConstExpr.uniform_decode _) fun offset => ?_
  exact .bind (.counted (.indexBelow _ _ fun _ _ => rfl)) fun _ => .pure _

theorem DataSegment.uniform_decode :
    Uniform accord (DataSegment.decode module) (DataSegment.decode module) := by
  refine .sized (.bind .u32 fun memoryIndex => .bind (.require _ _ fun _ => rfl) fun _ => ?_)
  refine .bind (ConstExpr.uniform_decode _) fun offset => ?_
  exact .bind .u32 fun length => .bind (.bytes _) fun _ => .pure _

end Entries

/-! ## Functions -/

/-- Groups of locals are counted and capped alike. -/
theorem Body.uniform_decodeLocals
    (count total : Nat)
    (collected : List LocalGroup) :
    Uniform accord (Body.decodeLocals count total collected)
      (Body.decodeLocals count total collected) := by
  induction count generalizing total collected with
  | zero => exact .pure _
  | succ count inductionHypothesis =>
      exact .bind LocalGroup.uniform_decode fun group =>
        .bind (.require _ _ fun _ => rfl) fun _ => inductionHypothesis _ _

theorem Body.uniform_decodeContent (space : IndexSpace) (type : FuncType) :
    Uniform accord (Body.decodeContent space type) (Body.decodeContent space type) := by
  refine .bind .u32 fun count => .bind (Body.uniform_decodeLocals _ _ _) fun read => ?_
  exact .bind (Instruction.uniform_decodeSequence _) fun code =>
    .bind .finish fun _ => .pure _

/-- A body is decoded in its own window alike. -/
theorem Body.uniform_decode (space : IndexSpace) (type : FuncType) :
    Uniform accord (Body.decode space type) (Body.decode space type) := by
  refine .sized (.bind .u32 fun declaredSize => ?_)
  refine Parallel.bind (.split _) fun window counterpart alike => ?_
  exact Uniform.bind (.within alike (Body.uniform_decodeContent space type)) fun _ => .pure _

theorem Func.uniform_decode
    (space : IndexSpace)
    (types : List FuncType)
    (index typeIndex : UInt32) :
    Uniform accord (Func.decode space types index typeIndex)
      (Func.decode space types index typeIndex) :=
  .bind (.requireSome _ _ fun _ => rfl) fun type =>
    .bind (.inContext _ (Body.uniform_decode space type)) fun _ => .pure _

/-! ## Sections -/

namespace Section

variable (module : Module) (count : UInt32)

/-- Entries that are numbered in contexts are decoded alike. -/
theorem uniform_decodeEntries
    {far : Decode ρ α}
    {near : Decode ς α}
    (uniform : Uniform accord far near) :
    Uniform accord (Section.decodeEntries count far) (Section.decodeEntries count near) :=
  .times count fun _ => .inContext _ uniform

theorem uniform_decodeCode :
    Uniform accord (Section.decodeCode module count) (Section.decodeCode module count) := by
  refine .bind (.requireSome _ _ fun _ => rfl) fun types => ?_
  refine .bind (.requireSome _ _ fun _ => rfl) fun functions => ?_
  refine .bind (.require _ _ fun _ => rfl) fun _ => .mapM (fun item => ?_) _
  exact Func.uniform_decode _ _ _ _

/-- The content of a section is decoded alike, whatever its kind. -/
theorem uniform_decodeContent (id : SectionId) :
    Uniform accord (Section.decodeContent module count id)
      (Section.decodeContent module count id) := by
  have entries
      {α : Type}
      {far : Decode ρ α}
      {near : Decode ς α}
      (uniform : Uniform accord far near)
      (make : List α → Section) :
      Uniform accord (Section.decodeEntries count far >>= fun list => pure (make list))
        (Section.decodeEntries count near >>= fun list => pure (make list)) :=
    .bind (uniform_decodeEntries count uniform) fun _ => .pure _
  cases id with
  | custom => exact .fail _ fun _ => rfl
  | types => exact entries FuncType.uniform_decode .types
  | imports => exact entries (Import.uniform_decode module) .imports
  | functions => exact entries (Section.uniform_decodeTypeIndex module) .functions
  | tables => exact entries TableType.uniform_decode .tables
  | memories => exact entries MemoryType.uniform_decode .memories
  | globals => exact entries (Global.uniform_decode module) .globals
  | exports => exact entries (Export.uniform_decode module) .exports
  | start => exact .bind (.require _ _ fun _ => rfl) fun _ => .pure _
  | elements => exact entries (ElementSegment.uniform_decode module) .elements
  | code => exact .bind (uniform_decodeCode module count) fun _ => .pure _
  | data => exact entries (DataSegment.uniform_decode module) .data

theorem uniform_decode (id : SectionId) :
    Uniform accord (Section.decode module id count) (Section.decode module id count) :=
  .bind (uniform_decodeContent module count id) fun _ => .bind .finish fun _ => .pure _

end Section

/-- Whatever a session may read, it reads alike from sources in accord. -/
theorem Reading.uniform_decode (reading : Reading) :
    Uniform accord reading.decode reading.decode := by
  have item
      {α : Type}
      {far : Decode ρ α}
      {near : Decode ς α}
      (uniform : Uniform accord far near)
      (make : α → Item) :
      Uniform accord (far >>= fun value => pure (make value))
        (near >>= fun value => pure (make value)) :=
    .bind uniform fun _ => .pure _
  cases reading with
  | isEnd => exact item .isEnd .flag
  | peek => exact item .peek .next
  | finish => exact item .finish fun _ => .nothing
  | byte => exact item .byte .byte
  | u32 => exact item .u32 .u32
  | i32 => exact item .i32 .i32
  | i64 => exact item .i64 .i64
  | f32 => exact item .f32 .f32
  | f64 => exact item .f64 .f64
  | bytes length => exact item (.bytes length) .bytes
  | string length => exact item (.string length) .string
  | valueType => exact item ValueType.uniform_decode .valueType
  | numberType => exact item ValueType.uniform_decodeNumber .valueType
  | funcType => exact item FuncType.uniform_decode .funcType
  | limits => exact item Limits.uniform_decode .limits
  | tableType => exact item TableType.uniform_decode .tableType
  | memoryType => exact item MemoryType.uniform_decode .memoryType
  | globalType => exact item GlobalType.uniform_decode .globalType
  | localGroup => exact item LocalGroup.uniform_decode .localGroup
  | constExpr globals => exact item (ConstExpr.uniform_decode globals) .constExpr
  | instruction space => exact item (Instruction.uniform_decode space) .instruction
  | instructions space => exact item (Instruction.uniform_decodeSequence space) .instructions

end WebAssembly
