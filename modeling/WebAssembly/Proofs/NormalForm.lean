import WebAssembly.Proofs.Size
import WebAssembly.Text.Module

/-!
# Normal forms of modules

The text of a module does not show the sizes of its parts, whether a section is
absent or empty, the function section, how locals are grouped, alignments beyond
what an address can have, and a memory that its only data segment implies. The
normal form of a module forgets these and has the same text.
-/

namespace WebAssembly

/-! ## Definitions -/

/-- Alignments from 63 on are the same. -/
def MemoryArg.normalForm (argument : MemoryArg) : MemoryArg :=
  { argument with align := min argument.align 63 }

/-- Of an immediate, only the alignment of a memory access has a normal form. -/
def Immediate.normalForm : Immediate → Immediate
  | .memory argument => .memory argument.normalForm
  | immediate => immediate

/-- The normal form of an instruction is that of its immediate. -/
def Instruction.normalForm (instruction : Instruction) : Instruction :=
  { instruction with immediate := instruction.immediate.normalForm }

/-- The groups of locals are such of one local each. -/
def Func.normalForm (function : Func) : Func :=
  { function with
    type := function.type.unsized
    body :=
      { declaredSize := 0
        locals := function.localTypes.map fun type => { count := 1, type }
        code := function.body.code.map Instruction.normalForm
        size := 0 } }

namespace Module

/-- The module without what its text does not show. -/
def normalForm (module : Module) : Module where
  magic := module.magic
  version := module.version
  types := some ((entries module.types).map FuncType.unsized)
  imports := some ((entries module.imports).map Import.unsized)
  functions := none
  tables := some ((entries module.tables).map TableType.unsized)
  memories := some
    (if module.foldedData?.isSome then []
    else (entries module.memories).map MemoryType.unsized)
  globals := some ((entries module.globals).map Global.unsized)
  exports := some ((entries module.exports).map Export.unsized)
  start := module.start
  elements := some ((entries module.elements).map ElementSegment.unsized)
  code := some ((entries module.code).map Func.normalForm)
  data := some ((entries module.data).map DataSegment.unsized)

end Module

/-! ## Texts of normal forms -/

/-- In the normal form, the exponent of an alignment is at most 63. -/
theorem MemoryArg.toNat_align_normalForm (argument : MemoryArg) :
    argument.normalForm.align.toNat = min argument.align.toNat 63 := by
  have split : argument.normalForm.align =
      if argument.align ≤ 63 then argument.align else 63 := rfl
  rw [split]
  obtain small | large := Nat.le_total argument.align.toNat 63
  · rw [if_pos (UInt32.le_iff_toNat_le.mpr small), Nat.min_eq_left small]
  · rw [Nat.min_eq_right large]
    split
    · rename_i small
      exact Nat.le_antisymm (UInt32.le_iff_toNat_le.mp small) large
    · rfl

/-- Natural alignments are smaller than those that the normal form cuts off. -/
theorem Opcode.naturalAlignment_lt (op : Opcode) : op.naturalAlignment.toNat < 63 := by
  unfold naturalAlignment
  split <;> decide

/-- The natural alignment is told apart from others in the normal form as well. -/
theorem MemoryArg.normalForm_align_eq_iff (argument : MemoryArg) (op : Opcode) :
    argument.normalForm.align = op.naturalAlignment ↔ argument.align = op.naturalAlignment := by
  have below := op.naturalAlignment_lt
  rw [← UInt32.toNat_inj, toNat_align_normalForm, ← UInt32.toNat_inj]
  omega

/-- An immediate is printed as its normal form is. -/
theorem Immediate.text_normalForm (op : Opcode) (params : Nat) (immediate : Immediate) :
    immediate.normalForm.text op params = immediate.text op params := by
  cases immediate with
  | memory argument =>
      have same : min argument.normalForm.align.toNat 63 = min argument.align.toNat 63 := by
        rw [MemoryArg.toNat_align_normalForm, Nat.min_assoc, Nat.min_self]
      have sameOffset : argument.normalForm.offset = argument.offset := rfl
      simp only [normalForm, text, sameOffset, argument.normalForm_align_eq_iff op, same]
  | _ => rfl

theorem Instruction.text_normalForm (params : Nat) (instruction : Instruction) :
    instruction.normalForm.text params = instruction.text params :=
  congrArg (instruction.opcode.mnemonic ++ ·) (Immediate.text_normalForm _ _ _)

/-- The lines of a body do not tell its instructions from their normal forms. -/
theorem codeLines_normalForm
    (params base depth : Nat)
    (code : List Instruction)
    (earlier : List Line) :
    codeLines params base depth (code.map Instruction.normalForm) earlier =
      codeLines params base depth code earlier := by
  induction code generalizing depth earlier with
  | nil => rfl
  | cons instruction rest inductionHypothesis =>
      rw [List.map_cons, codeLines, codeLines, Instruction.text_normalForm]
      exact inductionHypothesis _ _

/-- A function has the locals of its normal form, however these are grouped. -/
theorem Func.localTypes_normalForm (function : Func) :
    function.normalForm.localTypes = function.localTypes := by
  rw [localTypes, normalForm, List.flatMap_map]
  exact List.flatMap_singleton' _

theorem Instruction.normalForm_normalForm (instruction : Instruction) :
    instruction.normalForm.normalForm = instruction.normalForm := by
  obtain ⟨op, immediate⟩ := instruction
  cases immediate with
  | memory argument =>
      have sameAlign : argument.normalForm.normalForm.align = argument.normalForm.align := by
        rw [← UInt32.toNat_inj, MemoryArg.toNat_align_normalForm,
          MemoryArg.toNat_align_normalForm, Nat.min_assoc, Nat.min_self]
      have same : argument.normalForm.normalForm = argument.normalForm :=
        congrArg (fun align => MemoryArg.mk align argument.offset) sameAlign
      exact congrArg (fun argument => Instruction.mk op (.memory argument)) same
  | _ => rfl

theorem Func.normalForm_normalForm (function : Func) :
    function.normalForm.normalForm = function.normalForm := by
  have code : function.normalForm.body.code.map Instruction.normalForm =
      function.normalForm.body.code := by
    rw [normalForm, List.map_map]
    exact List.map_congr_left fun instruction _ => instruction.normalForm_normalForm
  rw [normalForm, localTypes_normalForm, code]
  rfl

/-- A function is printed as its normal form is. -/
theorem Func.lines_normalForm (function : Func) :
    function.normalForm.lines = function.lines := by
  have sameLocals : function.normalForm.localLines = function.localLines := by
    rw [localLines, localTypes_normalForm]
    rfl
  have sameCode := codeLines_normalForm function.type.params.length 2 2 function.body.code []
  exact congrArg₂ (fun locals code => ⟨1, function.headerText⟩ :: (locals ++ code ++ [⟨1, ")"⟩]))
    sameLocals sameCode

namespace Module

variable (module : Module)

/-- Imports are printed without their sizes. -/
theorem importLines_unsized (functions globals : Nat) (items : List Import) :
    importLines functions globals (items.map Import.unsized) =
      importLines functions globals items := by
  induction items generalizing functions globals with
  | nil => rfl
  | cons item rest inductionHypothesis =>
      obtain ⟨moduleName, fieldName, desc, size⟩ := item
      cases desc <;> exact congrArg (List.cons _) (inductionHypothesis _ _)

/-- The normal form has as many imports of each kind. -/
theorem importCount_normalForm
    {kind : ImportDesc → Bool}
    (sizeless : ∀ desc : ImportDesc, kind desc.unsized = kind desc) :
    module.normalForm.importCount kind = module.importCount kind := by
  have same : (fun item => kind (Import.unsized item).desc) = fun item => kind item.desc :=
    funext fun item => sizeless item.desc
  rw [importCount, importCount, normalForm, entries_some, List.countP_map]
  exact congrArg (fun holds => (List.countP holds (entries module.imports)).toUInt32) same

/-- Whether there is no memory, or only one with just some pages. -/
def memoryFits (pages : UInt32) : List MemoryType → Bool
  | [] => true
  | [memory] => memory.limits.min == pages && memory.limits.max == some pages
  | _ => false

/-- A memory fits exactly if there is none besides and its limits are the pages of the
segment. -/
theorem memoryFits_iff (pages : UInt32) (memories : List MemoryType) :
    memoryFits pages memories = true ↔
      memories.length ≤ 1 ∧ ∀ memory ∈ memories,
        memory.limits.min = pages ∧ memory.limits.max = some pages := by
  cases memories with
  | nil => simp [memoryFits]
  | cons memory rest => cases rest <;> simp [memoryFits]

/-- A data segment is written inside the memory that it fills if it is the only one,
and stands at the start of the only memory, which has just the pages for it. -/
structure Folds (segment : DataSegment) : Prop where
  data : entries module.data = [segment]
  memoryIndex : segment.memoryIndex = 0
  offset : segment.offset.instruction = ⟨.i32Const, .i32 0⟩
  imported : module.importedMemories = 0
  single : (entries module.memories).length ≤ 1
  fits : ∀ memory ∈ entries module.memories, memory.limits.min = pagesFor segment.init.length ∧
    memory.limits.max = some (pagesFor segment.init.length)

/-- The segment that is folded is the one that the module folds. -/
theorem foldedData?_eq_some_iff (segment : DataSegment) :
    module.foldedData? = some segment ↔ module.Folds segment := by
  -- The search for a segment and its test are taken apart, so that each case is one of them.
  have condition (only : DataSegment) (present : module.data = some [only]) :
      module.foldedData? =
        if only.memoryIndex = 0 ∧ only.offset.instruction = ⟨.i32Const, .i32 0⟩ ∧
            module.importedMemories = 0 ∧
            memoryFits (pagesFor only.init.length) (entries module.memories) = true then
          some only
        else none := by
    unfold foldedData?
    rw [present]
    simp only [Bool.and_eq_true, beq_iff_eq, and_assoc]
    rfl
  have absent (notSingle : ∀ only, module.data ≠ some [only]) : module.foldedData? = none := by
    unfold foldedData?
    split
    · rename_i only present
      exact absurd present (notSingle only)
    · rfl
  constructor
  · intro folded
    by_cases present : ∃ only, module.data = some [only]
    · obtain ⟨only, present⟩ := present
      rw [condition only present] at folded
      split at folded
      · rename_i holds
        obtain rfl := Option.some.inj folded
        obtain ⟨memoryIndex, offset, imported, fits⟩ := holds
        obtain ⟨single, fits⟩ := (memoryFits_iff _ _).mp fits
        exact ⟨by rw [present, entries_some], memoryIndex, offset, imported, single, fits⟩
      · cases folded
    · rw [absent fun only same => present ⟨only, same⟩] at folded
      cases folded
  · intro folds
    have present : module.data = some [segment] := by
      have data := folds.data
      cases present : module.data with
      | none => simp [present] at data
      | some segments => rw [present, entries_some] at data; rw [data]
    rw [condition segment present]
    exact if_pos ⟨folds.memoryIndex, folds.offset, folds.imported,
      (memoryFits_iff _ _).mpr ⟨folds.single, folds.fits⟩⟩

/-- The normal form folds the segment that the module folds, without its sizes. -/
theorem folds_normalForm_iff (segment : DataSegment) :
    module.normalForm.Folds segment ↔ ∃ sized, module.Folds sized ∧ sized.unsized = segment := by
  have data : entries module.normalForm.data =
      (entries module.data).map DataSegment.unsized := rfl
  have imported : module.normalForm.importedMemories = module.importedMemories :=
    module.importCount_normalForm fun desc => by cases desc <;> rfl
  have memories : entries module.normalForm.memories =
      if module.foldedData?.isSome then []
      else (entries module.memories).map MemoryType.unsized := rfl
  constructor
  · intro folds
    have single := folds.data
    rw [data, List.map_eq_singleton_iff] at single
    obtain ⟨sized, present, rfl⟩ := single
    refine ⟨sized, ?_, rfl⟩
    cases folded : module.foldedData? with
    | some other =>
        have otherFolds := (module.foldedData?_eq_some_iff other).mp folded
        have same := present.symm.trans otherFolds.data
        rw [List.singleton_inj] at same
        rwa [same]
    | none =>
        have single := folds.single
        have fits := folds.fits
        rw [memories, folded, Option.isSome_none, if_neg Bool.false_ne_true] at single fits
        rw [List.length_map] at single
        rw [List.forall_mem_map] at fits
        exact ⟨present, folds.memoryIndex, folds.offset, imported ▸ folds.imported, single, fits⟩
  · rintro ⟨sized, folds, rfl⟩
    have folded := (module.foldedData?_eq_some_iff sized).mpr folds
    rw [folded, Option.isSome_some, if_pos rfl] at memories
    refine ⟨by rw [data, folds.data]; rfl, folds.memoryIndex, folds.offset,
      imported.trans folds.imported, ?_, ?_⟩
    · rw [memories]
      exact Nat.zero_le 1
    · rw [memories]
      exact List.forall_mem_nil _

/-- The segment that is folded is that of the normal form, without its sizes. -/
theorem foldedData?_normalForm :
    module.normalForm.foldedData? = module.foldedData?.map DataSegment.unsized := by
  apply Option.ext
  intro segment
  rw [foldedData?_eq_some_iff, folds_normalForm_iff, Option.map_eq_some_iff]
  simp only [foldedData?_eq_some_iff]

/-! ### Lines -/

theorem memoryLines_normalForm : module.normalForm.memoryLines = module.memoryLines := by
  rw [memoryLines, memoryLines, foldedData?_normalForm]
  cases folded : module.foldedData? with
  | some segment => rfl
  | none =>
      rw [normalForm, folded, entries_some, Option.isSome_none, if_neg Bool.false_ne_true]
      exact List.map_map

theorem dataLines_normalForm : module.normalForm.dataLines = module.dataLines := by
  rw [dataLines, dataLines, foldedData?_normalForm]
  cases module.foldedData? with
  | some segment => rfl
  | none => exact List.map_map

theorem typeLines_normalForm : module.normalForm.typeLines = module.typeLines := by
  rw [typeLines, typeLines, normalForm, entries_some, List.zipIdx_map, List.map_map]
  rfl

theorem globalLines_normalForm : module.normalForm.globalLines = module.globalLines := by
  have imported : module.normalForm.importedGlobals = module.importedGlobals :=
    module.importCount_normalForm fun desc => by cases desc <;> rfl
  rw [globalLines, globalLines, imported, normalForm, entries_some, List.zipIdx_map, List.map_map]
  rfl

theorem functionLines_normalForm :
    (entries module.normalForm.code).flatMap Func.lines =
      (entries module.code).flatMap Func.lines := by
  have same : Func.lines ∘ Func.normalForm = Func.lines := funext Func.lines_normalForm
  rw [normalForm, entries_some, List.flatMap_map]
  exact congrArg (fun lines => (entries module.code).flatMap lines) same

/-- A module is printed line by line as its normal form is. -/
theorem lines_normalForm : module.normalForm.lines = module.lines := by
  have sameImports := importLines_unsized 0 0 (entries module.imports)
  have sameTables : module.normalForm.tableLines = module.tableLines := List.map_map
  have sameExports : (entries module.normalForm.exports).map (fun item => ⟨1, item.text⟩) =
      (entries module.exports).map fun item => (⟨1, item.text⟩ : Line) := List.map_map
  have sameElements : (entries module.normalForm.elements).map (fun segment => ⟨1, segment.text⟩) =
      (entries module.elements).map fun segment => (⟨1, segment.text⟩ : Line) := List.map_map
  have imports : entries module.normalForm.imports =
      (entries module.imports).map Import.unsized := rfl
  have sameStart : module.normalForm.startLines = module.startLines := rfl
  rw [lines, typeLines_normalForm, imports, sameImports, globalLines_normalForm,
    functionLines_normalForm, memoryLines_normalForm, sameTables, dataLines_normalForm, sameExports,
    sameElements, sameStart, lines]

/-- The text of a module is that of its normal form. -/
theorem text_normalForm : module.normalForm.text = module.text := by
  rw [text, lines_normalForm, text]

/-- A normal form has nothing left to forget. -/
theorem normalForm_normalForm : module.normalForm.normalForm = module.normalForm := by
  have sameFold : module.normalForm.foldedData?.isSome = module.foldedData?.isSome := by
    rw [foldedData?_normalForm, Option.isSome_map]
  have import_unsized (item : Import) : item.unsized.unsized = item.unsized := by
    obtain ⟨moduleName, fieldName, desc, size⟩ := item
    cases desc <;> rfl
  have idempotent {item : Type} (forget : item → item)
      (twice : ∀ single, forget (forget single) = forget single) (list : List item) :
      some ((list.map forget).map forget) = some (list.map forget) := by
    rw [List.map_map]
    exact congrArg some (List.map_congr_left fun single _ => twice single)
  conv_lhs => rw [normalForm]
  conv_rhs => rw [normalForm]
  rw [Module.mk.injEq, sameFold]
  refine ⟨rfl, rfl, idempotent FuncType.unsized (fun _ => rfl) _,
    idempotent Import.unsized import_unsized _, rfl,
    idempotent TableType.unsized (fun _ => rfl) _, ?_,
    idempotent Global.unsized (fun _ => rfl) _, idempotent Export.unsized (fun _ => rfl) _, rfl,
    idempotent ElementSegment.unsized (fun _ => rfl) _,
    idempotent Func.normalForm Func.normalForm_normalForm _,
    idempotent DataSegment.unsized (fun _ => rfl) _⟩
  rw [normalForm, entries_some]
  split
  · rfl
  · exact idempotent MemoryType.unsized (fun _ => rfl) _

end Module

end WebAssembly
