import WebAssembly.Proofs.Counts
import Mathlib.Algebra.Order.BigOperators.Group.List

/-!
# Modules are no larger than their binaries

Counts in a binary are chosen freely, up to `2 ^ 32 - 1` in every list. Still each
item of a list takes up a byte of its own, at every level of nesting, and payloads
share no bytes. So a module has at most as many items as its binary has bytes,
however many locals its groups stand for, and the counts of a binary below `2 ^ 32`
bytes are computed in 32 bits without loss.
-/

namespace WebAssembly

open Decode

/-! ## Items -/

/-- The items of lists are added up, each with those inside it. -/
def itemsOf (weight : α → Nat) (items : List α) : Nat :=
  (items.map weight).sum

@[simp] theorem itemsOf_nil (weight : α → Nat) : itemsOf weight [] = 0 := rfl

@[simp] theorem itemsOf_cons (weight : α → Nat) (item : α) (rest : List α) :
    itemsOf weight (item :: rest) = weight item + itemsOf weight rest :=
  List.sum_cons

/-- A signature, its params and its results. -/
def FuncType.itemCount (type : FuncType) : Nat :=
  1 + (type.params.length + type.results.length)

/-- An import and the bytes of its names. -/
def Import.itemCount (item : Import) : Nat :=
  1 + (item.moduleName.utf8ByteSize + item.fieldName.utf8ByteSize)

/-- An export and the bytes of its name. -/
def Export.itemCount (item : Export) : Nat :=
  1 + item.name.utf8ByteSize

/-- An element segment and its function indices. -/
def ElementSegment.itemCount (segment : ElementSegment) : Nat :=
  1 + segment.init.length

/-- A data segment and its bytes. -/
def DataSegment.itemCount (segment : DataSegment) : Nat :=
  1 + segment.init.length

/-- The targets of a branch table. No other immediate is a list. -/
def Immediate.itemCount : Immediate → Nat
  | .branchTable targets _ => targets.length
  | _ => 0

/-- An instruction and the targets of its branch table. -/
def Instruction.itemCount (instruction : Instruction) : Nat :=
  1 + instruction.immediate.itemCount

/-- A function, its groups of locals, each of them once whatever its count is, and
its instructions. Its signature is an item of the type section. -/
def Func.itemCount (function : Func) : Nat :=
  1 + (function.body.locals.length + itemsOf Instruction.itemCount function.body.code)

/-- The entries of a section and all that is nested in them. -/
def Section.itemCount : Section → Nat
  | .types entries => itemsOf FuncType.itemCount entries
  | .imports entries => itemsOf Import.itemCount entries
  | .functions typeIndices => typeIndices.length
  | .tables entries => entries.length
  | .memories entries => entries.length
  | .globals entries => entries.length
  | .exports entries => itemsOf Export.itemCount entries
  | .start _ => 0
  | .elements entries => itemsOf ElementSegment.itemCount entries
  | .code entries => itemsOf Func.itemCount entries
  | .data entries => itemsOf DataSegment.itemCount entries

/-- The entries of all sections of a module and all that is nested in them. -/
def Module.itemCount (module : Module) : Nat :=
  itemsOf Section.itemCount module.sections

/-- Where each item weighs something, there are no more items than they weigh. -/
theorem length_le_itemsOf
    {weight : α → Nat}
    (heavy : ∀ item, 1 ≤ weight item)
    (items : List α) :
    items.length ≤ itemsOf weight items := by
  induction items with
  | nil => exact le_rfl
  | cons item rest inductionHypothesis =>
      have itemHeavy := heavy item
      rw [List.length_cons, itemsOf_cons]
      omega

/-- One of several items weighs no more than all of them. -/
theorem le_itemsOf (weight : α → Nat) {items : List α} {item : α} (among : item ∈ items) :
    weight item ≤ itemsOf weight items :=
  List.single_le_sum (fun _ _ => Nat.zero_le _) _ (List.mem_map_of_mem among)

/-! ## Items take up bytes -/

namespace Layout

variable {list : List UInt8}

/-- Layouts one after another have room for what each has room for. -/
theorem Written.itemsOf_le
    {layout : α → Layout}
    {weight : α → Nat}
    (roomy : ∀ item list, (layout item).Written list → weight item ≤ list.length)
    {items : List α}
    (written : (all (items.map layout)).Written list) :
    itemsOf weight items ≤ list.length := by
  induction items generalizing list with
  | nil => exact Nat.zero_le _
  | cons item rest inductionHypothesis =>
      obtain ⟨head, tail, rfl, itemWritten, restWritten⟩ := (written_append _ _ _).mp written
      have itemRoom := roomy item head itemWritten
      have restRoom := inductionHypothesis restWritten
      rw [itemsOf_cons, List.length_append]
      omega

/-- A list that is written behind its length has room for its items, and for one
more. -/
theorem Written.counted_length
    {layout : α → Layout}
    (long : ∀ item list, (layout item).Written list → 1 ≤ list.length)
    {items : List α}
    (written : (counted (items.map layout)).Written list) :
    1 + items.length ≤ list.length := by
  obtain ⟨_, _, rfl, countWritten, itemsWritten⟩ := (written_append _ _ _).mp written
  have countLong := countWritten.natural_pos
  have itemsLong := itemsWritten.length_all_ge long
  rw [List.length_append]
  omega

/-- Each of the entries that follow takes at least one byte. -/
theorem Written.valueType_length {type : ValueType} (written : type.layout.Written list) :
    1 ≤ list.length := by
  obtain rfl := (written_bytes _ _).mp written
  exact le_rfl

theorem Written.tableType_length {type : TableType} (written : type.layout.Written list) :
    1 ≤ list.length := by
  obtain ⟨-, content⟩ := (written_measured _ _ _).mp written
  obtain ⟨_, _, rfl, elementWritten, -⟩ := (written_append _ _ _).mp content
  obtain rfl := (written_bytes _ _).mp elementWritten
  simp

theorem Written.memoryType_length {type : MemoryType} (written : type.layout.Written list) :
    1 ≤ list.length :=
  ((written_measured _ _ _).mp written).2.limits_length

theorem Written.localGroup_length {group : LocalGroup} (written : group.layout.Written list) :
    1 ≤ list.length := by
  obtain ⟨_, _, rfl, countWritten, -⟩ := (written_append _ _ _).mp written
  have countLong := countWritten.natural_pos
  rw [List.length_append]
  omega

/-- A text takes the bytes of its UTF-8 and its length in front of them. -/
theorem Written.text_itemCount {text : String} (written : (Layout.text text).Written list) :
    text.utf8ByteSize ≤ list.length := by
  obtain ⟨_, _, rfl, -, textWritten⟩ := (written_append _ _ _).mp written
  obtain rfl := (written_bytes _ _).mp textWritten
  rw [List.length_append]
  exact Nat.le_add_left _ _

/-- The bounds of items by bytes that follow go from the parts of an entry to the entry.
A signature has as many items as value types. -/
theorem Written.funcType_itemCount {type : FuncType} (written : type.layout.Written list) :
    type.itemCount ≤ list.length := by
  obtain ⟨-, content⟩ := (written_measured _ _ _).mp written
  obtain ⟨_, _, rfl, -, behindForm⟩ := (written_append _ _ _).mp content
  obtain ⟨_, _, rfl, paramsWritten, resultsWritten⟩ := (written_append _ _ _).mp behindForm
  have paramsLong := paramsWritten.counted_length fun _ _ => Written.valueType_length
  have resultsLong := resultsWritten.counted_length fun _ _ => Written.valueType_length
  simp only [FuncType.itemCount, List.length_append]
  omega

theorem Written.import_itemCount {item : Import} (written : item.layout.Written list) :
    item.itemCount ≤ list.length := by
  obtain ⟨-, content⟩ := (written_measured _ _ _).mp written
  obtain ⟨_, _, rfl, moduleWritten, behindModule⟩ := (written_append _ _ _).mp content
  obtain ⟨_, _, rfl, fieldWritten, descWritten⟩ := (written_append _ _ _).mp behindModule
  have moduleLong := moduleWritten.text_itemCount
  have fieldLong := fieldWritten.text_itemCount
  have descLong := descWritten.importDesc_length
  simp only [Import.itemCount, List.length_append]
  omega

theorem Written.export_itemCount {item : Export} (written : item.layout.Written list) :
    item.itemCount ≤ list.length := by
  obtain ⟨-, content⟩ := (written_measured _ _ _).mp written
  obtain ⟨_, _, rfl, nameWritten, descWritten⟩ := (written_append _ _ _).mp content
  obtain ⟨_, _, rfl, lengthWritten, textWritten⟩ := (written_append _ _ _).mp nameWritten
  have lengthLong := lengthWritten.natural_pos
  obtain rfl := (written_bytes _ _).mp textWritten
  simp only [Export.itemCount, List.length_append, Array.length_toList, ByteArray.size_data,
    String.size_toByteArray]
  omega

theorem Written.elementSegment_itemCount
    {segment : ElementSegment}
    (written : segment.layout.Written list) :
    segment.itemCount ≤ list.length := by
  obtain ⟨-, content⟩ := (written_measured _ _ _).mp written
  obtain ⟨_, _, rfl, -, behindTable⟩ := (written_append _ _ _).mp content
  obtain ⟨_, _, rfl, -, initWritten⟩ := (written_append _ _ _).mp behindTable
  have initLong := initWritten.counted_length fun _ _ => Written.natural_pos
  simp only [ElementSegment.itemCount, List.length_append]
  omega

theorem Written.dataSegment_itemCount
    {segment : DataSegment}
    (written : segment.layout.Written list) :
    segment.itemCount ≤ list.length := by
  obtain ⟨-, content⟩ := (written_measured _ _ _).mp written
  obtain ⟨_, _, rfl, -, behindMemory⟩ := (written_append _ _ _).mp content
  obtain ⟨_, _, rfl, -, initWritten⟩ := (written_append _ _ _).mp behindMemory
  obtain ⟨_, _, rfl, lengthWritten, bytesWritten⟩ := (written_append _ _ _).mp initWritten
  have lengthLong := lengthWritten.natural_pos
  obtain rfl := (written_bytes _ _).mp bytesWritten
  simp only [DataSegment.itemCount, List.length_append]
  omega

theorem Written.immediate_itemCount
    {kind : ImmediateKind}
    {immediate : Immediate}
    (written : (immediate.layout kind).Written list) :
    immediate.itemCount ≤ list.length := by
  cases immediate with
  | branchTable targets fallback =>
      obtain ⟨_, _, rfl, targetsWritten, -⟩ := (written_append _ _ _).mp written
      have targetsLong := targetsWritten.counted_length fun _ _ => Written.natural_pos
      simp only [Immediate.itemCount, List.length_append]
      omega
  | _ => exact Nat.zero_le _

/-- An instruction has the items of its immediate, and a byte for itself. -/
theorem Written.instruction_itemCount
    {instruction : Instruction}
    (written : instruction.layout.Written list) :
    instruction.itemCount ≤ list.length := by
  obtain ⟨_, _, rfl, opcodeWritten, immediateWritten⟩ := (written_append _ _ _).mp written
  obtain rfl := (written_bytes _ _).mp opcodeWritten
  have immediateRoom := immediateWritten.immediate_itemCount
  simp only [Instruction.itemCount, List.length_append, List.length_singleton]
  omega

/-- A function has the items of its locals and its instructions. -/
theorem Written.func_itemCount {function : Func} (written : function.layout.Written list) :
    function.itemCount ≤ list.length := by
  obtain ⟨-, content⟩ := (written_measured _ _ _).mp written
  obtain ⟨_, _, rfl, sizeWritten, bodyWritten⟩ := (written_sized _ _ _).mp content
  have sizeLong := sizeWritten.natural_pos
  obtain ⟨-, contentWritten⟩ := (written_measured _ _ _).mp bodyWritten
  obtain ⟨_, _, rfl, localsWritten, codeWritten⟩ := (written_append _ _ _).mp contentWritten
  have localsLong := localsWritten.counted_length fun _ _ => Written.localGroup_length
  obtain ⟨_, _, rfl, instructionsWritten, -⟩ := (written_append _ _ _).mp codeWritten
  have codeRoom : itemsOf Instruction.itemCount function.body.code ≤ _ :=
    instructionsWritten.itemsOf_le fun _ _ => Written.instruction_itemCount
  simp only [Func.itemCount, List.length_append]
  omega

/-- Every item of a section takes up a byte of its payload. -/
theorem Written.section_itemCount
    {content : Section}
    (written : content.payload.Written list) :
    content.itemCount ≤ list.length := by
  cases content with
  | types entries => exact written.itemsOf_le fun _ _ => Written.funcType_itemCount
  | imports entries => exact written.itemsOf_le fun _ _ => Written.import_itemCount
  | functions typeIndices =>
      have long : typeIndices.length * 1 ≤ list.length :=
        written.length_all_ge fun _ _ => Written.natural_pos
      rwa [Nat.mul_one] at long
  | tables entries =>
      have long := written.length_all_ge fun _ _ => Written.tableType_length
      rwa [Nat.mul_one] at long
  | memories entries =>
      have long := written.length_all_ge fun _ _ => Written.memoryType_length
      rwa [Nat.mul_one] at long
  | globals entries =>
      have long := written.length_all_ge fun _ _ => Written.global_length
      simp only [Section.itemCount]
      omega
  | exports entries => exact written.itemsOf_le fun _ _ => Written.export_itemCount
  | start index => exact Nat.zero_le _
  | elements entries => exact written.itemsOf_le fun _ _ => Written.elementSegment_itemCount
  | code entries => exact written.itemsOf_le fun _ _ => Written.func_itemCount
  | data entries => exact written.itemsOf_le fun _ _ => Written.dataSegment_itemCount

end Layout

/-! ## Payloads do not overlap -/

/-- How many bytes the payloads of some sections have together. -/
def RawSection.payloadTotal (raws : List RawSection) : Nat :=
  itemsOf (fun raw => raw.payload.remaining) raws

/-- The payload of a tile is a part of it. -/
theorem RawSection.Tile.payload_remaining_le
    {format : HeaderFormat}
    {offset : Nat}
    {raw : RawSection}
    {list : List UInt8}
    (tile : Tile format offset raw list) :
    raw.payload.remaining ≤ list.length := by
  cases tile with
  | custom =>
      simp only [Reader.remaining, List.length_append]
      omega
  | counted =>
      simp only [Reader.remaining, List.length_append]
      omega

/-- The payloads of tiles in a row take no more than the bytes of these. -/
theorem RawSection.Tiles.payloadTotal_uncustom_le
    {format : HeaderFormat}
    {offset : Nat}
    {raws : List RawSection}
    {list : List UInt8}
    (tiles : Tiles format offset raws list) :
    payloadTotal (uncustom raws) ≤ list.length := by
  induction tiles with
  | nil => exact le_rfl
  | @cons offset raw raws first rest tile tiles inductionHypothesis =>
      have firstRoom := tile.payload_remaining_le
      rw [List.length_append]
      by_cases isCustom : raw.id = .custom
      · rw [uncustom, List.filter_cons_of_neg (by simpa using isCustom)]
        exact inductionHypothesis.trans (Nat.le_add_left _ _)
      · rw [uncustom, List.filter_cons_of_pos (by simpa using isCustom), payloadTotal,
          itemsOf_cons]
        exact Nat.add_le_add firstRoom inductionHypothesis

/-- The payloads of a frame are disjoint parts of the input. -/
theorem Frame.payloadTotal_le
    {format : HeaderFormat}
    {input : List UInt8}
    {frame : Frame}
    (framed : ofBytes format input = .ok frame) :
    RawSection.payloadTotal frame.sections ≤ input.length := by
  obtain ⟨raws, rest, rfl, tiles, -, rfl⟩ := exists_tiles_of_ofBytes framed
  rw [List.length_append]
  exact tiles.payloadTotal_uncustom_le.trans (Nat.le_add_left _ _)

/-- The items of some sections take no more than the payloads that carry them. -/
theorem RawSection.itemsOf_le_payloadTotal
    {raws : List RawSection}
    {contents : List Section}
    (carry : List.Forall₂ Carries raws contents) :
    itemsOf Section.itemCount contents ≤ payloadTotal raws := by
  induction carry with
  | nil => exact le_rfl
  | cons carries _ inductionHypothesis =>
      rw [payloadTotal, itemsOf_cons, itemsOf_cons]
      exact Nat.add_le_add carries.written.section_itemCount inductionHypothesis

namespace Module

/-- The module made of some sections of an input, the others being ill-formed or
not, has no more items than the input has bytes. -/
theorem itemCount_le_of_foldlM
    {format : HeaderFormat}
    {input : List UInt8}
    {frame : Frame}
    (framed : Frame.ofBytes format input = .ok frame)
    {earlier later : List RawSection}
    (split : frame.sections = earlier ++ later)
    {module : Module}
    (folded : earlier.foldlM extend (bare frame.header.magic frame.header.version) = .ok module) :
    module.itemCount ≤ input.length := by
  have disjoint := Frame.payloadTotal_le framed
  rw [split, RawSection.payloadTotal, itemsOf, List.map_append, List.sum_append] at disjoint
  exact (RawSection.itemsOf_le_payloadTotal (carry_of_foldlM framed split folded)).trans
    (le_of_add_le_left disjoint)

/-! ## Counts are exact -/

/-- What a function leaves out has no weight. -/
theorem itemsOf_filterMap
    (weight : β → Nat)
    (function : α → Option β)
    (items : List α) :
    itemsOf weight (items.filterMap function) =
      itemsOf (fun item => (function item).elim 0 weight) items := by
  induction items with
  | nil => rfl
  | cons item rest inductionHypothesis =>
      cases outcome : function item with
      | none => simp [outcome, inductionHypothesis]
      | some result => simp [outcome, inductionHypothesis]

/-- A section that is absent has as many items as one that is empty. -/
theorem elim_map_itemCount
    (list : Option (List α))
    (make : List α → Section)
    (absent : (make []).itemCount = 0) :
    (list.map make).elim 0 Section.itemCount = (make (entries list)).itemCount := by
  cases list with
  | none => exact absent.symm
  | some items => rfl

/-- The items of a module are those of its sections; the start section has none. -/
theorem itemCount_eq (module : Module) :
    module.itemCount =
      itemsOf FuncType.itemCount (entries module.types) +
        (itemsOf Import.itemCount (entries module.imports) +
          ((entries module.functions).length +
            ((entries module.tables).length +
              ((entries module.memories).length +
                ((entries module.globals).length +
                  (itemsOf Export.itemCount (entries module.exports) +
                    (itemsOf ElementSegment.itemCount (entries module.elements) +
                      (itemsOf Func.itemCount (entries module.code) +
                        itemsOf DataSegment.itemCount (entries module.data))))))))) := by
  have start : (module.start.map Section.start).elim 0 Section.itemCount = 0 := by
    cases module.start <;> rfl
  simp only [itemCount, sections, section?, itemsOf_filterMap, SectionId.all, itemsOf_cons,
    itemsOf_nil, Option.elim_none, start, Nat.zero_add, Nat.add_zero]
  rw [elim_map_itemCount _ .types rfl, elim_map_itemCount _ .imports rfl,
    elim_map_itemCount _ .functions rfl, elim_map_itemCount _ .tables rfl,
    elim_map_itemCount _ .memories rfl, elim_map_itemCount _ .globals rfl,
    elim_map_itemCount _ .exports rfl, elim_map_itemCount _ .elements rfl,
    elim_map_itemCount _ .code rfl, elim_map_itemCount _ .data rfl]
  rfl

/-- How many imports of a module are of one kind. -/
def imported (module : Module) (kind : ImportDesc → Bool) : Nat :=
  (entries module.imports).countP fun item => kind item.desc

/-- Whatever is computed of the counts of a module in 32 bits is their exact
value. -/
structure CountsExact (module : Module) : Prop where
  casts : ∀ length ∈ [(entries module.types).length, (entries module.functions).length,
      (entries module.tables).length, (entries module.memories).length,
      (entries module.globals).length],
    length.toUInt32.toNat = length
  imports : ∀ kind, (module.importCount kind).toNat = module.imported kind
  types : module.numTypes.toNat = (entries module.types).length
  functions : module.numFunctions.toNat =
    module.imported ImportDesc.isFunc + (entries module.functions).length
  tables : module.numTables.toNat =
    module.imported ImportDesc.isTable + (entries module.tables).length
  memories : module.numMemories.toNat =
    module.imported ImportDesc.isMemory + (entries module.memories).length
  globals : module.numGlobals.toNat =
    module.imported ImportDesc.isGlobal + (entries module.globals).length
  /-- The index of a function that the module defines. -/
  functionIndex : ∀ position < (entries module.functions).length,
    position.toUInt32.toNat = position ∧
      (module.importedFunctions + position.toUInt32).toNat =
        module.imported ImportDesc.isFunc + position
  /-- The number of params and locals of a function of any signature. -/
  locals : ∀ type ∈ entries module.types, ∀ count reader groups total after,
    Body.decodeLocals count type.params.length [] reader = .ok (groups, total) after →
      total.toUInt32.toNat = total

section Exact

variable {module : Module}

/-- The entries that are counted in 32 bits are among the items, and so is every
param of a signature. -/
theorem lengths_le_itemCount (module : Module) :
    (entries module.types).length +
        ((entries module.imports).length +
          ((entries module.functions).length +
            ((entries module.tables).length +
              ((entries module.memories).length + (entries module.globals).length)))) ≤
      module.itemCount := by
  have types : _ ≤ itemsOf FuncType.itemCount (entries module.types) :=
    length_le_itemsOf (fun _ => Nat.le_add_right _ _) _
  have imports : _ ≤ itemsOf Import.itemCount (entries module.imports) :=
    length_le_itemsOf (fun _ => Nat.le_add_right _ _) _
  rw [itemCount_eq]
  omega

/-- The parameters of a type are among the items of the module. -/
theorem params_le_itemCount {type : FuncType} (among : type ∈ entries module.types) :
    type.params.length ≤ module.itemCount := by
  have inside := le_itemsOf FuncType.itemCount among
  rw [itemCount_eq]
  rw [FuncType.itemCount] at inside
  omega

/-- A count of imports and a number of definitions are added exactly if they fit
into 32 bits together. -/
theorem toNat_importCount_add
    {kind : ImportDesc → Bool}
    {length : Nat}
    (fits : (entries module.imports).length + length < 2 ^ 32) :
    (module.importCount kind).toNat = module.imported kind ∧
      (module.importCount kind + length.toUInt32).toNat = module.imported kind + length := by
  have few : module.imported kind ≤ (entries module.imports).length := List.countP_le_length
  have count : (module.importCount kind).toNat = module.imported kind :=
    UInt32.toNat_ofNat_of_lt' (by omega : module.imported kind < 2 ^ 32)
  refine ⟨count, ?_⟩
  rw [toNat_add_toUInt32 (by omega), count]

/-- Few items have exact counts. -/
theorem countsExact_of_itemCount_lt (few : module.itemCount < 2 ^ 32) : module.CountsExact := by
  have lengths := module.lengths_le_itemCount
  have cast {length : Nat} (short : length < 2 ^ 32) : length.toUInt32.toNat = length :=
    UInt32.toNat_ofNat_of_lt' short
  constructor
  case casts =>
    intro length among
    refine cast ?_
    simp only [List.mem_cons, List.not_mem_nil, or_false] at among
    omega
  case imports =>
    have fits : (entries module.imports).length + 0 < 2 ^ 32 := by omega
    exact fun kind => (toNat_importCount_add fits).1
  case types => exact cast (by omega)
  case functions => exact (toNat_importCount_add (by omega)).2
  case tables => exact (toNat_importCount_add (by omega)).2
  case memories => exact (toNat_importCount_add (by omega)).2
  case globals => exact (toNat_importCount_add (by omega)).2
  case functionIndex =>
    intro position inRange
    exact ⟨cast (by omega), (toNat_importCount_add (by omega)).2⟩
  case locals =>
    intro type among count reader groups total after decoded
    -- Parameters are items of the module; locals beyond them are capped, if there is a group.
    obtain ⟨read, same, -, -, fewLocals, -⟩ := (Body.decodeLocals_eq_ok_iff _ _ _ _ _ _).mp decoded
    obtain ⟨-, rfl⟩ := Prod.mk.inj same
    have params := params_le_itemCount among
    refine cast ?_
    obtain rfl | fewLocals := fewLocals
    · simp only [LocalGroup.total_nil]
      omega
    · simp only [Body.maxLocals] at fewLocals
      omega

end Exact

/-- A decoded module has at most as many items as its binary has bytes, each item
counted with those nested in it. So in binaries below `2 ^ 32` bytes all counts are
exact: those of the module, and those of the modules made of its first sections,
against which further sections are decoded, with success or not. -/
theorem itemCount_le_of_ofBytes (format : HeaderFormat) (input : List UInt8) :
    (∀ module, ofBytes format input = .ok module →
      module.itemCount ≤ input.length ∧ (input.length < 2 ^ 32 → module.CountsExact)) ∧
    ∀ frame, Frame.ofBytes format input = .ok frame →
      ∀ earlier later context, frame.sections = earlier ++ later →
        earlier.foldlM extend (bare frame.header.magic frame.header.version) = .ok context →
          context.itemCount ≤ input.length ∧ (input.length < 2 ^ 32 → context.CountsExact) := by
  have linear (frame : Frame) (framed : Frame.ofBytes format input = .ok frame)
      (earlier later : List RawSection) (context : Module)
      (split : frame.sections = earlier ++ later)
      (folded : earlier.foldlM extend (bare frame.header.magic frame.header.version) =
        .ok context) :
      context.itemCount ≤ input.length ∧ (input.length < 2 ^ 32 → context.CountsExact) := by
    have few := itemCount_le_of_foldlM framed split folded
    exact ⟨few, fun short => countsExact_of_itemCount_lt (Nat.lt_of_le_of_lt few short)⟩
  refine ⟨fun module decoded => ?_, linear⟩
  obtain ⟨frame, framed, assembled⟩ := (Except.bind_eq_ok_iff _ _ _).mp decoded
  obtain ⟨folded, -⟩ := (ofFrame_eq_ok_iff frame module).mp assembled
  exact linear frame framed frame.sections [] module (List.append_nil _).symm folded

/-- A function behind an imported one, with a group of five locals and a branch
table. The sections before its own have six of the 14 items, the group counts once. -/
theorem itemCount_le_of_branch_table :
    let input : List UInt8 := Header.magicBytes ++ Header.versionBytes ++
      [1, 5, 1, 0x60, 1, 0x7F, 0, 2, 7, 1, 1, 0x6D, 1, 0x66, 0, 0, 3, 2, 1, 0,
        10, 16, 1, 14, 1, 5, 0x7F, 2, 0x40, 0x20, 0, 0x0E, 2, 0, 0, 0, 0x0B, 0x0B]
    let context : Module :=
      { magic := "\x00asm"
        version := 1
        types := some [⟨[.i32], [], 4⟩]
        imports := some [⟨"m", "f", .func 0, 6⟩] }
    let module : Module :=
      { context with
        functions := some [0]
        code := some [⟨1, 0, ⟨[.i32], [], 4⟩,
          ⟨14, [⟨5, .i32⟩], [⟨.block, .block .empty⟩, ⟨.localGet, .localIndex 0⟩,
            ⟨.brTable, .branchTable [0, 0] 0⟩, ⟨.endOp, .absent⟩], 15⟩⟩] }
    (ofBytes .compact input = .ok module ∧ module.itemCount = 14 ∧ input.length = 46 ∧
      module.itemCount ≤ input.length ∧ module.CountsExact) ∧
      context.itemCount ≤ input.length ∧ context.CountsExact := by
  intro input context module
  have decoded : ofBytes .compact input = .ok module := by decide +kernel
  obtain ⟨linear, exact⟩ := (itemCount_le_of_ofBytes .compact input).1 module decoded
  let frame : Frame :=
    { header := Header.standard
      sections := [
        ⟨.types, 5, 1, ⟨11, [0x60, 1, 0x7F, 0]⟩⟩,
        ⟨.imports, 7, 1, ⟨18, [1, 0x6D, 1, 0x66, 0, 0]⟩⟩,
        ⟨.functions, 2, 1, ⟨27, [0]⟩⟩,
        ⟨.code, 16, 1, ⟨31, [14, 1, 5, 0x7F, 2, 0x40, 0x20, 0, 0x0E, 2, 0, 0, 0, 0x0B, 0x0B]⟩⟩] }
  have framed : Frame.ofBytes .compact input = .ok frame := by decide +kernel
  have folded : (frame.sections.take 2).foldlM extend
      (bare frame.header.magic frame.header.version) = .ok context := by
    decide +kernel
  obtain ⟨contextLinear, contextExact⟩ := (itemCount_le_of_ofBytes .compact input).2 frame framed
    (frame.sections.take 2) (frame.sections.drop 2) context (List.take_append_drop _ _).symm folded
  exact ⟨⟨decoded, by decide +kernel, rfl, linear, exact (by decide)⟩, contextLinear,
    contextExact (by decide)⟩

end Module

end WebAssembly
