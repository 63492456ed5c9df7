import WebAssembly.Proofs.Counts
import WebAssembly.Proofs.Quotation
import WebAssembly.Proofs.Recovery
import Mathlib.Algebra.Order.Floor.Div
import Mathlib.GroupTheory.GroupAction.Ring

/-!
# Memories and data in full

The text format lets a memory be declared by the data that fills it: the form
`(memory (data ...))` stands for a memory of just the pages that the data needs and a
segment at its start. The expansion of a text writes all such memories and segments
in full.

What the text of a decoded module expands to are the memories and the data segments of
the module. Only a segment without any memory to be placed in gets one.
-/

namespace WebAssembly

open Form

/-! ## Expansions -/

/-- The pages that a memory has at least and at most. -/
structure TextMemory where
  min : Nat
  max : Option Nat

/-- Bytes that a text places in a memory, with the form of their offset. -/
structure TextSegment where
  memoryIndex : Nat
  offset : Form
  init : List UInt8

/-- The memories and the data segments of a text in their order. -/
structure Expansion where
  memories : List TextMemory
  segments : List TextSegment

namespace Expansion

/-- Neither memories nor data. -/
def empty : Expansion := ⟨[], []⟩

instance : Append Expansion :=
  ⟨fun first second =>
    ⟨first.memories ++ second.memories, first.segments ++ second.segments⟩⟩

@[simp] theorem empty_append (expansion : Expansion) : empty ++ expansion = expansion := rfl

/-- Expansions are put side by side in any grouping. -/
theorem append_assoc (first second third : Expansion) :
    first ++ second ++ third = first ++ (second ++ third) :=
  congrArg₂ Expansion.mk (List.append_assoc _ _ _) (List.append_assoc _ _ _)

@[simp] theorem append_empty (expansion : Expansion) : expansion ++ empty = expansion :=
  congrArg₂ Expansion.mk (List.append_nil _) (List.append_nil _)

end Expansion

namespace Form

/-- The offset of data that stands at the start of a memory. -/
def zeroOffset : Form := .list [.word "i32.const", .word "0"]

/-- What a memory stands for, given the items behind its keyword. A memory that is
declared by data has as many pages as the data needs. -/
def expandMemory? : List Form → Option Expansion
  | [.list [.word "data", .literal content]] => do
      let init ← Quoted.content? content
      let pages := init.length ⌈/⌉ 65536
      return ⟨[⟨pages, some pages⟩], [⟨0, zeroOffset, init⟩]⟩
  | [.word min] => do
      return ⟨[⟨← numeral? min, none⟩], []⟩
  | [.word min, .word max] => do
      return ⟨[⟨← numeral? min, some (← numeral? max)⟩], []⟩
  | _ => none

/-- What a data segment stands for, given the items behind its keyword. -/
def expandData? : List Form → Option Expansion
  | [offset, .literal content] => do
      return ⟨[], [⟨0, offset, ← Quoted.content? content⟩]⟩
  | _ => none

/-- What an item of a module stands for. -/
def expandItem? : Form → Option Expansion
  | .list (.word "memory" :: items) => expandMemory? items
  | .list (.word "data" :: items) => expandData? items
  | _ => some .empty

/-- What some items stand for, one after another. -/
def expandAll? : List Form → Option Expansion
  | [] => some .empty
  | item :: rest => do
      return (← expandItem? item) ++ (← expandAll? rest)

/-- The memories and data segments of a module. -/
def expand? (form : Form) : Option Expansion := expandAll? form.items

/-- An item that expands is put in front of what the others expand to. -/
theorem expandAll?_cons
    {item : Form}
    {rest : List Form}
    {first others : Expansion}
    (expands : expandItem? item = some first)
    (restExpands : expandAll? rest = some others) :
    expandAll? (item :: rest) = some (first ++ others) := by
  simp only [expandAll?, expands, restExpands]
  rfl

/-- Two runs of items expand to their expansions side by side. -/
theorem expandAll?_append
    {front back : List Form}
    {first second : Expansion}
    (frontExpands : expandAll? front = some first)
    (backExpands : expandAll? back = some second) :
    expandAll? (front ++ back) = some (first ++ second) := by
  induction front generalizing first with
  | nil =>
      cases frontExpands
      exact backExpands
  | cons item rest inductionHypothesis =>
      simp only [expandAll?, Option.bind_eq_bind, Option.bind_eq_some_iff, Option.pure_def,
        Option.some.injEq] at frontExpands
      obtain ⟨here, expands, others, restExpands, rfl⟩ := frontExpands
      rw [List.cons_append, expandAll?_cons expands (inductionHypothesis restExpands),
        Expansion.append_assoc]

/-- Items with other keywords stand for neither memories nor data. -/
theorem expandItem?_of_keyword
    {form : Form}
    {keyword : String}
    (headed : form.keyword? = some keyword)
    (notMemory : keyword ≠ "memory")
    (notData : keyword ≠ "data") :
    expandItem? form = some .empty := by
  unfold expandItem?
  split
  · exact absurd (Option.some.inj headed).symm notMemory
  · exact absurd (Option.some.inj headed).symm notData
  · rfl

/-- Items that are headed by any other keyword expand to nothing. -/
theorem expandAll?_append_of_keyword
    {forms : List Form}
    {keyword : String}
    (headed : ∀ form ∈ forms, form.keyword? = some keyword)
    (notMemory : keyword ≠ "memory")
    (notData : keyword ≠ "data")
    (rest : List Form) :
    expandAll? (forms ++ rest) = expandAll? rest := by
  induction forms with
  | nil => rfl
  | cons form forms inductionHypothesis =>
      obtain ⟨headedHere, headedRest⟩ := List.forall_mem_cons.mp headed
      have here := expandItem?_of_keyword headedHere notMemory notData
      rw [List.cons_append, expandAll?, here, inductionHypothesis headedRest]
      cases expandAll? rest <;> rfl

/-- Items that stand for one memory each. -/
theorem expandAll?_of_memories
    {form : α → Form}
    {memory : α → TextMemory}
    (expands : ∀ item, expandItem? (form item) = some ⟨[memory item], []⟩)
    (items : List α) :
    expandAll? (items.map form) = some ⟨items.map memory, []⟩ := by
  induction items with
  | nil => rfl
  | cons item rest inductionHypothesis =>
      exact expandAll?_cons (expands item) inductionHypothesis

/-- Items that stand for one data segment each. -/
theorem expandAll?_of_segments
    {form : α → Form}
    {segment : α → TextSegment}
    (expands : ∀ item, expandItem? (form item) = some ⟨[], [segment item]⟩)
    (items : List α) :
    expandAll? (items.map form) = some ⟨[], items.map segment⟩ := by
  induction items with
  | nil => rfl
  | cons item rest inductionHypothesis =>
      exact expandAll?_cons (expands item) inductionHypothesis

end Form

/-! ## Items of a module -/

/-- The pages of a memory. -/
def MemoryType.inText (type : MemoryType) : TextMemory :=
  ⟨type.limits.min.toNat, type.limits.max.map UInt32.toNat⟩

/-- A data segment with the form of its offset. -/
def DataSegment.inText (segment : DataSegment) : TextSegment :=
  ⟨segment.memoryIndex.toNat, segment.offset.form, segment.init⟩

theorem MemoryType.expandItem?_form (type : MemoryType) :
    expandItem? (.list (.word "memory" :: type.limits.forms)) = some ⟨[type.inText], []⟩ := by
  obtain ⟨⟨min, max, _⟩, _⟩ := type
  cases max with
  | none =>
      simp [expandItem?, expandMemory?, Limits.forms, numeral?_toString, inText,
        -Nat.toString_eq_repr]
  | some max =>
      simp [expandItem?, expandMemory?, Limits.forms, numeral?_toString, inText,
        -Nat.toString_eq_repr]

theorem DataSegment.expandItem?_form (segment : DataSegment) :
    expandItem? segment.form = some ⟨[], [⟨0, segment.offset.form, segment.init⟩]⟩ := by
  simp [expandItem?, expandData?, form, dataForm]

/-- The memory that data alone declares. -/
def DataSegment.ownMemory (segment : DataSegment) : TextMemory :=
  ⟨segment.init.length ⌈/⌉ 65536, some (segment.init.length ⌈/⌉ 65536)⟩

/-- A memory that holds its data expands to the least memory that has room for them, and
to a segment at its beginning. -/
theorem DataSegment.expandItem?_folded (segment : DataSegment) :
    expandItem? (.list [.word "memory", .list [.word "data", dataForm segment.init]]) =
      some ⟨[segment.ownMemory], [⟨0, zeroOffset, segment.init⟩]⟩ := by
  simp [expandItem?, expandMemory?, dataForm, ownMemory]

namespace Module

variable (module : Module)

/-- What the memories and data segments of a module stand for in its text. -/
def expansion : Expansion :=
  match module.foldedData? with
  | some segment => ⟨[segment.ownMemory], [⟨0, zeroOffset, segment.init⟩]⟩
  | none =>
      ⟨(entries module.memories).map MemoryType.inText,
        (entries module.data).map fun segment => ⟨0, segment.offset.form, segment.init⟩⟩

/-- What the printer writes of memories and data expands to the memories and data of the
module. -/
theorem expandAll?_memoryForms_dataForms :
    ∃ memories data, expandAll? module.memoryForms = some memories ∧
      expandAll? module.dataForms = some data ∧ memories ++ data = module.expansion := by
  rw [memoryForms, dataForms, expansion]
  cases module.foldedData? with
  | some segment =>
      exact ⟨_, _, expandAll?_cons segment.expandItem?_folded rfl, rfl, rfl⟩
  | none =>
      have memories := expandAll?_of_memories MemoryType.expandItem?_form
        (entries module.memories)
      have data := expandAll?_of_segments DataSegment.expandItem?_form (entries module.data)
      exact ⟨_, _, memories, data, congrArg₂ Expansion.mk (List.append_nil _) rfl⟩

/-- The form of any module has an expansion. -/
theorem expand?_form : module.form.expand? = some module.expansion := by
  obtain ⟨memories, data, memoriesExpand, dataExpand, same⟩ :=
    module.expandAll?_memoryForms_dataForms
  have skip {forms : List Form} {keyword : String}
      (headed : ∀ form ∈ forms, form.keyword? = some keyword)
      (other : keyword ≠ "memory" ∧ keyword ≠ "data") (rest : List Form) :=
    expandAll?_append_of_keyword headed other.1 other.2 rest
  have behindData : expandAll? ((entries module.exports).map Export.form ++
      ((entries module.elements).map ElementSegment.form ++ module.startForms)) =
        some .empty := by
    rw [skip module.keyword?_exportForms (by decide), skip module.keyword?_elementForms (by decide),
      ← List.append_nil module.startForms, skip module.keyword?_startForms (by decide)]
    rfl
  have behindMemories : expandAll? (module.tableForms ++ (module.dataForms ++
      ((entries module.exports).map Export.form ++
        ((entries module.elements).map ElementSegment.form ++ module.startForms)))) =
          some data := by
    rw [skip module.keyword?_tableForms (by decide), expandAll?_append dataExpand behindData,
      Expansion.append_empty]
  have children : expandAll? module.children = some module.expansion := by
    rw [Module.children, skip module.keyword?_typeForms (by decide),
      skip (keyword?_importForms 0 0 _) (by decide), skip module.keyword?_globalForms (by decide),
      skip module.keyword?_functionForms (by decide),
      expandAll?_append memoriesExpand behindMemories, same]
  have keyword : expandItem? (.word "module") = some .empty := rfl
  exact expandAll?_cons keyword children

/-- A module has a single data segment, at the start of a memory that it neither
defines nor imports. -/
structure LacksMemory (segment : DataSegment) : Prop where
  noMemory : entries module.memories = []
  notImported : ∀ item ∈ entries module.imports, item.desc.isMemory = false
  data : entries module.data = [segment]
  offset : segment.offset.instruction = ⟨.i32Const, .i32 0⟩

/-- An expansion lists the memories and the data segments of a module in their order.
Only to a segment that lacks a memory it adds one, of just the pages for the data. -/
structure ExpandsTo (expansion : Expansion) : Prop where
  segments : expansion.segments = (entries module.data).map DataSegment.inText
  /-- The form of an offset is that of no other instruction. -/
  offsets : ∀ segment ∈ entries module.data, ∀ (globals : Nat) (other : ConstExpr),
    other.Valid globals → other.form = segment.offset.form →
      other.instruction = segment.offset.instruction
  memories : (∀ segment, ¬ module.LacksMemory segment) →
    expansion.memories = (entries module.memories).map MemoryType.inText
  lacking : ∀ segment, module.LacksMemory segment →
    expansion.memories = [segment.ownMemory]

variable {module}

/-- No memory is counted exactly if none is imported. -/
theorem importedMemories_eq_zero_iff (numbered : module.Numbered) :
    module.importedMemories = 0 ↔
      ∀ item ∈ entries module.imports, item.desc.isMemory = false := by
  rw [← UInt32.toNat_inj, importedMemories, numbered.toNat_importCount]
  simp [List.countP_eq_zero]

/-- A segment that lacks a memory is written inside one. -/
theorem LacksMemory.folds
    {segment : DataSegment}
    (lacks : module.LacksMemory segment)
    (numbered : module.Numbered)
    (indexed : segment.memoryIndex = 0) :
    module.Folds segment where
  data := lacks.data
  memoryIndex := indexed
  offset := lacks.offset
  imported := (importedMemories_eq_zero_iff numbered).mpr lacks.notImported
  single := by simp [lacks.noMemory]
  fits := by simp [lacks.noMemory]

/-- The pages for data are counted exactly if the data is no longer than a section. -/
theorem toNat_pagesFor {length : Nat} (short : length < 2 ^ 32) :
    (pagesFor length).toNat = length ⌈/⌉ 65536 := by
  refine UInt32.toNat_ofNat_of_lt' ?_
  simp only [pageSize, UInt32.size]
  omega

/-- The only memory of a module whose data is written inside it. -/
theorem Folds.memories_eq
    {segment : DataSegment}
    (folds : module.Folds segment)
    (short : segment.init.length < 2 ^ 32)
    (nonempty : entries module.memories ≠ []) :
    (entries module.memories).map MemoryType.inText = [segment.ownMemory] := by
  obtain ⟨memory, same⟩ := List.length_eq_one_iff.mp
    (Nat.le_antisymm folds.single (List.length_pos_iff.mpr nonempty))
  have fits := folds.fits
  rw [same, List.forall_mem_singleton] at fits
  rw [same, List.map_singleton, MemoryType.inText, DataSegment.ownMemory, fits.1, fits.2,
    Option.map_some, toNat_pagesFor short]

/-- The length of data is written in a word in front of it. -/
theorem Short.init_lt
    (short : module.Short)
    {segment : DataSegment}
    (among : segment ∈ entries module.data) :
    segment.init.length < 2 ^ 32 := by
  obtain ⟨segments, present⟩ := Option.isSome_iff_exists.mp (isSome_of_mem_entries among)
  have isSection : module.section? (Section.data segments).id = some (.data segments) := by
    simp [Section.id, section?, present]
  obtain ⟨list, written, -⟩ := short _ ((mem_sections_iff _ _).mpr isSection)
  rw [present, entries_some] at among
  have allWritten : (Layout.all (segments.map DataSegment.layout)).Written list := written
  obtain ⟨part, partWritten⟩ := allWritten.of_mem_all (List.mem_map_of_mem among)
  obtain ⟨-, content⟩ := (Layout.written_measured _ _ _).mp partWritten
  obtain ⟨_, _, -, -, rest⟩ := (Layout.written_append _ _ _).mp content
  obtain ⟨_, _, -, -, bytes⟩ := (Layout.written_append _ _ _).mp rest
  obtain ⟨_, _, -, length, -⟩ := (Layout.written_append _ _ _).mp bytes
  exact length.natural_lt

/-- A module that folds a segment has no memory but that of the segment. -/
theorem expansion_of_folds {segment : DataSegment} (folds : module.Folds segment) :
    module.expansion = ⟨[segment.ownMemory], [⟨0, zeroOffset, segment.init⟩]⟩ := by
  rw [expansion, (module.foldedData?_eq_some_iff segment).mpr folds]

/-- A module that folds no segment has its own memories and segments. -/
theorem expansion_of_not_folds (unfolded : ∀ segment, ¬ module.Folds segment) :
    module.expansion = ⟨(entries module.memories).map MemoryType.inText,
      (entries module.data).map fun segment => ⟨0, segment.offset.form, segment.init⟩⟩ := by
  have notFolded : module.foldedData? = none :=
    Option.eq_none_iff_forall_ne_some.mpr fun segment folded =>
      unfolded segment ((module.foldedData?_eq_some_iff segment).mp folded)
  rw [expansion, notFolded]

/-- The expansion of a closed module, which is written in short sections, lists its
memories and data segments. -/
theorem Closed.expandsTo
    (closed : module.Closed)
    (numbered : module.Numbered)
    (short : module.Short) :
    module.ExpandsTo module.expansion where
  segments := by
    by_cases folded : ∃ segment, module.Folds segment
    · obtain ⟨segment, folds⟩ := folded
      -- The short form leaves out the offset, which can only be zero.
      have offset : segment.offset.form = zeroOffset := by
        rw [ConstExpr.form, folds.offset]
        rfl
      rw [expansion_of_folds folds, folds.data, List.map_singleton, DataSegment.inText,
        folds.memoryIndex, offset]
      rfl
    · rw [expansion_of_not_folds (not_exists.mp folded)]
      refine List.map_congr_left fun segment among => ?_
      rw [DataSegment.inText, (closed.data segment among).memory]
      rfl
  offsets := by
    intro segment among globals other otherValid same
    have sameOffset := ConstExpr.unsized_eq_of_form otherValid (closed.data segment among).offset
      same
    have sameInstruction := congrArg ConstExpr.instruction sameOffset
    exact sameInstruction
  memories := by
    intro notLacking
    by_cases folded : ∃ segment, module.Folds segment
    · obtain ⟨segment, folds⟩ := folded
      have among : segment ∈ entries module.data := by simp [folds.data]
      have nonempty : entries module.memories ≠ [] := fun noMemory =>
        notLacking segment ⟨noMemory, (importedMemories_eq_zero_iff numbered).mp folds.imported,
          folds.data, folds.offset⟩
      rw [expansion_of_folds folds, folds.memories_eq (short.init_lt among) nonempty]
    · rw [expansion_of_not_folds (not_exists.mp folded)]
  lacking := by
    intro segment lacks
    have among : segment ∈ entries module.data := by simp [lacks.data]
    rw [expansion_of_folds (lacks.folds numbered (closed.data segment among).memory)]

/-- The text of a decoded module expands to the memories and data segments of the
module. -/
theorem expandsTo_of_ofBytes
    {format : HeaderFormat}
    {input : List UInt8}
    (decoded : ofBytes format input = .ok module) :
    ∃ form expansion, Form.read module.text = some form ∧ form.expand? = some expansion ∧
      module.ExpandsTo expansion := by
  obtain ⟨_, _, -, -, -, -, -, closed⟩ := (ofBytes_eq_ok_iff _ _ _).mp decoded
  exact ⟨_, _, module.read_text, module.expand?_form,
    closed.expandsTo (numbered_of_ofBytes decoded) (short_of_ofBytes decoded)⟩

/-- Data that starts at zero and has no memory. -/
theorem expandsTo_of_lone_data :
    let input := Header.magicBytes ++ Header.versionBytes ++
      [11, 9, 1, 0, 0x41, 0, 0x0B, 3, 0x61, 0x22, 0]
    let segment : DataSegment := ⟨0, ⟨⟨.i32Const, .i32 0⟩, 3⟩, [0x61, 0x22, 0], 8⟩
    let module : Module := { magic := "\x00asm", version := 1, data := some [segment] }
    ofBytes .compact input = .ok module ∧ module.LacksMemory segment ∧
      ∃ form expansion, Form.read module.text = some form ∧ form.expand? = some expansion ∧
        module.ExpandsTo expansion := by
  intro input segment module
  have decoded : ofBytes .compact input = .ok module := by decide +kernel
  exact ⟨decoded, ⟨rfl, List.forall_mem_nil _, rfl, rfl⟩, expandsTo_of_ofBytes decoded⟩

end Module

end WebAssembly
