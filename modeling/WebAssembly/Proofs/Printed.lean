import WebAssembly.Proofs.Balance
import WebAssembly.Proofs.Words
import WebAssembly.Text.Module
import Mathlib.Data.List.Forall2

/-!
# The form of a module

The text of every part of a module is that of a form, and the text of a module is
read back as the form of the module. This holds of all modules, those that no
binary is decoded to included.
-/

namespace WebAssembly

open Form
open Token (IsWord IsLiteral Delimited Shows ofText)

-- Whatever else is imported, powers are those of the core library.
attribute [local instance (high)] instPowNat

/-! ## Forms of items -/

/-- The use of a type. -/
def typeUse (index : Nat) : Form := .list [.word "type", .word (typeName index)]

/-- The limits, as words. -/
def Limits.forms (limits : Limits) : List Form :=
  .word (toString limits.min.toNat) ::
    match limits.max with
    | none => []
    | some max => [.word (toString max.toNat)]

/-- The limits and the element type of a table. -/
def TableType.forms (type : TableType) : List Form :=
  match type.elemType with
  | .funcref => type.limits.forms ++ [.word "funcref"]

/-- The type of a global, within a list of its own if it is mutable. -/
def GlobalType.form (type : GlobalType) : Form :=
  match type.mutability with
  | .const => .word type.contentType.name
  | .var => .list [.word "mut", .word type.contentType.name]

/-- The results of a function. -/
def resultForms (results : List ValueType) : List Form :=
  results.map fun type => .list [.word "result", .word type.name]

/-- A signature without names. -/
def FuncType.form (type : FuncType) : Form :=
  .list (.word "func" ::
    ((type.params.map fun param => .list [.word "param", .word param.name]) ++
      resultForms type.results))

/-- The immediate of an instruction in a function with some params. -/
def Immediate.forms (op : Opcode) (params : Nat) : Immediate → List Form
  | .absent => []
  | .block .empty => []
  | .block (.value type) => resultForms [type]
  | .branchDepth depth => [.word (toString depth.toNat)]
  | .branchTable targets fallback =>
      (targets.map fun target => .word (toString target.toNat)) ++
        [.word (toString fallback.toNat)]
  | .functionIndex index => [.word (funcName index.toNat)]
  | .typeIndex index => [typeUse index.toNat]
  | .localIndex index => [.word (localName params index.toNat)]
  | .globalIndex index => [.word (globalName index.toNat)]
  | .memory argument =>
      (if argument.offset = 0 then []
        else [.word ("offset=" ++ toString argument.offset.toNat)]) ++
      (if argument.align = op.naturalAlignment then []
        else [.word ("align=" ++ toString (2 ^ min argument.align.toNat 63))])
  | .i32 value => [.word (toString value.toInt)]
  | .i64 value => [.word (toString value.toInt)]
  | .f32 bits => [.word (f32Literal bits)]
  | .f64 bits => [.word (f64Literal bits)]

/-- An instruction of a function with some params. -/
def Instruction.forms (params : Nat) (instruction : Instruction) : List Form :=
  .word instruction.opcode.mnemonic :: instruction.immediate.forms instruction.opcode params

/-- The immediate of a constant expression. -/
def Immediate.constForms : Immediate → List Form
  | .i32 value => [.word (toString value.toInt)]
  | .i64 value => [.word (toString value.toInt)]
  | .f32 bits => [.word (f32Literal bits)]
  | .f64 bits => [.word (f64Literal bits)]
  | .globalIndex index => [.word (globalName index.toNat)]
  | _ => []

/-- A constant expression. -/
def ConstExpr.form (expr : ConstExpr) : Form :=
  .list (.word expr.instruction.opcode.mnemonic :: expr.instruction.immediate.constForms)

/-- An element segment. -/
def ElementSegment.form (segment : ElementSegment) : Form :=
  .list (.word "elem" :: segment.offset.form ::
    segment.init.map fun index => .word (funcName index.toNat))

/-- The literal of a name. -/
def nameForm (text : String) : Form := .literal (text.toList.flatMap Quoted.nameChar)

/-- The literal of data. -/
def dataForm (bytes : List UInt8) : Form := .literal (bytes.flatMap Quoted.dataByte)

/-- A data segment. -/
def DataSegment.form (segment : DataSegment) : Form :=
  .list [.word "data", segment.offset.form, dataForm segment.init]

/-- What is exported. -/
def ExportDesc.form : ExportDesc → Form
  | .func index => .list [.word "func", .word (funcName index.toNat)]
  | .table index => .list [.word "table", .word (toString index.toNat)]
  | .memory index => .list [.word "memory", .word (toString index.toNat)]
  | .global index => .list [.word "global", .word (globalName index.toNat)]

/-- An export. -/
def Export.form (item : Export) : Form :=
  .list [.word "export", nameForm item.name, item.desc.form]

namespace Func

/-- The params of a function with their names. -/
def paramForms (function : Func) : List Form :=
  function.type.params.zipIdx.map fun (param, index) =>
    .list [.word "param", .word ("$p" ++ toString index), .word param.name]

/-- The locals of a function with their names, params apart. -/
def localForms (function : Func) : List Form :=
  (function.localTypes.zipIdx function.type.params.length).map fun (type, index) =>
    .list [.word "local", .word ("$l" ++ toString index), .word type.name]

/-- The instructions of a function. -/
def codeForms (function : Func) : List Form :=
  function.body.code.flatMap (Instruction.forms function.type.params.length)

/-- The items of the first line of a function. -/
def headerForms (function : Func) : List Form :=
  .word "func" :: .word (funcName function.index.toNat) :: typeUse function.typeIndex.toNat ::
    (function.paramForms ++ resultForms function.type.results)

/-- A function. -/
def form (function : Func) : Form :=
  .list (function.headerForms ++ (function.localForms ++ function.codeForms))

end Func

/-- What is imported, when some functions and globals came before. -/
def ImportDesc.form (functions globals : Nat) : ImportDesc → Form
  | .func typeIndex => .list [.word "func", .word (funcName functions), typeUse typeIndex.toNat]
  | .table type => .list (.word "table" :: type.forms)
  | .memory type => .list (.word "memory" :: type.limits.forms)
  | .global type => .list [.word "global", .word (globalName globals), type.form]

/-- An import. -/
def Import.form (functions globals : Nat) (item : Import) : Form :=
  .list [.word "import", nameForm item.moduleName, nameForm item.fieldName,
    item.desc.form functions globals]

/-- The imports when some functions and globals came before. -/
def importForms : (functions globals : Nat) → List Import → List Form
  | _, _, [] => []
  | functions, globals, item :: rest =>
      item.form functions globals ::
      importForms (functions + if item.desc.isFunc then 1 else 0)
        (globals + if item.desc.isGlobal then 1 else 0) rest

namespace Module

/-- The types. -/
def typeForms (module : Module) : List Form :=
  (entries module.types).zipIdx.map fun (type, index) =>
    .list [.word "type", .word (typeName index), type.form]

/-- The globals, which are numbered on from the imported ones. -/
def globalForms (module : Module) : List Form :=
  ((entries module.globals).zipIdx module.importedGlobals.toNat).map fun (item, index) =>
    .list [.word "global", .word (globalName index), item.type.form, item.init.form]

/-- The memories, or the one that a data segment is written into. -/
def memoryForms (module : Module) : List Form :=
  match module.foldedData? with
  | some segment => [.list [.word "memory", .list [.word "data", dataForm segment.init]]]
  | none => (entries module.memories).map fun type => .list (.word "memory" :: type.limits.forms)

/-- The tables. -/
def tableForms (module : Module) : List Form :=
  (entries module.tables).map fun type => .list (.word "table" :: type.forms)

/-- The data segments that stand on their own. -/
def dataForms (module : Module) : List Form :=
  match module.foldedData? with
  | some _ => []
  | none => (entries module.data).map DataSegment.form

/-- The start function. -/
def startForms (module : Module) : List Form :=
  match module.start with
  | some index => [.list [.word "start", .word (funcName index.toNat)]]
  | none => []

/-- The forms that a module consists of. -/
def children (module : Module) : List Form :=
  module.typeForms ++
    (importForms 0 0 (entries module.imports) ++
      (module.globalForms ++
        ((entries module.code).map Func.form ++
          (module.memoryForms ++
            (module.tableForms ++
              (module.dataForms ++
                ((entries module.exports).map Export.form ++
                  ((entries module.elements).map ElementSegment.form ++ module.startForms))))))))

/-- The form of a module. -/
def form (module : Module) : Form := .list (.word "module" :: module.children)

end Module

/-! ## Texts of items -/

namespace Form

/-- Forms that follow others are written side by side. -/
theorem renderRest_append (first second : List Form) :
    renderRest (first ++ second) = renderRest first ++ renderRest second := by
  induction first with
  | nil => simp [renderRest]
  | cons form rest inductionHypothesis =>
      simp [renderRest, inductionHypothesis, String.append_assoc]

/-- A list of a keyword and some forms. -/
theorem render_keyword (keyword : String) {forms : List Form} (nonempty : forms ≠ []) :
    (list (.word keyword :: forms)).render = "(" ++ keyword ++ " " ++ renderAll forms ++ ")" := by
  cases forms with
  | nil => exact absurd rfl nonempty
  | cons form rest => simp [render, renderAll, renderRest, String.append_assoc]

/-- Forms that are made one by one are written one by one. -/
theorem renderRest_map (form : α → Form) (items : List α) :
    renderRest (items.map form) =
      String.join (items.map fun item => " " ++ (form item).render) := by
  induction items with
  | nil => rfl
  | cons item rest inductionHypothesis =>
      rw [List.map_cons, renderRest, inductionHypothesis, List.map_cons, String.join_cons]

end Form

/-- The lemmas that follow say of each part of a module that its text is that of its
form. Results come first. -/
theorem resultFields_eq (results : List ValueType) :
    resultFields results = renderRest (resultForms results) := by
  apply String.toList_inj.mp
  simp [resultFields, resultForms, renderRest_map, render, renderAll, renderRest,
    List.flatMap_map]

theorem Limits.text_eq (limits : Limits) : limits.text = renderAll limits.forms := by
  cases present : limits.max <;>
    simp [Limits.text, Limits.forms, present, renderAll, renderRest, render]

theorem Limits.forms_ne_nil (limits : Limits) : limits.forms ≠ [] := List.cons_ne_nil _ _

theorem TableType.forms_ne_nil (type : TableType) : type.forms ≠ [] := by
  rw [TableType.forms]
  exact List.append_ne_nil_of_right_ne_nil _ (List.cons_ne_nil _ _)

theorem TableType.text_eq (type : TableType) : type.text = renderAll type.forms := by
  simp [TableType.text, TableType.forms, Limits.text_eq, Limits.forms, renderAll,
    renderRest_append, renderRest, render, String.append_assoc]

theorem GlobalType.text_eq (type : GlobalType) : type.text = type.form.render := by
  apply String.toList_inj.mp
  cases kind : type.mutability <;>
    simp [GlobalType.text, GlobalType.form, kind, renderAll, renderRest, render]

theorem FuncType.text_eq (type : FuncType) : type.text = type.form.render := by
  apply String.toList_inj.mp
  simp [FuncType.text, FuncType.form, resultFields_eq, render, renderAll, renderRest,
    renderRest_append, renderRest_map, List.flatMap_map]

/-- An immediate is written as its forms are, each behind a space. -/
theorem Immediate.text_eq (op : Opcode) (params : Nat) (immediate : Immediate) :
    immediate.text op params = renderRest (immediate.forms op params) := by
  cases immediate with
  | block type =>
      cases type with
      | empty => rfl
      | value type =>
          apply String.toList_inj.mp
          simp [Immediate.text, Immediate.forms, resultForms, renderRest, renderAll, render]
  | branchTable targets fallback =>
      simp [Immediate.text, Immediate.forms, renderRest_append, renderRest_map, renderRest, render,
        String.append_assoc]
  | typeIndex index =>
      apply String.toList_inj.mp
      simp [Immediate.text, Immediate.forms, typeUse, renderRest, renderAll, render]
  | memory argument =>
      apply String.toList_inj.mp
      by_cases noOffset : argument.offset = 0 <;>
        by_cases natural : argument.align = op.naturalAlignment <;>
          simp [Immediate.text, Immediate.forms, renderRest, render, noOffset, natural]
  | _ => simp [Immediate.text, Immediate.forms, renderRest, render]

/-- An instruction is written as its mnemonic and the forms of its immediate. -/
theorem Instruction.text_eq (params : Nat) (instruction : Instruction) :
    instruction.text params = renderAll (instruction.forms params) := by
  rw [Instruction.text, Immediate.text_eq, Instruction.forms, renderAll, render]

theorem Immediate.constText_eq (immediate : Immediate) :
    immediate.constText = renderRest immediate.constForms := by
  cases immediate <;> simp [Immediate.constText, Immediate.constForms, renderRest, render]

theorem ConstExpr.text_eq (expr : ConstExpr) : expr.text = expr.form.render := by
  simp [ConstExpr.text, ConstExpr.form, Immediate.constText_eq, render, renderAll,
    String.append_assoc]

theorem ElementSegment.text_eq (segment : ElementSegment) :
    segment.text = segment.form.render := by
  apply String.toList_inj.mp
  simp [ElementSegment.text, ElementSegment.form, ConstExpr.text_eq, render, renderAll,
    renderRest, renderRest_map, List.flatMap_map]

theorem DataSegment.text_eq (segment : DataSegment) : segment.text = segment.form.render := by
  apply String.toList_inj.mp
  simp [DataSegment.text, DataSegment.form, dataForm, Quoted.data, ConstExpr.text_eq, render,
    renderAll, renderRest]

theorem ExportDesc.text_eq (desc : ExportDesc) : desc.text = desc.form.render := by
  apply String.toList_inj.mp
  cases desc <;> simp [ExportDesc.text, ExportDesc.form, render, renderAll, renderRest]

theorem Export.text_eq (item : Export) : item.text = item.form.render := by
  apply String.toList_inj.mp
  simp [Export.text, Export.form, nameForm, Quoted.name, ExportDesc.text_eq, render, renderAll,
    renderRest]

/-- The header of a function is not closed, as the body follows. -/
theorem Func.headerText_eq (function : Func) :
    function.headerText = "(" ++ renderAll function.headerForms := by
  apply String.toList_inj.mp
  simp [Func.headerText, Func.headerForms, Func.paramForms, typeUse, resultFields_eq, render,
    renderAll, renderRest, renderRest_append, renderRest_map, List.flatMap_map]

/-! ## Proper forms -/

section Proper

open Token

/-- The forms of the parts of a module are proper: their words and literals can be read
back. -/
theorem proper_typeUse (index : Nat) : (typeUse index).Proper :=
  proper_keyword (by decide) ⟨isWord_typeName index, trivial⟩

theorem proper_resultForms (results : List ValueType) : ProperAll (resultForms results) := by
  rw [properAll_iff, resultForms, List.forall_mem_map]
  exact fun type _ => proper_keyword (by decide) ⟨isWord_valueType type, trivial⟩

theorem Limits.proper_forms (limits : Limits) : ProperAll limits.forms := by
  rw [Limits.forms]
  split
  · exact ⟨isWord_natural _, trivial⟩
  · exact ⟨isWord_natural _, isWord_natural _, trivial⟩

theorem TableType.proper_forms (type : TableType) : ProperAll type.forms := by
  rw [properAll_iff, TableType.forms, List.forall_mem_append]
  refine ⟨(properAll_iff _).mp type.limits.proper_forms, ?_⟩
  exact List.forall_mem_singleton.mpr (proper_word (by decide))

theorem GlobalType.proper_form (type : GlobalType) : type.form.Proper := by
  rw [GlobalType.form]
  split
  · exact isWord_valueType _
  · exact proper_keyword (by decide) ⟨isWord_valueType _, trivial⟩

theorem FuncType.proper_form (type : FuncType) : type.form.Proper := by
  refine proper_keyword (by decide) ?_
  rw [properAll_iff, List.forall_mem_append, List.forall_mem_map]
  exact ⟨fun param _ => proper_keyword (by decide) ⟨isWord_valueType param, trivial⟩,
    (properAll_iff _).mp (proper_resultForms _)⟩

/-- An immediate has proper forms behind any opcode. -/
theorem Immediate.proper_forms (op : Opcode) (params : Nat) (immediate : Immediate) :
    ProperAll (immediate.forms op params) := by
  cases immediate with
  | absent => trivial
  | block type =>
      cases type with
      | empty => trivial
      | value type => exact proper_resultForms [type]
  | branchDepth depth => exact ⟨isWord_natural _, trivial⟩
  | branchTable targets fallback =>
      rw [properAll_iff, Immediate.forms, List.forall_mem_append, List.forall_mem_map]
      exact ⟨fun target _ => isWord_natural _,
        List.forall_mem_singleton.mpr (isWord_natural _)⟩
  | functionIndex index => exact ⟨isWord_funcName _, trivial⟩
  | typeIndex index => exact ⟨proper_typeUse _, trivial⟩
  | localIndex index => exact ⟨isWord_localName _ _, trivial⟩
  | globalIndex index => exact ⟨isWord_globalName _, trivial⟩
  | memory argument =>
      rw [properAll_iff, Immediate.forms, List.forall_mem_append]
      constructor
      · split
        · simp
        · exact List.forall_mem_singleton.mpr
            (IsWord.append (by decide) (isWord_natural _).free)
      · split
        · simp
        · exact List.forall_mem_singleton.mpr
            (IsWord.append (by decide) (isWord_natural _).free)
  | i32 value => exact ⟨isWord_integer _, trivial⟩
  | i64 value => exact ⟨isWord_integer _, trivial⟩
  | f32 bits => exact ⟨isWord_floatLiteral _ _, trivial⟩
  | f64 bits => exact ⟨isWord_floatLiteral _ _, trivial⟩

theorem Instruction.proper_forms (params : Nat) (instruction : Instruction) :
    ProperAll (instruction.forms params) :=
  ⟨isWord_mnemonic _, Immediate.proper_forms _ _ _⟩

theorem ConstExpr.proper_form (expr : ConstExpr) : expr.form.Proper := by
  refine ⟨isWord_mnemonic _, ?_⟩
  cases expr.instruction.immediate with
  | i32 value => exact ⟨isWord_integer _, trivial⟩
  | i64 value => exact ⟨isWord_integer _, trivial⟩
  | f32 bits => exact ⟨isWord_floatLiteral _ _, trivial⟩
  | f64 bits => exact ⟨isWord_floatLiteral _ _, trivial⟩
  | globalIndex index => exact ⟨isWord_globalName _, trivial⟩
  | _ => trivial

theorem ElementSegment.proper_form (segment : ElementSegment) : segment.form.Proper := by
  refine proper_keyword (by decide) ⟨segment.offset.proper_form, ?_⟩
  rw [properAll_iff, List.forall_mem_map]
  exact fun index _ => isWord_funcName _

theorem proper_nameForm (text : String) : (nameForm text).Proper :=
  isLiteral_flatMap isLiteral_nameChar _

theorem proper_dataForm (bytes : List UInt8) : (dataForm bytes).Proper :=
  isLiteral_flatMap isLiteral_dataByte _

theorem DataSegment.proper_form (segment : DataSegment) : segment.form.Proper :=
  proper_keyword (by decide) ⟨segment.offset.proper_form, proper_dataForm _, trivial⟩

theorem ExportDesc.proper_form (desc : ExportDesc) : desc.form.Proper := by
  cases desc with
  | func index => exact proper_keyword (by decide) ⟨isWord_funcName _, trivial⟩
  | table index => exact proper_keyword (by decide) ⟨isWord_natural _, trivial⟩
  | memory index => exact proper_keyword (by decide) ⟨isWord_natural _, trivial⟩
  | global index => exact proper_keyword (by decide) ⟨isWord_globalName _, trivial⟩

theorem Export.proper_form (item : Export) : item.form.Proper :=
  proper_keyword (by decide) ⟨proper_nameForm _, item.desc.proper_form, trivial⟩

theorem Func.proper_headerForms (function : Func) : ProperAll function.headerForms := by
  refine ⟨proper_word (by decide), isWord_funcName _, proper_typeUse _, ?_⟩
  rw [properAll_iff, List.forall_mem_append, Func.paramForms, List.forall_mem_map]
  refine ⟨fun param _ => proper_keyword (by decide) ⟨?_, isWord_valueType _, trivial⟩,
    (properAll_iff _).mp (proper_resultForms _)⟩
  exact IsWord.append (by decide) (isWord_natural _).free

theorem ImportDesc.proper_form (functions globals : Nat) (desc : ImportDesc) :
    (desc.form functions globals).Proper := by
  cases desc with
  | func typeIndex =>
      exact proper_keyword (by decide) ⟨isWord_funcName _, proper_typeUse _, trivial⟩
  | table type => exact proper_keyword (by decide) type.proper_forms
  | memory type => exact proper_keyword (by decide) type.limits.proper_forms
  | global type => exact proper_keyword (by decide) ⟨isWord_globalName _, type.proper_form, trivial⟩

theorem Import.proper_form (functions globals : Nat) (item : Import) :
    (item.form functions globals).Proper :=
  proper_keyword (by decide)
    ⟨proper_nameForm _, proper_nameForm _, item.desc.proper_form _ _, trivial⟩

end Proper

/-! ## Texts of lines -/

namespace Line

/-- Lines are scanned to some tokens. -/
def Scan (lines : List Line) (tokens : List Token) : Prop :=
  ofText (String.join (lines.map render)) = some tokens

/-- A line has the tokens of its text. -/
theorem ofText_render (line : Line) : ofText line.render = ofText line.text := by
  have indented (count : Nat) (chars : List Char) :
      Token.run .between (List.replicate count ' ' ++ chars) = Token.run .between chars := by
    induction count with
    | zero => rfl
    | succ count inductionHypothesis =>
        rw [List.replicate_succ, List.cons_append, Token.run_cons]
        exact inductionHypothesis
  have chars : line.render.toList =
      '\n' :: (List.replicate (2 * min maxDepth line.depth) ' ' ++ line.text.toList) := by
    simp [render, indentation]
  have scanned : Token.run .between line.render.toList =
      Token.run .between line.text.toList := by
    rw [chars, Token.run_cons]
    exact indented _ _
  rw [ofText, ofText, scanned]

theorem delimited_render (line : Line) : Delimited line.render := by
  intro char head
  obtain rfl : '\n' = char := by simpa [render] using head
  rfl

theorem delimited_lines (lines : List Line) : Delimited (String.join (lines.map render)) :=
  Token.delimited_join (List.forall_mem_map.mpr fun line _ => line.delimited_render)

theorem scan_nil : Scan [] [] := rfl

theorem scan_cons
    {text : String}
    {front : List Token}
    (scanned : ofText text = some front)
    (depth : Nat)
    {lines : List Line}
    {back : List Token}
    (scan : Scan lines back) :
    Scan (⟨depth, text⟩ :: lines) (front ++ back) := by
  rw [Scan, List.map_cons, String.join_cons]
  exact Token.ofText_append ((ofText_render _).trans scanned) scan (delimited_lines lines)

theorem Scan.append
    {first second : List Line}
    {front back : List Token}
    (scan : Scan first front)
    (others : Scan second back) :
    Scan (first ++ second) (front ++ back) := by
  rw [Scan, List.map_append, String.join_append]
  exact Token.ofText_append scan others (delimited_lines second)

/-- Lines that hold a form each are scanned to the tokens of these forms. -/
theorem scan_map
    (depth : Nat)
    {text : α → String}
    {form : α → Form}
    (texts : ∀ item, text item = (form item).render)
    (proper : ∀ item, (form item).Proper)
    (items : List α) :
    Scan (items.map fun item => ⟨depth, text item⟩) (tokensAll (items.map form)) := by
  induction items with
  | nil => exact scan_nil
  | cons item rest inductionHypothesis =>
      rw [List.map_cons, List.map_cons, texts]
      exact scan_cons (Form.ofText_render _ (proper item)) depth inductionHypothesis

theorem render_one (text : String) : render ⟨1, text⟩ = "\n  " ++ text := by
  apply String.toList_inj.mp
  simp [render, indentation, maxDepth]

/-- What follows the indentation of a line and the lines behind it is scanned alike. -/
theorem Scan.ofText_append_join
    {line : Line}
    {rest : List Line}
    {tokens : List Token}
    (scan : Scan (line :: rest) tokens) :
    ofText (line.text ++ String.join (rest.map render)) = some tokens := by
  rw [← ofText_render ⟨line.depth, line.text ++ String.join (rest.map render)⟩, ← scan]
  rw [List.map_cons, String.join_cons, render, render, String.append_assoc, String.append_assoc,
    String.append_assoc]

/-- Lines show some forms, each of which starts a line that is indented by two spaces. -/
def Lays (lines : List Line) (forms : List Form) : Prop :=
  ∃ texts, String.join (lines.map render) = String.join (texts.map ("\n  " ++ ·)) ∧
    List.Forall₂ Shows texts forms

theorem lays_nil : Lays [] [] := ⟨[], rfl, .nil⟩

theorem Lays.append
    {first second : List Line}
    {front back : List Form}
    (lays : Lays first front)
    (others : Lays second back) :
    Lays (first ++ second) (front ++ back) := by
  obtain ⟨texts, same, shown⟩ := lays
  obtain ⟨otherTexts, otherSame, otherShown⟩ := others
  refine ⟨texts ++ otherTexts, ?_, List.rel_append shown otherShown⟩
  rw [List.map_append, String.join_append, same, otherSame, List.map_append, String.join_append]

/-- A form may go on over further lines, whatever their depths. -/
theorem lays_block
    {text : String}
    {rest : List Line}
    {form : Form}
    (shows : Shows (text ++ String.join (rest.map render)) form) :
    Lays (⟨1, text⟩ :: rest) [form] := by
  refine ⟨[text ++ String.join (rest.map render)], ?_, .cons shows .nil⟩
  rw [List.map_cons, String.join_cons, render_one, List.map_singleton, String.join_cons,
    String.append_assoc]
  simp

/-- A line that shows a form lays it out in front of others. -/
theorem Lays.cons
    {text : String}
    {form : Form}
    (shows : Shows text form)
    {lines : List Line}
    {forms : List Form}
    (lays : Lays lines forms) :
    Lays (⟨1, text⟩ :: lines) (form :: forms) := by
  have single : Lays [⟨1, text⟩] [form] := lays_block (by simpa using shows)
  exact single.append lays

/-- A form on a line of its own is laid out by it. -/
theorem lays_singleton
    {text : String}
    {form : Form}
    (same : text = form.render)
    (isList : form.isList = true)
    (proper : form.Proper) :
    Lays [⟨1, text⟩] [form] := by
  rw [same]
  exact .cons (shows_render isList proper) lays_nil

/-- Lines that hold a list each show these lists. -/
theorem lays_map
    {text : α → String}
    {form : α → Form}
    (texts : ∀ item, text item = (form item).render)
    (isList : ∀ item, (form item).isList = true)
    (proper : ∀ item, (form item).Proper)
    (items : List α) :
    Lays (items.map fun item => ⟨1, text item⟩) (items.map form) := by
  induction items with
  | nil => exact lays_nil
  | cons item rest inductionHypothesis =>
      rw [List.map_cons, List.map_cons, texts]
      exact .cons (shows_render (isList item) (proper item)) inductionHypothesis

/-- Forms that are laid out one by one are laid out together. -/
theorem lays_flatMap
    {lines : α → List Line}
    {form : α → Form}
    (lays : ∀ item, Lays (lines item) [form item])
    (items : List α) :
    Lays (items.flatMap lines) (items.map form) := by
  induction items with
  | nil => exact lays_nil
  | cons item rest inductionHypothesis => exact (lays item).append inductionHypothesis

/-- Lines that show some forms are scanned to the tokens of these. -/
theorem Lays.scan
    {lines : List Line}
    {forms : List Form}
    (lays : Lays lines forms) :
    Scan lines (tokensAll forms) := by
  obtain ⟨texts, same, shown⟩ := lays
  rw [Scan, same]
  clear same
  induction shown with
  | nil => rfl
  | @cons text form texts forms shows _ inductionHypothesis =>
      have delimited : Delimited (String.join (texts.map ("\n  " ++ ·))) :=
        Token.delimited_join (List.forall_mem_map.mpr fun text _ => by
          rw [← render_one]
          exact delimited_render _)
      rw [List.map_cons, String.join_cons, tokensAll, ← render_one]
      exact Token.ofText_append ((ofText_render _).trans shows.scanned) inductionHypothesis
        delimited

end Line

/-- The lines of some instructions are scanned to the tokens of these, whatever
their depths. -/
theorem scan_codeLines
    (params base depth : Nat)
    (code : List Instruction)
    {earlier : List Line}
    {front : List Token}
    (scan : Line.Scan earlier.reverse front) :
    Line.Scan (codeLines params base depth code earlier)
      (front ++ tokensAll (code.flatMap (Instruction.forms params))) := by
  induction code generalizing depth earlier front with
  | nil =>
      rw [List.flatMap_nil, tokensAll, List.append_nil]
      exact scan
  | cons instruction rest inductionHypothesis =>
      have scanned : ofText (instruction.text params) =
          some (tokensAll (instruction.forms params)) := by
        rw [Instruction.text_eq]
        exact ofText_renderAll _ (Instruction.proper_forms _ _)
      rw [List.flatMap_cons, tokensAll_append, ← List.append_assoc]
      apply inductionHypothesis
      rw [List.reverse_cons]
      have single := Line.scan_cons scanned (instruction.opcode.place base depth).1 Line.scan_nil
      rw [List.append_nil] at single
      exact scan.append single

/-- The lines of a function have the tokens of its form. -/
theorem Func.scan_lines (function : Func) : Line.Scan function.lines function.form.tokens := by
  have header : ofText function.headerText =
      some (.opening :: tokensAll function.headerForms) := by
    rw [function.headerText_eq]
    exact ofText_opened (ofText_renderAll _ function.proper_headerForms)
  have locals : Line.Scan function.localLines (tokensAll function.localForms) := by
    refine Line.scan_map 2 (fun item => ?_) (fun item => ?_) _
    · apply String.toList_inj.mp
      simp [render, renderAll, renderRest]
    · exact proper_keyword (by decide)
        ⟨Token.IsWord.append (by decide) (Token.isWord_natural _).free,
          Token.isWord_valueType _, trivial⟩
  have code : Line.Scan (codeLines function.type.params.length 2 2 function.body.code [])
      ([] ++ tokensAll function.codeForms) :=
    scan_codeLines _ _ _ _ Line.scan_nil
  have closing : Line.Scan [⟨1, ")"⟩] [.closing] := rfl
  have all := Line.scan_cons header 1 ((locals.append code).append closing)
  simpa [Func.lines, Func.form, Form.tokens, Func.codeForms] using all

/-- The lines of a function lay out its form. -/
theorem Func.lays_lines (function : Func) : Line.Lays function.lines [function.form] := by
  have scanned := function.scan_lines.ofText_append_join
  refine Line.lays_block ⟨Token.enclosed_of_ofText scanned ?_ ?_, scanned⟩
  · simp [function.headerText_eq]
  · rw [List.map_append, List.map_singleton, String.join_append, Line.render_one]
    simp [List.getLast?_append]

/-- The text of an import, given that of what is imported. -/
theorem import_text_eq (item : Import) (functions globals : Nat) (form : String)
    (same : form = (item.desc.form functions globals).render) :
    "(import " ++ Quoted.name item.moduleName ++ " " ++ Quoted.name item.fieldName ++ " " ++
        form ++ ")" =
      (item.form functions globals).render := by
  apply String.toList_inj.mp
  simp [same, Import.form, nameForm, Quoted.name, render, renderAll, renderRest]

/-- Imports are laid out one by one, under their two counters. -/
theorem lays_importLines (functions globals : Nat) (items : List Import) :
    Line.Lays (importLines functions globals items) (importForms functions globals items) := by
  induction items generalizing functions globals with
  | nil => exact Line.lays_nil
  | cons item rest inductionHypothesis =>
      have shows {form : String} (same : form = (item.desc.form functions globals).render) :
          Shows ("(import " ++ Quoted.name item.moduleName ++ " " ++
              Quoted.name item.fieldName ++ " " ++ form ++ ")")
            (item.form functions globals) := by
        rw [import_text_eq item functions globals form same]
        exact shows_render rfl (item.proper_form functions globals)
      rw [importLines, importForms]
      cases kind : item.desc with
      | func typeIndex =>
          refine Line.Lays.cons (shows ?_) (inductionHypothesis _ _)
          apply String.toList_inj.mp
          simp [kind, ImportDesc.form, typeUse, render, renderAll, renderRest]
      | table type =>
          refine Line.Lays.cons (shows ?_) (inductionHypothesis _ _)
          apply String.toList_inj.mp
          simp [kind, ImportDesc.form, TableType.text_eq, render_keyword, type.forms_ne_nil]
      | memory type =>
          refine Line.Lays.cons (shows ?_) (inductionHypothesis _ _)
          apply String.toList_inj.mp
          simp [kind, ImportDesc.form, MemoryType.text, Limits.text_eq, render_keyword,
            type.limits.forms_ne_nil]
      | global type =>
          refine Line.Lays.cons (shows ?_) (inductionHypothesis _ _)
          apply String.toList_inj.mp
          simp [kind, ImportDesc.form, GlobalType.text_eq, render, renderAll, renderRest]

namespace Module

variable (module : Module)

/-- Each kind of line of a module lays out the forms of this kind. -/
theorem lays_typeLines : Line.Lays module.typeLines module.typeForms := by
  refine Line.lays_map (fun item => ?_) (fun _ => rfl) (fun item => ?_) _
  · apply String.toList_inj.mp
    simp [FuncType.text_eq, render, renderAll, renderRest]
  · exact proper_keyword (by decide) ⟨Token.isWord_typeName _, item.1.proper_form, trivial⟩

theorem lays_globalLines : Line.Lays module.globalLines module.globalForms := by
  refine Line.lays_map (fun item => ?_) (fun _ => rfl) (fun item => ?_) _
  · apply String.toList_inj.mp
    simp [GlobalType.text_eq, ConstExpr.text_eq, render, renderAll, renderRest]
  · exact proper_keyword (by decide)
      ⟨Token.isWord_globalName _, item.1.type.proper_form, item.1.init.proper_form, trivial⟩

theorem lays_memoryLines : Line.Lays module.memoryLines module.memoryForms := by
  rw [memoryLines, memoryForms]
  cases module.foldedData? with
  | some segment =>
      refine Line.lays_singleton ?_ rfl ?_
      · apply String.toList_inj.mp
        simp [dataForm, Quoted.data, render, renderAll, renderRest]
      · exact proper_keyword (by decide)
          ⟨proper_keyword (by decide) ⟨proper_dataForm segment.init, trivial⟩, trivial⟩
  | none =>
      refine Line.lays_map (fun type => ?_) (fun _ => rfl) (fun type => ?_) _
      · rw [MemoryType.text, Limits.text_eq, render_keyword _ type.limits.forms_ne_nil]
        rfl
      · exact proper_keyword (by decide) type.limits.proper_forms

theorem lays_tableLines : Line.Lays module.tableLines module.tableForms := by
  refine Line.lays_map (fun type => ?_) (fun _ => rfl) (fun type => ?_) _
  · rw [TableType.text_eq, render_keyword _ type.forms_ne_nil]
    rfl
  · exact proper_keyword (by decide) type.proper_forms

theorem lays_dataLines : Line.Lays module.dataLines module.dataForms := by
  rw [dataLines, dataForms]
  cases module.foldedData? with
  | some segment => exact Line.lays_nil
  | none => exact Line.lays_map DataSegment.text_eq (fun _ => rfl) DataSegment.proper_form _

theorem lays_startLines : Line.Lays module.startLines module.startForms := by
  rw [startLines, startForms]
  cases module.start with
  | some index =>
      refine Line.lays_singleton ?_ rfl ?_
      · apply String.toList_inj.mp
        simp [render, renderAll, renderRest]
      · exact proper_keyword (by decide) ⟨Token.isWord_funcName _, trivial⟩
  | none => exact Line.lays_nil

/-- The lines of a module show its children. -/
theorem lays_lines : Line.Lays module.lines module.children := by
  have functions := Line.lays_flatMap Func.lays_lines (entries module.code)
  have exports := Line.lays_map Export.text_eq (fun _ => rfl) Export.proper_form
    (entries module.exports)
  have elements := Line.lays_map ElementSegment.text_eq (fun _ => rfl) ElementSegment.proper_form
    (entries module.elements)
  have all := module.lays_typeLines.append ((lays_importLines 0 0 (entries module.imports)).append
    (module.lays_globalLines.append (functions.append (module.lays_memoryLines.append
      (module.lays_tableLines.append (module.lays_dataLines.append (exports.append
        (elements.append module.lays_startLines))))))))
  simpa only [lines, children, List.append_assoc] using all

/-- The text of a module up to its last parenthesis. -/
def formText (module : Module) : String :=
  "(module" ++ String.join (module.lines.map Line.render) ++
    ((if module.lines.isEmpty then "" else "\n") ++ ")")

/-- The text of a module is the text of its form and a line break. -/
theorem text_eq : module.text = module.formText ++ "\n" := by
  apply String.toList_inj.mp
  simp [text, formText]

/-- The text of a module has the tokens of its form. -/
theorem ofText_formText : ofText module.formText = some module.form.tokens := by
  have front : ofText ("(module" ++ String.join (module.lines.map Line.render)) =
      some ([.opening, .word "module"] ++ tokensAll module.children) :=
    Token.ofText_append rfl module.lays_lines.scan (Line.delimited_lines _)
  have closing : ofText ((if module.lines.isEmpty then "" else "\n") ++ ")") =
      some [.closing] := by
    split <;> rfl
  have delimited : Delimited ((if module.lines.isEmpty then "" else "\n") ++ ")") := by
    intro char head
    split at head
    · obtain rfl : ')' = char := by simpa using head
      rfl
    · obtain rfl : '\n' = char := by simpa using head
      rfl
  have all := Token.ofText_append front closing delimited
  simpa [formText, form, tokens, tokensAll] using all

/-- The text of a module shows its form. -/
theorem shows_formText : Shows module.formText module.form := by
  have scanned := module.ofText_formText
  refine ⟨Token.enclosed_of_ofText scanned ?_ ?_, scanned⟩
  · simp [formText]
  · rw [formText, ← String.append_assoc]
    exact Token.getLast?_append_closing _

/-- The text of a module is read as the form of the module. -/
theorem read_text : Form.read module.text = some module.form := by
  have broken : ofText "\n" = some [] := rfl
  have delimited : Delimited "\n" := by
    intro char head
    obtain rfl : '\n' = char := by simpa using head
    rfl
  have scanned := Token.ofText_append module.ofText_formText broken delimited
  rw [List.append_nil, ← text_eq] at scanned
  exact read_of_ofText scanned

end Module

/-! ## Forms by keyword -/

namespace Form

/-- The items of a list. -/
def items : Form → List Form
  | .list items => items
  | _ => []

/-- The word that a list begins with. -/
def keyword? : Form → Option String
  | .list (.word keyword :: _) => some keyword
  | _ => none

/-- The items of a form that begin with a keyword. -/
def named (keyword : String) (form : Form) : List Form :=
  form.items.filter fun item => item.keyword? = some keyword

/-- Of forms with one keyword, those with another one are none. -/
theorem filter_keyword
    {forms : List Form}
    {keyword : String}
    (headed : ∀ form ∈ forms, form.keyword? = some keyword)
    (other : String) :
    (forms.filter fun form => form.keyword? = some other) =
      if keyword = other then forms else [] := by
  split
  · rename_i same
    rw [List.filter_eq_self]
    intro form among
    simpa [same] using headed form among
  · rename_i different
    rw [List.filter_eq_nil_iff]
    intro form among
    simpa [headed form among] using different

end Form

/-- Each kind of form of a module has its own keyword. -/
theorem keyword?_importForms (functions globals : Nat) (items : List Import) :
    ∀ form ∈ importForms functions globals items, form.keyword? = some "import" := by
  induction items generalizing functions globals with
  | nil => simp [importForms]
  | cons item rest inductionHypothesis =>
      exact List.forall_mem_cons.mpr ⟨rfl, inductionHypothesis _ _⟩

namespace Module

variable (module : Module)

theorem keyword?_typeForms : ∀ form ∈ module.typeForms, form.keyword? = some "type" :=
  List.forall_mem_map.mpr fun _ _ => rfl

theorem keyword?_globalForms : ∀ form ∈ module.globalForms, form.keyword? = some "global" :=
  List.forall_mem_map.mpr fun _ _ => rfl

theorem keyword?_functionForms :
    ∀ form ∈ (entries module.code).map Func.form, form.keyword? = some "func" :=
  List.forall_mem_map.mpr fun _ _ => rfl

theorem keyword?_memoryForms : ∀ form ∈ module.memoryForms, form.keyword? = some "memory" := by
  rw [memoryForms]
  split
  · exact List.forall_mem_singleton.mpr rfl
  · exact List.forall_mem_map.mpr fun _ _ => rfl

theorem keyword?_tableForms : ∀ form ∈ module.tableForms, form.keyword? = some "table" :=
  List.forall_mem_map.mpr fun _ _ => rfl

theorem keyword?_dataForms : ∀ form ∈ module.dataForms, form.keyword? = some "data" := by
  rw [dataForms]
  split
  · simp
  · exact List.forall_mem_map.mpr fun _ _ => rfl

theorem keyword?_exportForms :
    ∀ form ∈ (entries module.exports).map Export.form, form.keyword? = some "export" :=
  List.forall_mem_map.mpr fun _ _ => rfl

theorem keyword?_elementForms :
    ∀ form ∈ (entries module.elements).map ElementSegment.form, form.keyword? = some "elem" :=
  List.forall_mem_map.mpr fun _ _ => rfl

theorem keyword?_startForms : ∀ form ∈ module.startForms, form.keyword? = some "start" := by
  rw [startForms]
  split
  · exact List.forall_mem_singleton.mpr rfl
  · simp

/-- The items of a module with a keyword. -/
theorem named_form (keyword : String) :
    module.form.named keyword =
      (if "type" = keyword then module.typeForms else []) ++
      ((if "import" = keyword then importForms 0 0 (entries module.imports) else []) ++
      ((if "global" = keyword then module.globalForms else []) ++
      ((if "func" = keyword then (entries module.code).map Func.form else []) ++
      ((if "memory" = keyword then module.memoryForms else []) ++
      ((if "table" = keyword then module.tableForms else []) ++
      ((if "data" = keyword then module.dataForms else []) ++
      ((if "export" = keyword then (entries module.exports).map Export.form else []) ++
      ((if "elem" = keyword then (entries module.elements).map ElementSegment.form else []) ++
      (if "start" = keyword then module.startForms else []))))))))) := by
  have notKeyword : (Form.word "module").keyword? = none := rfl
  simp only [named, form, items, List.filter_cons, notKeyword, reduceCtorEq, decide_false,
    Bool.false_eq_true, if_false, children, List.filter_append,
    filter_keyword (keyword?_importForms 0 0 _), filter_keyword module.keyword?_typeForms,
    filter_keyword module.keyword?_globalForms, filter_keyword module.keyword?_functionForms,
    filter_keyword module.keyword?_memoryForms, filter_keyword module.keyword?_tableForms,
    filter_keyword module.keyword?_dataForms, filter_keyword module.keyword?_exportForms,
    filter_keyword module.keyword?_elementForms, filter_keyword module.keyword?_startForms]

end Module

end WebAssembly
