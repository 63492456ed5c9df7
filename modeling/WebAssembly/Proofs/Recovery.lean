import WebAssembly.Proofs.Float
import WebAssembly.Proofs.Names
import WebAssembly.Proofs.NormalForm

/-!
# Recovering a module from its text

Parts of modules with the same form have the same normal form, so that the texts of
two decoded modules are the same exactly if their normal forms are. What tells the
instructions of a function apart is that each begins with a word spelled like a
mnemonic, as no operand is.
-/

namespace WebAssembly

open Form
open Token (IsPlain IsOperand)

/-! ## Lists of forms -/

/-- If items are recovered from their forms, so are lists of them. -/
theorem map_eq_of_map_eq
    {form : α → Form}
    (normal : α → β)
    {first second : List α}
    (recovers : ∀ item ∈ first, ∀ other ∈ second, form item = form other →
      normal item = normal other)
    (same : first.map form = second.map form) :
    first.map normal = second.map normal := by
  induction first generalizing second with
  | nil =>
      obtain rfl := List.map_eq_nil_iff.mp same.symm
      rfl
  | cons item rest inductionHypothesis =>
      obtain ⟨other, others, rfl, sameItem, sameRest⟩ := List.map_eq_cons_iff.mp same.symm
      rw [List.map_cons, List.map_cons, recovers item (by simp) other (by simp) sameItem.symm,
        inductionHypothesis (fun item among other otherAmong =>
          recovers item (List.mem_cons_of_mem _ among) other (List.mem_cons_of_mem _ otherAmong))
          sameRest.symm]

/-- Numbered items are recovered even if they are numbered from elsewhere. -/
theorem map_eq_of_map_zipIdx_eq
    {form : α × Nat → Form}
    (normal : α → β)
    {first second : List α}
    {start otherStart : Nat}
    (recovers : ∀ item ∈ first, ∀ other ∈ second, ∀ index otherIndex,
      form (item, index) = form (other, otherIndex) → normal item = normal other)
    (same : (first.zipIdx start).map form = (second.zipIdx otherStart).map form) :
    first.map normal = second.map normal := by
  have numbered := map_eq_of_map_eq (fun item : α × Nat => normal item.1)
    (fun item among other otherAmong => recovers item.1 (List.fst_mem_of_mem_zipIdx among)
      other.1 (List.fst_mem_of_mem_zipIdx otherAmong) item.2 other.2) same
  have items (list : List α) (start : Nat) :
      (list.zipIdx start).map (fun item : α × Nat => normal item.1) = list.map normal := by
    rw [← List.zipIdx_map_fst start list, List.map_map, List.zipIdx_map_fst]
    rfl
  rwa [items, items] at numbered

/-- What an instruction begins with, and no operand. -/
def Form.IsHead : Form → Prop
  | .word text => IsPlain text
  | _ => False

/-- Where the first head stands is the same in equal lists. -/
theorem append_inj_of_heads
    {first second back rest : List Form}
    (firstOnly : ∀ form ∈ first, ¬ form.IsHead)
    (secondOnly : ∀ form ∈ second, ¬ form.IsHead)
    (backHead : ∀ form ∈ back.head?, form.IsHead)
    (restHead : ∀ form ∈ rest.head?, form.IsHead)
    (same : first ++ back = second ++ rest) :
    first = second ∧ back = rest := by
  induction first generalizing second with
  | nil =>
      cases second with
      | nil => exact ⟨rfl, same⟩
      | cons form others =>
          rw [List.nil_append, List.cons_append] at same
          exact absurd (backHead form (by rw [same]; rfl)) (secondOnly form List.mem_cons_self)
  | cons form others inductionHypothesis =>
      cases second with
      | nil =>
          rw [List.nil_append, List.cons_append] at same
          exact absurd (restHead form (by rw [← same]; rfl)) (firstOnly form List.mem_cons_self)
      | cons other remaining =>
          rw [List.cons_append, List.cons_append] at same
          obtain ⟨rfl, sameTail⟩ := List.cons.inj same
          obtain ⟨rfl, sameBack⟩ := inductionHypothesis (List.forall_mem_cons.mp firstOnly).2
            (List.forall_mem_cons.mp secondOnly).2 sameTail
          exact ⟨rfl, sameBack⟩

/-! ## Types -/

theorem eq_of_toString_toNat
    {first second : UInt32}
    (same : toString first.toNat = toString second.toNat) :
    first = second :=
  UInt32.toNat_inj.mp (Token.toString_nat_injective same)

/-- The indices that are listed by words of their own. -/
theorem indices_eq_of_words
    {name : Nat → String}
    (injective : ∀ {first second}, name first = name second → first = second)
    {first second : List UInt32}
    (same : (first.map fun index => Form.word (name index.toNat)) =
      second.map fun index => Form.word (name index.toNat)) :
    first = second := by
  have recovered := map_eq_of_map_eq id
    (fun _ _ _ _ sameWord => UInt32.toNat_inj.mp (injective (Form.word.inj sameWord))) same
  rwa [List.map_id, List.map_id] at recovered

theorem typeUse_injective {first second : Nat} (same : typeUse first = typeUse second) :
    first = second := by
  simp only [typeUse, Form.list.injEq, List.cons.injEq, Form.word.injEq, true_and, and_true] at same
  exact Token.typeName_injective same

/-- The lemmas that follow recover each part of a module from its form, but for its
sizes. Limits have one word or two. -/
theorem Limits.unsized_eq_of_forms {first second : Limits} (same : first.forms = second.forms) :
    first.unsized = second.unsized := by
  obtain ⟨min, max, size⟩ := first
  obtain ⟨otherMin, otherMax, otherSize⟩ := second
  obtain ⟨sameMin, sameMax⟩ := List.cons.inj same
  obtain rfl := eq_of_toString_toNat (Form.word.inj sameMin)
  cases max with
  | none =>
      cases otherMax with
      | none => rfl
      | some otherMax => cases sameMax
  | some max =>
      cases otherMax with
      | none => cases sameMax
      | some otherMax =>
          obtain rfl := eq_of_toString_toNat (Form.word.inj (List.cons.inj sameMax).1)
          rfl

theorem TableType.unsized_eq_of_forms
    {first second : TableType}
    (same : first.forms = second.forms) :
    first.unsized = second.unsized := by
  obtain ⟨⟨⟩, limits, size⟩ := first
  obtain ⟨⟨⟩, otherLimits, otherSize⟩ := second
  have sameLimits := Limits.unsized_eq_of_forms (List.append_cancel_right same)
  rw [unsized, unsized, sameLimits]

theorem GlobalType.unsized_eq_of_form
    {first second : GlobalType}
    (same : first.form = second.form) :
    first.unsized = second.unsized := by
  obtain ⟨type, mutability, size⟩ := first
  obtain ⟨otherType, otherMutability, otherSize⟩ := second
  cases mutability <;> cases otherMutability <;>
    simp only [form, reduceCtorEq, Form.word.injEq, Form.list.injEq, List.cons.injEq, true_and,
      and_true] at same
  · rw [unsized, unsized, Token.valueTypeName_injective same]
  · rw [unsized, unsized, Token.valueTypeName_injective same]

/-- The types in fields with the same keyword. -/
theorem types_eq_of_fields
    {keyword : String}
    {first second : List ValueType}
    (same : (first.map fun type => Form.list [.word keyword, .word type.name]) =
      second.map fun type => Form.list [.word keyword, .word type.name]) :
    first = second := by
  have recovered := map_eq_of_map_eq id (fun type _ other _ sameField => by
    simp only [Form.list.injEq, List.cons.injEq, Form.word.injEq, true_and, and_true] at sameField
    exact Token.valueTypeName_injective sameField) same
  rwa [List.map_id, List.map_id] at recovered

theorem keyword?_resultForms (results : List ValueType) :
    ∀ form ∈ resultForms results, form.keyword? = some "result" :=
  List.forall_mem_map.mpr fun _ _ => rfl

/-- The parameters and results of a signature are told apart by their keywords. -/
theorem FuncType.named_form (type : FuncType) (keyword : String) :
    type.form.named keyword =
      (if "param" = keyword then
        type.params.map fun param => Form.list [.word "param", .word param.name]
      else []) ++
      (if "result" = keyword then resultForms type.results else []) := by
  have notKeyword : (Form.word "func").keyword? = none := rfl
  have params : ∀ form ∈ type.params.map fun param =>
      Form.list [.word "param", .word param.name], form.keyword? = some "param" :=
    List.forall_mem_map.mpr fun _ _ => rfl
  simp only [Form.named, form, items, List.filter_cons, notKeyword, reduceCtorEq, decide_false,
    Bool.false_eq_true, if_false, List.filter_append, filter_keyword params,
    filter_keyword (keyword?_resultForms type.results)]

/-- A signature is recovered from its parameters and results. -/
theorem FuncType.unsized_eq_of_form {first second : FuncType} (same : first.form = second.form) :
    first.unsized = second.unsized := by
  have sameParams := congrArg (Form.named "param") same
  have sameResults := congrArg (Form.named "result") same
  simp only [named_form, String.reduceEq, if_true, if_false, List.append_nil,
    List.nil_append] at sameParams sameResults
  obtain ⟨params, results, size⟩ := first
  obtain ⟨otherParams, otherResults, otherSize⟩ := second
  obtain rfl := types_eq_of_fields sameParams
  obtain rfl := types_eq_of_fields sameResults
  rfl

/-! ## Instructions -/

/-- No form of an immediate could be the first of an instruction. -/
theorem Immediate.not_isHead (op : Opcode) (params : Nat) (immediate : Immediate) :
    ∀ form ∈ immediate.forms op params, ¬ form.IsHead := by
  have named {text : String} (isName : Token.isName text = true) : ¬ (Form.word text).IsHead :=
    Token.not_isPlain_of_isName isName
  have operand {text : String} (isOperand : IsOperand text) : ¬ (Form.word text).IsHead :=
    isOperand.notPlain
  cases immediate with
  | absent => exact List.forall_mem_nil _
  | block type =>
      cases type with
      | empty => exact List.forall_mem_nil _
      | value type => exact List.forall_mem_singleton.mpr id
  | branchDepth depth => exact List.forall_mem_singleton.mpr (operand (Token.isOperand_natural _))
  | branchTable targets fallback =>
      rw [forms, List.forall_mem_append]
      exact ⟨List.forall_mem_map.mpr fun _ _ => operand (Token.isOperand_natural _),
        List.forall_mem_singleton.mpr (operand (Token.isOperand_natural _))⟩
  | functionIndex index => exact List.forall_mem_singleton.mpr (named (Token.isName_funcName _))
  | typeIndex index => exact List.forall_mem_singleton.mpr id
  | localIndex index => exact List.forall_mem_singleton.mpr (named (Token.isName_localName _ _))
  | globalIndex index => exact List.forall_mem_singleton.mpr (named (Token.isName_globalName _))
  | memory argument =>
      rw [forms, List.forall_mem_append]
      constructor
      · split
        · exact List.forall_mem_nil _
        · exact List.forall_mem_singleton.mpr (operand (Token.isOperand_offset _))
      · split
        · exact List.forall_mem_nil _
        · exact List.forall_mem_singleton.mpr (operand (Token.isOperand_align _))
  | i32 value => exact List.forall_mem_singleton.mpr (operand (Token.isOperand_integer _))
  | i64 value => exact List.forall_mem_singleton.mpr (operand (Token.isOperand_integer _))
  | f32 bits => exact List.forall_mem_singleton.mpr (operand (Token.isOperand_floatLiteral _ _))
  | f64 bits => exact List.forall_mem_singleton.mpr (operand (Token.isOperand_floatLiteral _ _))

namespace MemoryArg

/-- The offset, unless it is zero. -/
def offsetForms (argument : MemoryArg) : List Form :=
  if argument.offset = 0 then [] else [.word ("offset=" ++ toString argument.offset.toNat)]

/-- The alignment, unless it is the natural one. -/
def alignForms (op : Opcode) (argument : MemoryArg) : List Form :=
  if argument.align = op.naturalAlignment then []
  else [.word ("align=" ++ toString (2 ^ min argument.align.toNat 63))]

/-- Whether a word begins like an offset. -/
def isOffset : Form → Bool
  | .word text => text.toList.head? == some 'o'
  | _ => false

/-- The offset and the alignment of an access are told apart by their words. -/
theorem filter_forms (op : Opcode) (params : Nat) (argument : MemoryArg) :
    ((Immediate.memory argument).forms op params).filter isOffset = argument.offsetForms ∧
      (((Immediate.memory argument).forms op params).filter fun form => !isOffset form) =
        argument.alignForms op := by
  have split : (Immediate.memory argument).forms op params =
      argument.offsetForms ++ argument.alignForms op := rfl
  have offset : ∀ form ∈ argument.offsetForms, isOffset form = true := by
    rw [offsetForms]
    split
    · exact List.forall_mem_nil _
    · exact List.forall_mem_singleton.mpr (by simp [isOffset])
  have align : ∀ form ∈ argument.alignForms op, isOffset form = false := by
    rw [alignForms]
    split
    · exact List.forall_mem_nil _
    · exact List.forall_mem_singleton.mpr (by simp [isOffset])
  rw [split, List.filter_append, List.filter_append]
  constructor
  · rw [List.filter_eq_self.mpr offset, List.filter_eq_nil_iff.mpr fun form among => by
      simp [align form among], List.append_nil]
  · rw [List.filter_eq_nil_iff.mpr fun form among => by simp [offset form among],
      List.filter_eq_self.mpr fun form among => by simp [align form among], List.nil_append]

/-- An offset is written unless it is zero, so it is known either way. -/
theorem offset_eq_of_offsetForms
    {first second : MemoryArg}
    (same : first.offsetForms = second.offsetForms) :
    first.offset = second.offset := by
  rw [offsetForms, offsetForms] at same
  split at same <;> split at same
  · exact Eq.trans (by assumption) (Eq.symm (by assumption))
  · cases same
  · cases same
  · have spelled := Form.word.inj (List.singleton_inj.mp same)
    exact eq_of_toString_toNat ((String.append_right_inj "offset=").mp spelled)

/-- An alignment is written unless it is natural, so it is known up to 63 either way. -/
theorem min_align_eq_of_alignForms
    {op : Opcode}
    {first second : MemoryArg}
    (same : first.alignForms op = second.alignForms op) :
    min first.align.toNat 63 = min second.align.toNat 63 := by
  rw [alignForms, alignForms] at same
  split at same <;> split at same
  · have sameAlign : first.align = second.align :=
      Eq.trans (by assumption) (Eq.symm (by assumption))
    rw [sameAlign]
  · cases same
  · cases same
  · have spelled := Form.word.inj (List.singleton_inj.mp same)
    have samePower := Token.toString_nat_injective ((String.append_right_inj "align=").mp spelled)
    exact Nat.pow_right_injective (Nat.le_refl 2) samePower

/-- A memory argument is recovered in its normal form. -/
theorem normalForm_eq_of_forms
    (op : Opcode)
    (params : Nat)
    {first second : MemoryArg}
    (same : (Immediate.memory first).forms op params = (Immediate.memory second).forms op params) :
    first.normalForm = second.normalForm := by
  obtain ⟨firstOffset, firstAlign⟩ := filter_forms op params first
  obtain ⟨secondOffset, secondAlign⟩ := filter_forms op params second
  rw [same] at firstOffset firstAlign
  have sameOffset := offset_eq_of_offsetForms (firstOffset.symm.trans secondOffset)
  have sameAlign := min_align_eq_of_alignForms (firstAlign.symm.trans secondAlign)
  rw [← toNat_align_normalForm, ← toNat_align_normalForm, UInt32.toNat_inj] at sameAlign
  rw [normalForm, normalForm, sameOffset, MemoryArg.mk.injEq]
  exact ⟨sameAlign, rfl⟩

end MemoryArg

/-- The constructor of the immediates that suit a kind, by its position. -/
def ImmediateKind.shape : ImmediateKind → Nat
  | .absent | .memoryReserved => 0
  | .blockType => 1
  | .branchDepth => 2
  | .branchTable => 3
  | .functionIndex => 4
  | .callIndirect => 5
  | .localIndex => 6
  | .globalIndex => 7
  | .memoryArg => 8
  | .i32 => 9
  | .i64 => 10
  | .f32 => 11
  | .f64 => 12

/-- Immediates that suit one kind have one shape. -/
theorem Immediate.ctorIdx_of_suits
    {kind : ImmediateKind}
    {immediate : Immediate}
    (suits : immediate.Suits kind) :
    immediate.ctorIdx = kind.shape := by
  cases immediate with
  | absent => obtain rfl | rfl := suits <;> rfl
  | _ =>
      obtain rfl := suits
      rfl

/-- Immediates that suit one opcode are recovered in their normal forms. -/
theorem Immediate.normalForm_eq_of_forms
    {op : Opcode}
    (params : Nat)
    {first second : Immediate}
    (suits : first.Suits op.immediateKind)
    (otherSuits : second.Suits op.immediateKind)
    (same : first.forms op params = second.forms op params) :
    first.normalForm = second.normalForm := by
  -- Forms of different shapes may look alike, but one opcode suits only one shape.
  have sameShape : first.ctorIdx = second.ctorIdx :=
    (ctorIdx_of_suits suits).trans (ctorIdx_of_suits otherSuits).symm
  have word {text other : String} (same : [Form.word text] = [.word other]) : text = other :=
    Form.word.inj (List.singleton_inj.mp same)
  cases first with
  | absent =>
      cases second with
      | absent => rfl
      | _ => cases sameShape
  | block type =>
      cases second with
      | block other =>
          cases type with
          | empty =>
              cases other with
              | empty => rfl
              | value other => cases same
          | value type =>
              cases other with
              | empty => cases same
              | value other =>
                  obtain rfl := List.singleton_inj.mp (types_eq_of_fields same)
                  rfl
      | _ => cases sameShape
  | branchDepth depth =>
      cases second with
      | branchDepth other => rw [eq_of_toString_toNat (word same)]
      | _ => cases sameShape
  | branchTable targets fallback =>
      cases second with
      | branchTable others otherFallback =>
          obtain ⟨sameTargets, sameFallback⟩ := List.append_singleton_inj.mp same
          rw [indices_eq_of_words Token.toString_nat_injective sameTargets,
            eq_of_toString_toNat (Form.word.inj sameFallback)]
      | _ => cases sameShape
  | functionIndex index =>
      cases second with
      | functionIndex other => rw [UInt32.toNat_inj.mp (Token.funcName_injective (word same))]
      | _ => cases sameShape
  | typeIndex index =>
      cases second with
      | typeIndex other =>
          rw [UInt32.toNat_inj.mp (typeUse_injective (List.singleton_inj.mp same))]
      | _ => cases sameShape
  | localIndex index =>
      cases second with
      | localIndex other =>
          rw [UInt32.toNat_inj.mp (Token.localName_injective params (word same))]
      | _ => cases sameShape
  | globalIndex index =>
      cases second with
      | globalIndex other => rw [UInt32.toNat_inj.mp (Token.globalName_injective (word same))]
      | _ => cases sameShape
  | memory argument =>
      cases second with
      | memory other =>
          rw [normalForm, normalForm, MemoryArg.normalForm_eq_of_forms op params same]
      | _ => cases sameShape
  | i32 value =>
      cases second with
      | i32 other => rw [Int32.toInt_inj.mp (Token.toString_int_injective (word same))]
      | _ => cases sameShape
  | i64 value =>
      cases second with
      | i64 other => rw [Int64.toInt_inj.mp (Token.toString_int_injective (word same))]
      | _ => cases sameShape
  | f32 bits =>
      cases second with
      | f32 other => rw [f32Literal_injective (word same)]
      | _ => cases sameShape
  | f64 bits =>
      cases second with
      | f64 other => rw [f64Literal_injective (word same)]
      | _ => cases sameShape

/-- An instruction is recovered in its normal form, as its mnemonic tells the opcode. -/
theorem Instruction.normalForm_eq_of_forms
    {params : Nat}
    {first second : Instruction}
    (suits : first.immediate.Suits first.opcode.immediateKind)
    (otherSuits : second.immediate.Suits second.opcode.immediateKind)
    (same : first.forms params = second.forms params) :
    first.normalForm = second.normalForm := by
  obtain ⟨op, immediate⟩ := first
  obtain ⟨other, otherImmediate⟩ := second
  obtain ⟨sameWord, sameForms⟩ := List.cons.inj same
  obtain rfl := Token.mnemonic_injective (Form.word.inj sameWord)
  rw [normalForm, normalForm,
    Immediate.normalForm_eq_of_forms params suits otherSuits sameForms]

/-- Instructions begin with heads. -/
theorem Instruction.head_code (params : Nat) (code : List Instruction) :
    ∀ form ∈ (code.flatMap (Instruction.forms params)).head?, form.IsHead := by
  cases code with
  | nil => simp
  | cons instruction rest =>
      rintro form head
      obtain rfl := Option.some.inj head
      exact Token.isPlain_mnemonic instruction.opcode

/-- The instructions of a function are told apart by where they begin. -/
theorem Instruction.map_normalForm_eq_of_code
    {params : Nat}
    {first second : List Instruction}
    (suits : ∀ instruction ∈ first,
      instruction.immediate.Suits instruction.opcode.immediateKind)
    (otherSuits : ∀ instruction ∈ second,
      instruction.immediate.Suits instruction.opcode.immediateKind)
    (same : first.flatMap (Instruction.forms params) =
      second.flatMap (Instruction.forms params)) :
    first.map normalForm = second.map normalForm := by
  induction first generalizing second with
  | nil =>
      cases second with
      | nil => rfl
      | cons other others => cases same
  | cons instruction rest inductionHypothesis =>
      cases second with
      | nil => cases same
      | cons other others =>
          rw [List.flatMap_cons, List.flatMap_cons] at same
          obtain ⟨sameWord, sameBehind⟩ := List.cons.inj same
          obtain ⟨sameForms, sameRest⟩ := append_inj_of_heads
            (Immediate.not_isHead _ _ _) (Immediate.not_isHead _ _ _)
            (head_code params rest) (head_code params others) sameBehind
          obtain ⟨suitsHere, suitsRest⟩ := List.forall_mem_cons.mp suits
          obtain ⟨otherSuitsHere, otherSuitsRest⟩ := List.forall_mem_cons.mp otherSuits
          have sameInstruction := normalForm_eq_of_forms suitsHere otherSuitsHere
            (congrArg₂ List.cons sameWord sameForms)
          rw [List.map_cons, List.map_cons, sameInstruction,
            inductionHypothesis suitsRest otherSuitsRest sameRest]

/-! ## Constant expressions and segments -/

/-- Constant expressions access no memory. -/
theorem ConstExpr.normalForm_instruction
    {globals : Nat}
    {expr : ConstExpr}
    (valid : expr.Valid globals) :
    expr.instruction.normalForm = expr.instruction := by
  obtain ⟨⟨op, immediate⟩, size⟩ := expr
  obtain ⟨constant, suits, -⟩ := valid
  cases immediate with
  | memory argument =>
      have kind := Opcode.immediateKind_of_isConstant constant
      simp [show op.immediateKind = .memoryArg from suits] at kind
  | _ => rfl

/-- A constant expression is recovered from its instruction. -/
theorem ConstExpr.unsized_eq_of_form
    {globals otherGlobals : Nat}
    {first second : ConstExpr}
    (valid : first.Valid globals)
    (otherValid : second.Valid otherGlobals)
    (same : first.form = second.form) :
    first.unsized = second.unsized := by
  rw [first.form_eq valid 0, second.form_eq otherValid 0, Form.list.injEq] at same
  have sameInstruction := Instruction.normalForm_eq_of_forms valid.2.1 otherValid.2.1 same
  rw [normalForm_instruction valid, normalForm_instruction otherValid] at sameInstruction
  rw [unsized, unsized, sameInstruction]

/-- A segment of elements is recovered from its offset and its functions. -/
theorem ElementSegment.unsized_eq_of_form
    {module other : Module}
    {first second : ElementSegment}
    (valid : first.Valid module)
    (otherValid : second.Valid other)
    (same : first.form = second.form) :
    first.unsized = second.unsized := by
  simp only [form, Form.list.injEq, List.cons.injEq, true_and] at same
  rw [unsized, unsized, ConstExpr.unsized_eq_of_form valid.offset otherValid.offset same.1,
    indices_eq_of_words Token.funcName_injective same.2, valid.table, otherValid.table]

theorem DataSegment.unsized_eq_of_form
    {module other : Module}
    {first second : DataSegment}
    (valid : first.Valid module)
    (otherValid : second.Valid other)
    (same : first.form = second.form) :
    first.unsized = second.unsized := by
  simp only [form, dataForm, Form.list.injEq, List.cons.injEq, true_and, and_true,
    Form.literal.injEq] at same
  rw [unsized, unsized, ConstExpr.unsized_eq_of_form valid.offset otherValid.offset same.1,
    Quoted.data_injective same.2, valid.memory, otherValid.memory]

/-! ## Exports and imports -/

theorem nameForm_injective {first second : String} (same : nameForm first = nameForm second) :
    first = second :=
  Quoted.name_injective (Form.literal.inj same)

theorem ExportDesc.eq_of_form {first second : ExportDesc} (same : first.form = second.form) :
    first = second := by
  cases first <;> cases second <;>
    simp only [form, Form.list.injEq, List.cons.injEq, Form.word.injEq, String.reduceEq,
      true_and, and_true, false_and] at same
  · rw [UInt32.toNat_inj.mp (Token.funcName_injective same)]
  · rw [eq_of_toString_toNat same]
  · rw [eq_of_toString_toNat same]
  · rw [UInt32.toNat_inj.mp (Token.globalName_injective same)]

theorem Export.unsized_eq_of_form {first second : Export} (same : first.form = second.form) :
    first.unsized = second.unsized := by
  simp only [form, Form.list.injEq, List.cons.injEq, true_and, and_true] at same
  rw [unsized, unsized, nameForm_injective same.1, ExportDesc.eq_of_form same.2]

/-- An import of a function is recovered from the use of its type, others from their
types. -/
theorem ImportDesc.unsized_eq_of_form
    {functions globals otherFunctions otherGlobals : Nat}
    {first second : ImportDesc}
    (same : first.form functions globals = second.form otherFunctions otherGlobals) :
    first.unsized = second.unsized := by
  cases first <;> cases second <;>
    simp only [form, Form.list.injEq, List.cons.injEq, Form.word.injEq, String.reduceEq,
      true_and, and_true, false_and] at same
  · rw [UInt32.toNat_inj.mp (typeUse_injective same.2)]
  · rw [unsized, unsized, TableType.unsized_eq_of_forms same]
  · rw [unsized, unsized, MemoryType.unsized, MemoryType.unsized, Limits.unsized_eq_of_forms same]
  · rw [unsized, unsized, GlobalType.unsized_eq_of_form same.2]

theorem Import.unsized_eq_of_form
    {functions globals otherFunctions otherGlobals : Nat}
    {first second : Import}
    (same : first.form functions globals = second.form otherFunctions otherGlobals) :
    first.unsized = second.unsized := by
  simp only [form, Form.list.injEq, List.cons.injEq, true_and, and_true] at same
  rw [unsized, unsized, nameForm_injective same.1, nameForm_injective same.2.1,
    ImportDesc.unsized_eq_of_form same.2.2]

/-- Imports are recovered whatever their functions and globals are numbered from. -/
theorem map_unsized_eq_of_importForms
    {functions globals otherFunctions otherGlobals : Nat}
    {first second : List Import}
    (same : importForms functions globals first = importForms otherFunctions otherGlobals second) :
    first.map Import.unsized = second.map Import.unsized := by
  induction first generalizing second functions globals otherFunctions otherGlobals with
  | nil =>
      cases second with
      | nil => rfl
      | cons other others => cases same
  | cons item rest inductionHypothesis =>
      cases second with
      | nil => cases same
      | cons other others =>
          obtain ⟨sameItem, sameRest⟩ := List.cons.inj same
          rw [List.map_cons, List.map_cons, Import.unsized_eq_of_form sameItem,
            inductionHypothesis sameRest]

/-! ## Functions -/

namespace Func

/-- The fields of a function behind its name and type. -/
def fieldForms (function : Func) : List Form :=
  function.paramForms ++ (resultForms function.type.results ++ function.localForms)

/-- The fields of a function are told apart by their keywords. -/
theorem filter_fieldForms (function : Func) (keyword : String) :
    (function.fieldForms.filter fun form => form.keyword? = some keyword) =
      (if "param" = keyword then function.paramForms else []) ++
      ((if "result" = keyword then resultForms function.type.results else []) ++
      (if "local" = keyword then function.localForms else [])) := by
  have params : ∀ form ∈ function.paramForms, form.keyword? = some "param" :=
    List.forall_mem_map.mpr fun _ _ => rfl
  have locals : ∀ form ∈ function.localForms, form.keyword? = some "local" :=
    List.forall_mem_map.mpr fun _ _ => rfl
  rw [fieldForms, List.filter_append, List.filter_append, filter_keyword params,
    filter_keyword (keyword?_resultForms _), filter_keyword locals]

/-- No field of a function is taken for the head of an instruction. -/
theorem fieldForms_not_isHead (function : Func) :
    ∀ form ∈ function.fieldForms, ¬ form.IsHead := by
  rw [fieldForms, List.forall_mem_append, List.forall_mem_append]
  exact ⟨List.forall_mem_map.mpr fun _ _ => id, List.forall_mem_map.mpr fun _ _ => id,
    List.forall_mem_map.mpr fun _ _ => id⟩

/-- Parameters and locals are recovered from their types, under any names. -/
theorem types_eq_of_zipIdx
    {keyword name : String}
    {first second : List ValueType}
    {start otherStart : Nat}
    (same : ((first.zipIdx start).map fun (type, index) =>
        Form.list [.word keyword, .word (name ++ toString index), .word type.name]) =
      (second.zipIdx otherStart).map fun (type, index) =>
        Form.list [.word keyword, .word (name ++ toString index), .word type.name]) :
    first = second := by
  have recovered := map_eq_of_map_zipIdx_eq id
    (fun type _ other _ index otherIndex sameField => by
      simp only [Form.list.injEq, List.cons.injEq, Form.word.injEq, true_and, and_true] at sameField
      exact Token.valueTypeName_injective sameField.2) same
  rwa [List.map_id, List.map_id] at recovered

/-- A function is recovered in its normal form, as each of its instructions begins with
a head. -/
theorem normalForm_eq_of_form
    {first second : Func}
    (suits : ∀ instruction ∈ first.body.code,
      instruction.immediate.Suits instruction.opcode.immediateKind)
    (otherSuits : ∀ instruction ∈ second.body.code,
      instruction.immediate.Suits instruction.opcode.immediateKind)
    (same : first.form = second.form) :
    first.normalForm = second.normalForm := by
  have split (function : Func) : function.form =
      .list (.word "func" :: .word (funcName function.index.toNat) ::
        typeUse function.typeIndex.toNat :: (function.fieldForms ++ function.codeForms)) := by
    simp [form, headerForms, fieldForms]
  simp only [split, Form.list.injEq, List.cons.injEq, Form.word.injEq, true_and] at same
  obtain ⟨sameName, sameType, sameBehind⟩ := same
  -- Parameters, results and locals end where the first instruction begins.
  obtain ⟨sameFields, sameCode⟩ := append_inj_of_heads first.fieldForms_not_isHead
    second.fieldForms_not_isHead (Instruction.head_code _ _) (Instruction.head_code _ _) sameBehind
  have fields (keyword : String) := congrArg
    (List.filter fun form => form.keyword? = some keyword) sameFields
  simp only [filter_fieldForms] at fields
  have sameParams : first.type.params = second.type.params := by
    have sameForms := fields "param"
    simp only [String.reduceEq, if_true, if_false, List.append_nil] at sameForms
    exact types_eq_of_zipIdx sameForms
  have sameResults : first.type.results = second.type.results := by
    have sameForms := fields "result"
    simp only [String.reduceEq, if_true, if_false, List.append_nil, List.nil_append] at sameForms
    exact types_eq_of_fields sameForms
  have sameLocals : first.localTypes = second.localTypes := by
    have sameForms := fields "local"
    simp only [String.reduceEq, if_true, if_false, List.nil_append] at sameForms
    exact types_eq_of_zipIdx sameForms
  rw [sameParams] at sameCode
  rw [normalForm, normalForm, FuncType.unsized, FuncType.unsized, sameParams, sameResults,
    sameLocals, Instruction.map_normalForm_eq_of_code suits otherSuits sameCode,
    UInt32.toNat_inj.mp (Token.funcName_injective sameName),
    UInt32.toNat_inj.mp (typeUse_injective sameType)]

end Func

/-! ## Modules -/

namespace Module

variable {module other : Module}

/-- The lemmas that follow recover each section, up to its absence when it is empty. -/
theorem types_eq_of_typeForms (same : module.typeForms = other.typeForms) :
    (entries module.types).map FuncType.unsized = (entries other.types).map FuncType.unsized := by
  refine map_eq_of_map_zipIdx_eq FuncType.unsized (fun type _ otherType _ _ _ sameItem => ?_) same
  simp only [Form.list.injEq, List.cons.injEq, true_and, and_true] at sameItem
  exact FuncType.unsized_eq_of_form sameItem.2

theorem tables_eq_of_tableForms (same : module.tableForms = other.tableForms) :
    (entries module.tables).map TableType.unsized =
      (entries other.tables).map TableType.unsized := by
  refine map_eq_of_map_eq TableType.unsized (fun type _ otherType _ sameItem => ?_) same
  simp only [Form.list.injEq, List.cons.injEq, true_and] at sameItem
  exact TableType.unsized_eq_of_forms sameItem

theorem globals_eq_of_globalForms
    (closed : module.Closed)
    (otherClosed : other.Closed)
    (same : module.globalForms = other.globalForms) :
    (entries module.globals).map Global.unsized = (entries other.globals).map Global.unsized := by
  refine map_eq_of_map_zipIdx_eq Global.unsized
    (fun global among otherGlobal otherAmong _ _ sameItem => ?_) same
  simp only [Form.list.injEq, List.cons.injEq, true_and, and_true] at sameItem
  obtain ⟨-, sameType, sameInit⟩ := sameItem
  rw [Global.unsized, Global.unsized, GlobalType.unsized_eq_of_form sameType,
    ConstExpr.unsized_eq_of_form (closed.globals global among).2
      (otherClosed.globals otherGlobal otherAmong).2 sameInit]

theorem functions_eq_of_forms
    (closed : module.Closed)
    (otherClosed : other.Closed)
    (same : (entries module.code).map Func.form = (entries other.code).map Func.form) :
    (entries module.code).map Func.normalForm = (entries other.code).map Func.normalForm := by
  refine map_eq_of_map_eq Func.normalForm (fun function among otherFunction otherAmong => ?_) same
  obtain ⟨_, _, valid⟩ := closed.valid_of_mem_code among
  obtain ⟨_, _, otherValid⟩ := otherClosed.valid_of_mem_code otherAmong
  exact Func.normalForm_eq_of_form
    (fun instruction inside => (valid.body.code instruction inside).1)
    (fun instruction inside => (otherValid.body.code instruction inside).1)

theorem start_eq_of_startForms (same : module.startForms = other.startForms) :
    module.start = other.start := by
  cases present : module.start <;> cases otherPresent : other.start <;>
    simp only [startForms, present, otherPresent, reduceCtorEq, List.cons.injEq, Form.list.injEq,
      Form.word.injEq, true_and, and_true] at same
  · rfl
  · rw [UInt32.toNat_inj.mp (Token.funcName_injective same)]

/-- A memory that is filled by data is written like no memory. -/
theorem memoryForms_ne_of_folded
    {segment : DataSegment}
    (folded : module.foldedData? = some segment)
    (notFolded : other.foldedData? = none) :
    module.memoryForms ≠ other.memoryForms := by
  intro same
  simp only [memoryForms, folded, notFolded] at same
  obtain ⟨type, -, sameMemory⟩ := List.map_eq_singleton_iff.mp same.symm
  simp [Limits.forms] at sameMemory

/-- Memories and data are recovered together, whether they are folded or not. -/
theorem memories_data_eq_of_forms
    (valid : ∀ segment ∈ entries module.data, segment.Valid module)
    (otherValid : ∀ segment ∈ entries other.data, segment.Valid other)
    (sameMemories : module.memoryForms = other.memoryForms)
    (sameData : module.dataForms = other.dataForms) :
    module.normalForm.memories = other.normalForm.memories ∧
      module.normalForm.data = other.normalForm.data := by
  -- A folded memory is the only one whose form holds data, so either both modules fold or none.
  cases folded : module.foldedData? with
  | some segment =>
      cases otherFolded : other.foldedData? with
      | none => exact absurd sameMemories (memoryForms_ne_of_folded folded otherFolded)
      | some otherSegment =>
          have folds := (module.foldedData?_eq_some_iff segment).mp folded
          have otherFolds := (other.foldedData?_eq_some_iff otherSegment).mp otherFolded
          simp only [memoryForms, folded, otherFolded, dataForm, List.cons.injEq, Form.list.injEq,
            Form.literal.injEq, true_and, and_true] at sameMemories
          have sameSegment : segment.unsized = otherSegment.unsized := by
            rw [DataSegment.unsized, DataSegment.unsized, ConstExpr.unsized, ConstExpr.unsized,
              Quoted.data_injective sameMemories, folds.memoryIndex, otherFolds.memoryIndex,
              folds.offset, otherFolds.offset]
          simp [normalForm, folded, otherFolded, folds.data, otherFolds.data, sameSegment]
  | none =>
      cases otherFolded : other.foldedData? with
      | some otherSegment =>
          exact absurd sameMemories.symm (memoryForms_ne_of_folded otherFolded folded)
      | none =>
          simp only [memoryForms, dataForms, folded, otherFolded] at sameMemories sameData
          have memories := map_eq_of_map_eq MemoryType.unsized
            (fun type _ otherType _ sameForm => by
              simp only [Form.list.injEq, List.cons.injEq, true_and] at sameForm
              rw [MemoryType.unsized, MemoryType.unsized, Limits.unsized_eq_of_forms sameForm])
            sameMemories
          have data := map_eq_of_map_eq DataSegment.unsized
            (fun segment among otherSegment otherAmong =>
              DataSegment.unsized_eq_of_form (valid segment among)
                (otherValid otherSegment otherAmong))
            sameData
          simp [normalForm, folded, otherFolded, memories, data]

/-- Closed modules with the same text have the same normal form. -/
theorem normalForm_eq_of_text
    (closed : module.Closed)
    (otherClosed : other.Closed)
    (sameMagic : module.magic = other.magic)
    (sameVersion : module.version = other.version)
    (same : module.text = other.text) :
    module.normalForm = other.normalForm := by
  have sameForm : module.form = other.form := by
    have read := module.read_text
    rw [same, other.read_text] at read
    exact (Option.some.inj read).symm
  -- Each kind of part has a keyword of its own, which picks its forms from among all.
  have parts (keyword : String) := congrArg (Form.named keyword) sameForm
  have types := parts "type"
  have imports := parts "import"
  have globals := parts "global"
  have functions := parts "func"
  have memories := parts "memory"
  have tables := parts "table"
  have data := parts "data"
  have exports := parts "export"
  have elements := parts "elem"
  have start := parts "start"
  simp only [named_form, String.reduceEq, if_true, if_false, List.append_nil, List.nil_append]
    at types imports globals functions memories tables data exports elements start
  have sameExports := map_eq_of_map_eq Export.unsized
    (fun _ _ _ _ => Export.unsized_eq_of_form) exports
  have sameElements := map_eq_of_map_eq ElementSegment.unsized
    (fun segment among otherSegment otherAmong =>
      ElementSegment.unsized_eq_of_form (closed.elements segment among)
        (otherClosed.elements otherSegment otherAmong)) elements
  obtain ⟨sameMemories, sameData⟩ :=
    memories_data_eq_of_forms closed.data otherClosed.data memories data
  rw [normalForm] at sameMemories sameData ⊢
  rw [Module.mk.injEq]
  exact ⟨sameMagic, sameVersion, congrArg some (types_eq_of_typeForms types),
    congrArg some (map_unsized_eq_of_importForms imports), rfl,
    congrArg some (tables_eq_of_tableForms tables), sameMemories,
    congrArg some (globals_eq_of_globalForms closed otherClosed globals),
    congrArg some sameExports, start_eq_of_startForms start, congrArg some sameElements,
    congrArg some (functions_eq_of_forms closed otherClosed functions), sameData⟩

/-- The texts of two decoded modules are the same exactly if their normal forms are. -/
theorem text_eq_iff_normalForm_eq
    {format otherFormat : HeaderFormat}
    {input otherInput : List UInt8}
    {module other : Module}
    (decoded : ofBytes format input = .ok module)
    (otherDecoded : ofBytes otherFormat otherInput = .ok other) :
    module.text = other.text ↔ module.normalForm = other.normalForm := by
  obtain ⟨_, _, -, -, -, magic, version, closed⟩ := (ofBytes_eq_ok_iff _ _ _).mp decoded
  obtain ⟨_, _, -, -, -, otherMagic, otherVersion, otherClosed⟩ :=
    (ofBytes_eq_ok_iff _ _ _).mp otherDecoded
  constructor
  · exact normalForm_eq_of_text closed otherClosed (magic.trans otherMagic.symm)
      (version.trans otherVersion.symm)
  · intro same
    rw [← module.text_normalForm, same, other.text_normalForm]

/-- Locals in one group and in two, alignments of 64 and of 63, and no data section
and an empty one. -/
theorem text_eq_of_groups_alignments_data :
    let front := Header.magicBytes ++ Header.versionBytes ++ [1, 4, 1, 0x60, 0, 0, 3, 2, 1, 0]
    let input := front ++ [10, 12, 1, 10, 1, 2, 0x7F, 0x41, 0, 0x28, 0x40, 0, 0x1A, 0x0B]
    let otherInput := front ++
      [10, 14, 1, 12, 2, 1, 0x7F, 1, 0x7F, 0x41, 0, 0x28, 0x3F, 0, 0x1A, 0x0B, 11, 1, 0]
    let module : Module :=
      { magic := "\x00asm"
        version := 1
        types := some [⟨[], [], 3⟩]
        functions := some [0]
        code := some [⟨0, 0, ⟨[], [], 3⟩,
          ⟨10, [⟨2, .i32⟩],
            [⟨.i32Const, .i32 0⟩, ⟨.i32Load, .memory ⟨64, 0⟩⟩, ⟨.drop, .absent⟩], 11⟩⟩] }
    let other : Module :=
      { module with
        code := some [⟨0, 0, ⟨[], [], 3⟩,
          ⟨12, [⟨1, .i32⟩, ⟨1, .i32⟩],
            [⟨.i32Const, .i32 0⟩, ⟨.i32Load, .memory ⟨63, 0⟩⟩, ⟨.drop, .absent⟩], 13⟩⟩]
        data := some [] }
    ofBytes .compact input = .ok module ∧ ofBytes .leb128 otherInput = .ok other ∧
      module ≠ other ∧ module.normalForm = other.normalForm ∧ module.text = other.text := by
  intro front input otherInput module other
  have decoded : ofBytes .compact input = .ok module := by decide +kernel
  have otherDecoded : ofBytes .leb128 otherInput = .ok other := by decide +kernel
  have different : module ≠ other := by decide +kernel
  have same : module.normalForm = other.normalForm := by decide +kernel
  exact ⟨decoded, otherDecoded, different, same,
    (text_eq_iff_normalForm_eq decoded otherDecoded).mpr same⟩

end Module

end WebAssembly
