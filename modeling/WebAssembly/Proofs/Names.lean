import WebAssembly.Proofs.Counts
import WebAssembly.Proofs.Printed

/-!
# Names resolve

Types, functions and globals are defined in the text of a module by the forms that
are headed by their kinds, params and locals within the form of their function.
In a decoded module each of these definitions has the name of its index, and every
name that occurs in the text is defined where it has to be.

A name refers to what the word in front of it says, which is the nearest word in
the same list that is not a name itself.
-/

namespace WebAssembly

/-! ## Names in forms -/

open Token (isName)

namespace Form

/-- The second item of a list, if it is a word. -/
def name? : Form → Option String
  | .list (_ :: .word name :: _) => some name
  | _ => none

/-- The name that a list defines with a keyword. -/
def defined? (keyword : String) (form : Form) : Option String :=
  if form.keyword? = some keyword then form.name? else none

/-- The last item of an import, which says what is imported. -/
def imported? (form : Form) : Option Form := form.items.getLast?

/-- The names that a module defines with a keyword, those of imports first. -/
def definitions (keyword : String) (module : Form) : List String :=
  ((module.named "import").filterMap imported?).filterMap (defined? keyword) ++
    module.items.filterMap (defined? keyword)

/-- The name that an item of a function defines for a param or a local. -/
def localName? (item : Form) : Option String :=
  (item.defined? "param").or (item.defined? "local")

/-- The names that a function defines for its params and locals, in the order in
which they occur. -/
def localDefinitions (function : Form) : List String :=
  function.items.filterMap localName?

/-- The word in front of what follows a form. -/
def governing (governor : String) : Form → String
  | .word text => if isName text then governor else text
  | _ => governor

mutual

/-- The names that occur in a form, each with the word in front of it. -/
def uses (governor : String) : Form → List (String × String)
  | .word text => if isName text then [(governor, text)] else []
  | .literal _ => []
  | .list items => usesAll "" items

/-- The names that occur in some forms, each with the word in front of it. -/
def usesAll (governor : String) : List Form → List (String × String)
  | [] => []
  | form :: rest => form.uses governor ++ usesAll (form.governing governor) rest

end

/-- The names that may stand behind a word, within an item of a module. -/
def scope (module item : Form) (governor : String) : List String :=
  if governor = "type" then module.definitions "type"
  else if governor ∈ ["func", "call", "elem", "start"] then module.definitions "func"
  else if governor ∈ ["global", "global.get", "global.set"] then module.definitions "global"
  else if governor ∈ ["param", "local", "local.get", "local.set", "local.tee"] then
    item.localDefinitions
  else []

end Form

open Form

/-! ## Definitions -/

/-- Numbered forms define numbered names. -/
theorem filterMap_zipIdx
    {select : Form → Option String}
    {form : α × Nat → Form}
    {name : Nat → String}
    (naming : ∀ item, select (form item) = some (name item.2))
    (items : List α)
    (first : Nat) :
    ((items.zipIdx first).map form).filterMap select =
      (List.range' first items.length).map name := by
  have composed : select ∘ form = some ∘ (name ∘ Prod.snd) := funext naming
  rw [List.filterMap_map, composed, List.filterMap_eq_map, ← List.map_map, List.zipIdx_map_snd]

/-- The names that imports define with a keyword, when some functions and globals
came before. -/
def importedNames (keyword : String) (functions globals : Nat) (items : List Import) :
    List String :=
  ((importForms functions globals items).filterMap imported?).filterMap (defined? keyword)

/-- The names of imports are given one by one, with a counter for functions and one for
globals. -/
theorem importedNames_cons
    (keyword : String)
    (functions globals : Nat)
    (item : Import)
    (rest : List Import) :
    importedNames keyword functions globals (item :: rest) =
      ((item.desc.form functions globals).defined? keyword).toList ++
      importedNames keyword (functions + if item.desc.isFunc then 1 else 0)
        (globals + if item.desc.isGlobal then 1 else 0) rest := by
  have imported : imported? (item.form functions globals) =
      some (item.desc.form functions globals) := rfl
  rw [importedNames, importForms, List.filterMap_cons_some imported, List.filterMap_cons]
  cases (item.desc.form functions globals).defined? keyword <;> rfl

/-- The names of imported functions are numbered from the first one on. -/
theorem importedNames_func (functions globals : Nat) (items : List Import) :
    importedNames "func" functions globals items =
      (List.range' functions (items.countP fun item => item.desc.isFunc)).map funcName := by
  induction items generalizing functions globals with
  | nil => rfl
  | cons item rest inductionHypothesis =>
      rw [importedNames_cons, inductionHypothesis, List.countP_cons]
      cases item.desc with
      | func typeIndex =>
          simp [ImportDesc.form, ImportDesc.isFunc, defined?, keyword?, name?, List.range'_succ]
      | _ => simp [ImportDesc.form, ImportDesc.isFunc, defined?, keyword?]

/-- The names of imported globals are numbered from the first one on. -/
theorem importedNames_global (functions globals : Nat) (items : List Import) :
    importedNames "global" functions globals items =
      (List.range' globals (items.countP fun item => item.desc.isGlobal)).map globalName := by
  induction items generalizing functions globals with
  | nil => rfl
  | cons item rest inductionHypothesis =>
      rw [importedNames_cons, inductionHypothesis, List.countP_cons]
      cases item.desc with
      | global type =>
          simp [ImportDesc.form, ImportDesc.isGlobal, defined?, keyword?, name?, List.range'_succ]
      | _ => simp [ImportDesc.form, ImportDesc.isGlobal, defined?, keyword?]

/-- Imports define no types. -/
theorem importedNames_type (functions globals : Nat) (items : List Import) :
    importedNames "type" functions globals items = [] := by
  induction items generalizing functions globals with
  | nil => rfl
  | cons item rest inductionHypothesis =>
      rw [importedNames_cons, inductionHypothesis]
      cases item.desc <;> simp [ImportDesc.form, defined?, keyword?]

namespace Module

variable {module : Module}

/-- The names of a module's imports come before those of its own definitions. -/
theorem definitions_form (module : Module) (keyword : String) :
    module.form.definitions keyword =
      importedNames keyword 0 0 (entries module.imports) ++
        (module.form.named keyword).filterMap name? := by
  have imports : module.form.named "import" = importForms 0 0 (entries module.imports) := by
    simp [named_form]
  have own : module.form.items.filterMap (defined? keyword) =
      (module.form.named keyword).filterMap name? := by
    simp only [named, List.filterMap_filter, decide_eq_true_eq]
    rfl
  rw [definitions, imports, importedNames, own]

/-- The types are defined in order, each once. -/
theorem definitions_type (numbered : module.Numbered) :
    module.form.definitions "type" = (List.range module.numTypes.toNat).map typeName := by
  have own : module.form.named "type" = module.typeForms := by simp [named_form]
  rw [definitions_form, importedNames_type, own, List.nil_append, typeForms,
    filterMap_zipIdx fun _ => rfl, ← List.range_eq_range', numbered.toNat_numTypes]

theorem range_add (first count : Nat) :
    List.range (first + count) = List.range' 0 first ++ List.range' first count := by
  have split := List.range'_append_1 (s := 0) (m := first) (n := count)
  rw [Nat.zero_add] at split
  rw [List.range_eq_range', split]

/-- The globals are defined in order, the imported ones first. -/
theorem definitions_global (numbered : module.Numbered) :
    module.form.definitions "global" = (List.range module.numGlobals.toNat).map globalName := by
  have own : module.form.named "global" = module.globalForms := by simp [named_form]
  have imported := numbered.toNat_importCount ImportDesc.isGlobal
  rw [definitions_form, importedNames_global, own, globalForms,
    filterMap_zipIdx fun _ => rfl, ← imported, ← List.map_append, importedGlobals,
    ← range_add, numbered.toNat_numGlobals, importedGlobals]

/-- The code of a closed module defines the functions behind the imported ones. -/
theorem map_index_code (numbered : module.Numbered) (closed : module.Closed) :
    (entries module.code).map (fun function => function.index.toNat) =
      List.range' module.importedFunctions.toNat (entries module.functions).length := by
  cases present : module.code with
  | none =>
      have noFunctions : entries module.functions = [] := by
        by_contra declared
        have hasCode := closed.hasCode declared
        rw [present] at hasCode
        cases hasCode
      simp [noFunctions]
  | some functions =>
      have defines := closed.code functions present
      refine List.ext_getElem (by simp [defines.length]) fun position inRange otherInRange => ?_
      have declared : position < (entries module.functions).length := by simpa using otherInRange
      have defined : position < functions.length := by simpa using inRange
      have valid := defines.valid position _ _ (List.getElem?_eq_getElem declared)
        (List.getElem?_eq_getElem defined)
      simp [valid.sameIndex, numbered.toNat_functionIndex declared.le]

/-- The functions are defined in order, the imported ones first. -/
theorem definitions_func (numbered : module.Numbered) (closed : module.Closed) :
    module.form.definitions "func" = (List.range module.numFunctions.toNat).map funcName := by
  have own : module.form.named "func" = (entries module.code).map Func.form := by
    simp [named_form]
  have naming : name? ∘ Func.form = some ∘ (funcName ∘ fun function => function.index.toNat) := rfl
  have imported := numbered.toNat_importCount ImportDesc.isFunc
  rw [definitions_form, importedNames_func, own, List.filterMap_map, naming,
    List.filterMap_eq_map, ← List.map_map, map_index_code numbered closed, ← imported,
    ← List.map_append, importedFunctions, ← range_add, numbered.toNat_numFunctions,
    importedFunctions]

end Module

/-- No item of an instruction defines a name. -/
theorem Instruction.localName?_eq_none (params : Nat) (instruction : Instruction) :
    ∀ form ∈ instruction.forms params, localName? form = none := by
  refine List.forall_mem_cons.mpr ⟨rfl, ?_⟩
  cases instruction.immediate with
  | block type =>
      cases type with
      | empty => exact List.forall_mem_nil _
      | value type => exact List.forall_mem_singleton.mpr rfl
  | branchTable targets fallback =>
      refine List.forall_mem_append.mpr ⟨?_, List.forall_mem_singleton.mpr rfl⟩
      exact List.forall_mem_map.mpr fun _ _ => rfl
  | memory argument =>
      refine List.forall_mem_append.mpr ⟨?_, ?_⟩
      · split
        · exact List.forall_mem_nil _
        · exact List.forall_mem_singleton.mpr rfl
      · split
        · exact List.forall_mem_nil _
        · exact List.forall_mem_singleton.mpr rfl
  | absent => exact List.forall_mem_nil _
  | _ => exact List.forall_mem_singleton.mpr rfl

/-- The types of locals are as many as the locals. -/
theorem Func.length_localTypes (function : Func) :
    function.localTypes.length = LocalGroup.total function.body.locals := by
  rw [Func.localTypes, LocalGroup.total]
  induction function.body.locals with
  | nil => rfl
  | cons group rest inductionHypothesis =>
      simp only [List.flatMap_cons, List.length_append, List.length_replicate, inductionHypothesis,
        List.map_cons, List.sum_cons]

/-- The names of the params of a function and, numbered on, of its other locals. -/
def Func.localNames (function : Func) : List String :=
  (List.range function.type.params.length).map (fun index => "$p" ++ toString index) ++
    (List.range' function.type.params.length (LocalGroup.total function.body.locals)).map
      fun index => "$l" ++ toString index

/-- A function defines its params and then its locals. -/
theorem Func.localDefinitions_form (function : Func) :
    function.form.localDefinitions = function.localNames := by
  have params : function.paramForms.filterMap localName? =
      (List.range' 0 function.type.params.length).map fun index => "$p" ++ toString index :=
    filterMap_zipIdx (fun _ => rfl) _ _
  have locals : function.localForms.filterMap localName? =
      (List.range' function.type.params.length (LocalGroup.total function.body.locals)).map
        fun index => "$l" ++ toString index := by
    rw [← function.length_localTypes]
    exact filterMap_zipIdx (fun _ => rfl) _ _
  have results : (resultForms function.type.results).filterMap localName? = [] :=
    List.filterMap_eq_nil_iff.mpr (List.forall_mem_map.mpr fun _ _ => rfl)
  have code : function.codeForms.filterMap localName? = [] := by
    refine List.filterMap_eq_nil_iff.mpr fun form among => ?_
    obtain ⟨instruction, -, among⟩ := List.mem_flatMap.mp among
    exact instruction.localName?_eq_none _ form among
  have header : function.headerForms.filterMap localName? =
      function.paramForms.filterMap localName? := by
    rw [Func.headerForms]
    simp only [List.filterMap_cons, List.filterMap_append, results, List.append_nil]
    rfl
  have all : function.form.localDefinitions =
      (function.headerForms ++ (function.localForms ++ function.codeForms)).filterMap localName? :=
    rfl
  rw [all, List.filterMap_append, List.filterMap_append, header, params, locals, code,
    List.append_nil, Func.localNames, List.range_eq_range']

/-! ## Uses -/

namespace Form

/-- Names are used side by side, each under the word in front of it. -/
theorem usesAll_append (governor : String) (first second : List Form) :
    usesAll governor (first ++ second) =
      usesAll governor first ++
        usesAll (first.foldl (fun earlier form => form.governing earlier) governor) second := by
  induction first generalizing governor with
  | nil => rfl
  | cons form rest inductionHypothesis =>
      rw [List.cons_append, usesAll, usesAll, inductionHypothesis, List.append_assoc,
        List.foldl_cons]

/-- Lists do not govern what follows them. -/
theorem foldl_governing
    {lists : List Form}
    (areLists : ∀ form ∈ lists, ∀ governor, form.governing governor = governor)
    (governor : String) :
    lists.foldl (fun earlier form => form.governing earlier) governor = governor := by
  induction lists with
  | nil => rfl
  | cons form rest inductionHypothesis =>
      obtain ⟨isList, areLists⟩ := List.forall_mem_cons.mp areLists
      rw [List.foldl_cons, isList, inductionHypothesis areLists]

/-- The names in some forms are in scope, whatever stands in front of the forms. -/
def Resolve (scope : String → List String) (forms : List Form) : Prop :=
  ∀ governor, ∀ use ∈ usesAll governor forms, use.2 ∈ scope use.1

namespace Resolve

variable {scope : String → List String}

theorem nil : Resolve scope [] := fun _ => by simp [usesAll]

/-- Forms side by side resolve if both do. -/
theorem append
    {first second : List Form}
    (firstResolve : Resolve scope first)
    (secondResolve : Resolve scope second) :
    Resolve scope (first ++ second) := by
  intro governor
  rw [usesAll_append, List.forall_mem_append]
  exact ⟨firstResolve governor, secondResolve _⟩

/-- A form and others resolve if both do. The lemmas that follow go through lists of
forms. -/
theorem cons
    {form : Form}
    (formResolves : Resolve scope [form])
    {rest : List Form}
    (restResolve : Resolve scope rest) :
    Resolve scope (form :: rest) :=
  formResolves.append restResolve

theorem map
    {form : α → Form}
    {items : List α}
    (resolve : ∀ item ∈ items, Resolve scope [form item]) :
    Resolve scope (items.map form) := by
  induction items with
  | nil => exact nil
  | cons item rest inductionHypothesis =>
      obtain ⟨first, others⟩ := List.forall_mem_cons.mp resolve
      exact first.cons (inductionHypothesis others)

theorem flatMap
    {forms : α → List Form}
    {items : List α}
    (resolve : ∀ item ∈ items, Resolve scope (forms item)) :
    Resolve scope (items.flatMap forms) := by
  induction items with
  | nil => exact nil
  | cons item rest inductionHypothesis =>
      obtain ⟨first, others⟩ := List.forall_mem_cons.mp resolve
      exact first.append (inductionHypothesis others)

/-- A word that is not a name uses none. -/
theorem word {text : String} (notName : isName text = false) : Resolve scope [.word text] := by
  intro governor
  simp [usesAll, uses, notName]

theorem literal (content : List Char) : Resolve scope [.literal content] := by
  intro governor
  simp [usesAll, uses]

theorem list {items : List Form} (resolve : Resolve scope items) :
    Resolve scope [.list items] := by
  intro governor
  rw [usesAll, usesAll, List.append_nil]
  exact resolve ""

/-- A word and names that it governs, with lists between them that it does not. -/
theorem governed_behind
    {governor : String}
    (notName : isName governor = false)
    {lists : List Form}
    (areLists : ∀ form ∈ lists, ∀ earlier, form.governing earlier = earlier)
    (resolve : Resolve scope lists)
    {names : List String}
    (areNames : ∀ name ∈ names, isName name = true)
    (inScope : ∀ name ∈ names, name ∈ scope governor) :
    Resolve scope (.word governor :: (lists ++ names.map .word)) := by
  have used : usesAll governor (names.map .word) = names.map fun name => (governor, name) := by
    induction names with
    | nil => rfl
    | cons name rest inductionHypothesis =>
        obtain ⟨isFirst, areNames⟩ := List.forall_mem_cons.mp areNames
        rw [List.map_cons, usesAll, uses, if_pos isFirst, governing, if_pos isFirst,
          inductionHypothesis areNames (List.forall_mem_cons.mp inScope).2]
        rfl
  intro earlier
  rw [usesAll, uses, notName, governing, notName]
  simp only [Bool.false_eq_true, if_false, List.nil_append]
  rw [usesAll_append, foldl_governing areLists, used, List.forall_mem_append]
  exact ⟨resolve governor, List.forall_mem_map.mpr inScope⟩

/-- A word and names that it governs. -/
theorem governed
    {governor : String}
    (notName : isName governor = false)
    {names : List String}
    (areNames : ∀ name ∈ names, isName name = true)
    (inScope : ∀ name ∈ names, name ∈ scope governor) :
    Resolve scope (.word governor :: names.map .word) :=
  governed_behind notName (List.forall_mem_nil _) nil areNames inScope

end Resolve

end Form

/-- The names of the indices below some bounds are in scope, in a function with
some params. -/
structure Covers (scope : String → List String) (bounds : IndexBounds) (params : Nat) : Prop where
  types : ∀ index < bounds.types, typeName index ∈ scope "type"
  functions : ∀ governor ∈ ["func", "call", "elem", "start"],
    ∀ index < bounds.functions, funcName index ∈ scope governor
  globals : ∀ governor ∈ ["global", "global.get", "global.set"],
    ∀ index < bounds.globals, globalName index ∈ scope governor
  locals : ∀ governor ∈ ["param", "local", "local.get", "local.set", "local.tee"],
    ∀ index < bounds.locals, localName params index ∈ scope governor

namespace Opcode

/-- Only calls take a function. -/
theorem eq_call_of_kind {op : Opcode} (kind : op.immediateKind = .functionIndex) : op = .call := by
  have allOps : ∀ op ∈ all, op.immediateKind = .functionIndex → op = .call := by decide +kernel
  exact allOps op op.mem_all kind

/-- A local index stands behind an opcode that names locals. -/
theorem mnemonic_of_localIndex {op : Opcode} (kind : op.immediateKind = .localIndex) :
    op.mnemonic ∈ ["param", "local", "local.get", "local.set", "local.tee"] := by
  have allOps : ∀ op ∈ all, op.immediateKind = .localIndex →
      op = .localGet ∨ op = .localSet ∨ op = .localTee := by
    decide +kernel
  obtain rfl | rfl | rfl := allOps op op.mem_all kind <;> decide

/-- A global index stands behind an opcode that names globals. -/
theorem mnemonic_of_globalIndex {op : Opcode} (kind : op.immediateKind = .globalIndex) :
    op.mnemonic ∈ ["global", "global.get", "global.set"] := by
  have allOps : ∀ op ∈ all, op.immediateKind = .globalIndex →
      op = .globalGet ∨ op = .globalSet := by
    decide +kernel
  obtain rfl | rfl := allOps op op.mem_all kind <;> decide

end Opcode

section Items

variable {scope : String → List String} {bounds : IndexBounds} {params : Nat}

/-- The use of a type resolves if the type is there. -/
theorem resolve_typeUse
    (covers : Covers scope bounds params)
    {index : Nat}
    (below : index < bounds.types) :
    Resolve scope [typeUse index] :=
  .list (.governed rfl (List.forall_mem_singleton.mpr (Token.isName_typeName index))
    (List.forall_mem_singleton.mpr (covers.types index below)))

theorem ValueType.resolve (type : ValueType) : Resolve scope [.word type.name] :=
  .word (by cases type <;> rfl)

/-- A word and a value type in a list. -/
theorem resolve_field {keyword : String} (notName : isName keyword = false) (type : ValueType) :
    Resolve scope [.list [.word keyword, .word type.name]] :=
  .list ((Resolve.word notName).cons type.resolve)

/-- Results use no names. Neither do the types that follow. -/
theorem resolve_resultForms (results : List ValueType) : Resolve scope (resultForms results) :=
  .map fun type _ => resolve_field rfl type

theorem Limits.resolve (limits : Limits) : Resolve scope limits.forms := by
  rw [Limits.forms]
  refine (Resolve.word (Token.isOperand_natural _).notName).cons ?_
  split
  · exact .nil
  · exact .word (Token.isOperand_natural _).notName

theorem TableType.resolve (type : TableType) : Resolve scope type.forms :=
  type.limits.resolve.append (.word rfl)

theorem GlobalType.resolve (type : GlobalType) : Resolve scope [type.form] := by
  rw [GlobalType.form]
  split
  · exact type.contentType.resolve
  · exact resolve_field rfl type.contentType

theorem FuncType.resolve (type : FuncType) : Resolve scope [type.form] := by
  refine .list ((Resolve.word rfl).cons (.append ?_ (resolve_resultForms _)))
  exact .map fun param _ => resolve_field rfl param

/-- An instruction uses names of indices within bounds. -/
theorem Instruction.resolve
    (covers : Covers scope bounds params)
    {instruction : Instruction}
    (admissible : instruction.Admissible bounds) :
    Resolve scope (instruction.forms params) := by
  obtain ⟨op, immediate⟩ := instruction
  obtain ⟨suits, inRange⟩ := admissible
  have opcode : Resolve scope [.word op.mnemonic] :=
    .word (Token.isPlain_mnemonic op).isName_eq_false
  cases immediate with
  | absent => exact opcode
  | block type =>
      refine opcode.cons ?_
      cases type with
      | empty => exact .nil
      | value type => exact resolve_resultForms [type]
  | branchDepth depth => exact opcode.cons (.word (Token.isOperand_natural _).notName)
  | branchTable targets fallback =>
      refine opcode.cons (.append ?_ (.word (Token.isOperand_natural _).notName))
      exact .map fun target _ => .word (Token.isOperand_natural _).notName
  | functionIndex index =>
      obtain rfl := Opcode.eq_call_of_kind suits
      exact .governed (Token.isPlain_mnemonic .call).isName_eq_false
        (List.forall_mem_singleton.mpr (Token.isName_funcName _))
        (List.forall_mem_singleton.mpr (covers.functions "call" (by decide) _ inRange))
  | typeIndex index => exact opcode.cons (resolve_typeUse covers inRange)
  | localIndex index =>
      exact .governed (Token.isPlain_mnemonic op).isName_eq_false
        (List.forall_mem_singleton.mpr (Token.isName_localName _ _))
        (List.forall_mem_singleton.mpr
          (covers.locals _ (Opcode.mnemonic_of_localIndex suits) _ inRange))
  | globalIndex index =>
      exact .governed (Token.isPlain_mnemonic op).isName_eq_false
        (List.forall_mem_singleton.mpr (Token.isName_globalName _))
        (List.forall_mem_singleton.mpr
          (covers.globals _ (Opcode.mnemonic_of_globalIndex suits) _ inRange))
  | memory argument =>
      refine opcode.cons (.append ?_ ?_)
      · split
        · exact .nil
        · exact .word (Token.isOperand_offset _).notName
      · split
        · exact .nil
        · exact .word (Token.isOperand_align _).notName
  | i32 value => exact opcode.cons (.word (Token.isOperand_integer _).notName)
  | i64 value => exact opcode.cons (.word (Token.isOperand_integer _).notName)
  | f32 bits => exact opcode.cons (.word (Token.isOperand_floatLiteral _ _).notName)
  | f64 bits => exact opcode.cons (.word (Token.isOperand_floatLiteral _ _).notName)

/-- A valid constant expression is written like the instruction it consists of. -/
theorem ConstExpr.form_eq
    {globals : Nat}
    {expr : ConstExpr}
    (valid : expr.Valid globals)
    (params : Nat) :
    expr.form = .list (expr.instruction.forms params) := by
  obtain ⟨⟨op, immediate⟩, size⟩ := expr
  obtain ⟨constant, suits, -⟩ := valid
  have kind := Opcode.immediateKind_of_isConstant constant
  cases immediate with
  | i32 value => rfl
  | i64 value => rfl
  | f32 bits => rfl
  | f64 bits => rfl
  | globalIndex index => rfl
  | absent => obtain same | same := suits <;> simp [same] at kind
  | _ => simp [show op.immediateKind = _ from suits] at kind

/-- A constant expression uses a global that is in scope, if any. -/
theorem ConstExpr.resolve
    (covers : Covers scope bounds params)
    {globals : Nat}
    (fewer : globals ≤ bounds.globals)
    {expr : ConstExpr}
    (valid : expr.Valid globals) :
    Resolve scope [expr.form] := by
  rw [expr.form_eq valid params]
  have covered : Covers scope { types := 0, functions := 0, globals, locals := 0 } params :=
    ⟨nofun, fun _ _ => nofun,
      fun governor among index below =>
        covers.globals governor among index (Nat.lt_of_lt_of_le below fewer),
      fun _ _ => nofun⟩
  exact .list (Instruction.resolve covered valid.2)

/-- A list that begins with a keyword and a name that this governs. -/
theorem resolve_naming
    {keyword name : String}
    (notName : isName keyword = false)
    (named : isName name = true)
    (inScope : name ∈ scope keyword)
    {rest : List Form}
    (resolve : Resolve scope rest) :
    Resolve scope [.list (.word keyword :: .word name :: rest)] :=
  .list ((Resolve.governed notName (List.forall_mem_singleton.mpr named)
    (List.forall_mem_singleton.mpr inScope)).append resolve)

/-- The definitions of types resolve, as each defines its own name. -/
theorem resolve_typeForms
    (covers : Covers scope bounds params)
    {types : List FuncType}
    (enough : types.length ≤ bounds.types) :
    ∀ form ∈ types.zipIdx.map fun (item : FuncType × Nat) =>
      Form.list [.word "type", .word (typeName item.2), item.1.form], Resolve scope [form] := by
  refine List.forall_mem_map.mpr fun item among => ?_
  have below := List.snd_lt_of_mem_zipIdx among
  exact resolve_naming rfl (Token.isName_typeName _) (covers.types _ (by omega)) item.1.resolve

/-- The form of an import resolves if its type is there and its own name is in scope. -/
theorem ImportDesc.resolve
    (covers : Covers scope bounds params)
    {functions globals : Nat}
    {desc : ImportDesc}
    (typed : ∀ index, desc = .func index → index.toNat < bounds.types)
    (functionFits : desc.isFunc = true → functions < bounds.functions)
    (globalFits : desc.isGlobal = true → globals < bounds.globals) :
    Resolve scope [desc.form functions globals] := by
  cases desc with
  | func typeIndex =>
      exact resolve_naming rfl (Token.isName_funcName _)
        (covers.functions "func" (by decide) _ (functionFits rfl))
        (resolve_typeUse covers (typed typeIndex rfl))
  | table type => exact .list ((Resolve.word rfl).cons type.resolve)
  | memory type => exact .list ((Resolve.word rfl).cons type.limits.resolve)
  | global type =>
      exact resolve_naming rfl (Token.isName_globalName _)
        (covers.globals "global" (by decide) _ (globalFits rfl)) type.resolve

/-- The forms of all imports resolve, under the counters that they begin with. -/
theorem resolve_importForms
    (covers : Covers scope bounds params)
    {items : List Import}
    (typed : ∀ item ∈ items, ∀ index, item.desc = .func index → index.toNat < bounds.types)
    {functions globals : Nat}
    (functionsFit : functions + (items.countP fun item => item.desc.isFunc) ≤ bounds.functions)
    (globalsFit : globals + (items.countP fun item => item.desc.isGlobal) ≤ bounds.globals) :
    ∀ form ∈ importForms functions globals items, Resolve scope [form] := by
  induction items generalizing functions globals with
  | nil => exact List.forall_mem_nil _
  | cons item rest inductionHypothesis =>
      obtain ⟨itemTyped, restTyped⟩ := List.forall_mem_cons.mp typed
      rw [List.countP_cons] at functionsFit globalsFit
      refine List.forall_mem_cons.mpr ⟨?_, inductionHypothesis restTyped (by omega) (by omega)⟩
      have described : Resolve scope [item.desc.form functions globals] :=
        ImportDesc.resolve covers itemTyped
          (fun isFunc => by rw [if_pos isFunc] at functionsFit; omega)
          (fun isGlobal => by rw [if_pos isGlobal] at globalsFit; omega)
      exact .list ((Resolve.word rfl).cons ((Resolve.literal _).cons
        ((Resolve.literal _).cons described)))

/-- The definitions of globals resolve, as their values only use imported ones. -/
theorem resolve_globalForms
    (covers : Covers scope bounds params)
    {imported : Nat}
    {globals : List Global}
    (enough : imported + globals.length ≤ bounds.globals)
    (valid : ∀ global ∈ globals, global.init.Valid imported) :
    ∀ form ∈ (globals.zipIdx imported).map fun (item : Global × Nat) =>
      Form.list [.word "global", .word (globalName item.2), item.1.type.form, item.1.init.form],
      Resolve scope [form] := by
  refine List.forall_mem_map.mpr fun item among => ?_
  have below := List.snd_lt_of_mem_zipIdx among
  have initial := valid item.1 (List.fst_mem_of_mem_zipIdx among)
  exact resolve_naming rfl (Token.isName_globalName _)
    (covers.globals "global" (by decide) _ (by omega))
    (item.1.type.resolve.cons (ConstExpr.resolve covers (by omega) initial))

/-- An export resolves if what it stands for is in scope. -/
theorem ExportDesc.resolve
    (covers : Covers scope bounds params)
    {desc : ExportDesc}
    (functionFits : ∀ index, desc = .func index → index.toNat < bounds.functions)
    (globalFits : ∀ index, desc = .global index → index.toNat < bounds.globals) :
    Resolve scope [desc.form] := by
  cases desc with
  | func index =>
      exact resolve_naming rfl (Token.isName_funcName _)
        (covers.functions "func" (by decide) _ (functionFits index rfl)) .nil
  | table index =>
      exact .list ((Resolve.word rfl).cons (.word (Token.isOperand_natural _).notName))
  | memory index =>
      exact .list ((Resolve.word rfl).cons (.word (Token.isOperand_natural _).notName))
  | global index =>
      exact resolve_naming rfl (Token.isName_globalName _)
        (covers.globals "global" (by decide) _ (globalFits index rfl)) .nil

/-- A segment of elements resolves if its functions are in scope. -/
theorem ElementSegment.resolve
    (covers : Covers scope bounds params)
    {imported : Nat}
    (fewer : imported ≤ bounds.globals)
    {segment : ElementSegment}
    (valid : segment.offset.Valid imported)
    (inRange : ∀ index ∈ segment.init, index.toNat < bounds.functions) :
    Resolve scope [segment.form] := by
  have named : (segment.init.map fun index => Form.word (funcName index.toNat)) =
      (segment.init.map fun index => funcName index.toNat).map .word := by
    rw [List.map_map]
    rfl
  have items : Resolve scope (.word "elem" :: ([segment.offset.form] ++
      (segment.init.map fun index => funcName index.toNat).map .word)) :=
    .governed_behind rfl (List.forall_mem_singleton.mpr fun _ => rfl)
      (ConstExpr.resolve covers fewer valid)
      (List.forall_mem_map.mpr fun _ _ => Token.isName_funcName _)
      (List.forall_mem_map.mpr fun index among =>
        covers.functions "elem" (by decide) _ (inRange index among))
  rw [ElementSegment.form, named]
  exact .list items

/-- A segment of data resolves if the value of its offset does. -/
theorem DataSegment.resolve
    (covers : Covers scope bounds params)
    {imported : Nat}
    (fewer : imported ≤ bounds.globals)
    {segment : DataSegment}
    (valid : segment.offset.Valid imported) :
    Resolve scope [segment.form] :=
  .list ((Resolve.word rfl).cons ((ConstExpr.resolve covers fewer valid).cons (.literal _)))

end Items

/-! ## Modules -/

/-- The name of a local is the one that its function defines. -/
theorem Func.localName_mem (function : Func) {index : Nat}
    (below : index < function.type.params.length + LocalGroup.total function.body.locals) :
    localName function.type.params.length index ∈ function.form.localDefinitions := by
  rw [function.localDefinitions_form, Func.localNames, List.mem_append, localName]
  by_cases isParam : index < function.type.params.length
  · rw [if_pos isParam]
    exact .inl (List.mem_map.mpr ⟨index, List.mem_range.mpr isParam, rfl⟩)
  · rw [if_neg isParam]
    exact .inr (List.mem_map.mpr ⟨index, List.mem_range'_1.mpr (by omega), rfl⟩)

section Locals

variable {scope : String → List String} {bounds : IndexBounds} {function : Func}

/-- The parameters of a function resolve to its own names. -/
theorem resolve_paramForms
    (covers : Covers scope { bounds with locals :=
      function.type.params.length + LocalGroup.total function.body.locals }
      function.type.params.length) :
    Resolve scope function.paramForms := by
  refine .map fun item among => ?_
  have isParam : item.2 < function.type.params.length := by
    have below := List.snd_lt_of_mem_zipIdx among
    omega
  have inScope := covers.locals "param" (by decide) item.2 (by simp only; omega)
  rw [localName, if_pos isParam] at inScope
  exact resolve_naming rfl (by simp [isName]) inScope item.1.resolve

/-- The locals of a function resolve to its own names, behind the parameters. -/
theorem resolve_localForms
    (covers : Covers scope { bounds with locals :=
      function.type.params.length + LocalGroup.total function.body.locals }
      function.type.params.length) :
    Resolve scope function.localForms := by
  refine .map fun item among => ?_
  have below := List.snd_lt_of_mem_zipIdx among
  rw [function.length_localTypes] at below
  have notParam : ¬ item.2 < function.type.params.length := by
    have above := List.le_snd_of_mem_zipIdx among
    omega
  have inScope := covers.locals "local" (by decide) item.2 (by simp only; omega)
  rw [localName, if_neg notParam] at inScope
  exact resolve_naming rfl (by simp [isName]) inScope item.1.resolve

end Locals

namespace Module

variable {module : Module}

/-- The names that a module defines cover its indices, in each of its items. -/
theorem covers_scope
    (numbered : module.Numbered)
    (closed : module.Closed)
    (item : Form)
    {locals params : Nat}
    (localNames : ∀ index < locals, localName params index ∈ item.localDefinitions) :
    Covers (module.form.scope item) { module.indexSpace.bounds with locals } params where
  types index below := by
    have known : typeName index ∈ module.form.definitions "type" := by
      rw [definitions_type numbered]
      exact List.mem_map.mpr ⟨index, List.mem_range.mpr below, rfl⟩
    simpa [scope] using known
  functions governor among index below := by
    have known : funcName index ∈ module.form.definitions "func" := by
      rw [definitions_func numbered closed]
      exact List.mem_map.mpr ⟨index, List.mem_range.mpr below, rfl⟩
    simp only [List.mem_cons, List.not_mem_nil, or_false] at among
    obtain rfl | rfl | rfl | rfl := among <;> simpa [scope] using known
  globals governor among index below := by
    have known : globalName index ∈ module.form.definitions "global" := by
      rw [definitions_global numbered]
      exact List.mem_map.mpr ⟨index, List.mem_range.mpr below, rfl⟩
    simp only [List.mem_cons, List.not_mem_nil, or_false] at among
    obtain rfl | rfl | rfl := among <;> simpa [scope] using known
  locals governor among index below := by
    have known := localNames index below
    simp only [List.mem_cons, List.not_mem_nil, or_false] at among
    obtain rfl | rfl | rfl | rfl | rfl := among <;> simpa [scope] using known

/-- A function of a closed module uses names that are in scope in it. -/
theorem resolve_func
    (numbered : module.Numbered)
    (closed : module.Closed)
    {function : Func}
    (among : function ∈ entries module.code) :
    Resolve (module.form.scope function.form) [function.form] := by
  obtain ⟨position, declared, valid⟩ := closed.valid_of_mem_code among
  have covers := covers_scope numbered closed function.form fun _ => function.localName_mem
  have ownName : function.index.toNat < module.numFunctions.toNat := by
    rw [valid.sameIndex, numbered.toNat_functionIndex declared.le, numbered.toNat_numFunctions]
    omega
  have ownType : function.typeIndex.toNat < module.numTypes.toNat := by
    rw [valid.sameTypeIndex]
    exact closed.functions _ (List.getElem_mem declared)
  exact resolve_naming rfl (Token.isName_funcName _)
    (covers.functions "func" (by decide) _ ownName)
    ((resolve_typeUse covers ownType).cons (Resolve.append
      (Resolve.append (resolve_paramForms covers) (resolve_resultForms _))
      (Resolve.append (resolve_localForms covers) (.flatMap fun instruction among =>
        Instruction.resolve covers (valid.body.code instruction among)))))

/-- The names in the items of a closed module are in scope there. -/
theorem resolve_children
    (numbered : module.Numbered)
    (closed : module.Closed) :
    ∀ item ∈ module.children, Resolve (module.form.scope item) [item] := by
  intro item among
  have covers : Covers (module.form.scope item) { module.indexSpace.bounds with locals := 0 } 0 :=
    covers_scope numbered closed item nofun
  have importedGlobals_le : module.importedGlobals.toNat ≤ module.numGlobals.toNat := by
    rw [numbered.toNat_numGlobals]
    exact Nat.le_add_right _ _
  -- The forms are gone through kind by kind, in the order in which they are printed.
  simp only [children, List.mem_append] at among
  obtain among | among | among | among | among | among | among | among | among | among := among
  · exact resolve_typeForms covers numbered.toNat_numTypes.ge item among
  · refine resolve_importForms covers (fun item among index present => ?_) ?_ ?_ item among
    · have valid := closed.imports item among
      rw [present] at valid
      exact valid
    · rw [Nat.zero_add, ← numbered.toNat_importCount]
      exact (Nat.le_add_right _ _).trans numbered.toNat_numFunctions.ge
    · rw [Nat.zero_add, ← numbered.toNat_importCount]
      exact importedGlobals_le
  · exact resolve_globalForms covers numbered.toNat_numGlobals.ge
      (fun global among => (closed.globals global among).2) item among
  · obtain ⟨function, functionAmong, rfl⟩ := List.mem_map.mp among
    exact resolve_func numbered closed functionAmong
  · rw [memoryForms] at among
    split at among
    · obtain rfl := List.mem_singleton.mp among
      exact .list ((Resolve.word rfl).cons
        (.list ((Resolve.word rfl).cons (.literal _))))
    · obtain ⟨type, -, rfl⟩ := List.mem_map.mp among
      exact .list ((Resolve.word rfl).cons type.limits.resolve)
  · obtain ⟨type, -, rfl⟩ := List.mem_map.mp among
    exact .list ((Resolve.word rfl).cons type.resolve)
  · rw [dataForms] at among
    split at among
    · cases among
    · obtain ⟨segment, segmentAmong, rfl⟩ := List.mem_map.mp among
      exact DataSegment.resolve covers importedGlobals_le (closed.data segment segmentAmong).offset
  · obtain ⟨exported, exportAmong, rfl⟩ := List.mem_map.mp among
    have valid := closed.exports exported exportAmong
    refine .list ((Resolve.word rfl).cons ((Resolve.literal _).cons
      (ExportDesc.resolve covers (fun index present => ?_) (fun index present => ?_))))
    · rw [present] at valid
      exact valid
    · rw [present] at valid
      exact valid
  · obtain ⟨segment, segmentAmong, rfl⟩ := List.mem_map.mp among
    have valid := closed.elements segment segmentAmong
    exact ElementSegment.resolve covers importedGlobals_le valid.offset valid.functions
  · rw [startForms] at among
    split at among
    · rename_i index present
      obtain rfl := List.mem_singleton.mp among
      exact resolve_naming rfl (Token.isName_funcName _)
        (covers.functions "start" (by decide) _ (closed.start index present)) .nil
    · cases among

/-- The text of a module defines the names of all types, functions and globals in
the order of their indices, and each function those of its params and locals. Every
name in the text is one that is defined for what stands in front of it. -/
structure NamesResolve (module : Module) (form : Form) : Prop where
  types : form.definitions "type" = (List.range module.numTypes.toNat).map typeName
  functions : form.definitions "func" = (List.range module.numFunctions.toNat).map funcName
  globals : form.definitions "global" = (List.range module.numGlobals.toNat).map globalName
  locals : List.Forall₂ (fun function item => item.localDefinitions = function.localNames)
    (entries module.code) (form.named "func")
  uses : ∀ item ∈ form.items, ∀ use ∈ item.uses "", use.2 ∈ form.scope item use.1

/-- In the text of whatever is decoded, all names resolve. -/
theorem namesResolve_of_ofBytes
    {format : HeaderFormat}
    {input : List UInt8}
    {module : Module}
    (decoded : ofBytes format input = .ok module) :
    ∃ form, Form.read module.text = some form ∧ module.NamesResolve form := by
  obtain ⟨behind, parts, -, -, -, -, -, closed⟩ := (ofBytes_eq_ok_iff _ _ _).mp decoded
  have numbered := numbered_of_ofBytes decoded
  have own : module.form.named "func" = (entries module.code).map Func.form := by
    simp [named_form]
  refine ⟨module.form, module.read_text, ?_⟩
  constructor
  · exact definitions_type numbered
  · exact definitions_func numbered closed
  · exact definitions_global numbered
  · rw [own, List.forall₂_map_right_iff]
    exact List.forall₂_same.mpr fun function _ => function.localDefinitions_form
  · refine List.forall_mem_cons.mpr ⟨List.forall_mem_nil _, fun item among use used => ?_⟩
    refine resolve_children numbered closed item among "" use ?_
    rwa [usesAll, usesAll, List.append_nil]

/-- A function with a param and a local that calls itself. -/
theorem namesResolve_of_recursion :
    let input := Header.magicBytes ++ Header.versionBytes ++
      [1, 5, 1, 0x60, 1, 0x7F, 0, 3, 2, 1, 0,
        10, 13, 1, 11, 1, 1, 0x7E, 0x20, 0, 0x10, 0, 0x20, 1, 0x1A, 0x0B]
    let module : Module :=
      { magic := "\x00asm"
        version := 1
        types := some [⟨[.i32], [], 4⟩]
        functions := some [0]
        code := some [⟨0, 0, ⟨[.i32], [], 4⟩,
          ⟨11, [⟨1, .i64⟩],
            [⟨.localGet, .localIndex 0⟩, ⟨.call, .functionIndex 0⟩, ⟨.localGet, .localIndex 1⟩,
              ⟨.drop, .absent⟩], 12⟩⟩] }
    ofBytes .compact input = .ok module ∧
      ∃ form, Form.read module.text = some form ∧ module.NamesResolve form := by
  intro input module
  have decoded : ofBytes .compact input = .ok module := by decide +kernel
  exact ⟨decoded, namesResolve_of_ofBytes decoded⟩

end Module

end WebAssembly
