import WebAssembly.Proofs.Printed

/-!
# The arrangement of a text

The text of a module is one list of forms in parentheses and a line break. Each form
of the list starts a line of its own, and each entry of the module has just one of
them, in a fixed order. This holds of all modules, whatever their names and data are
and however little their code is balanced.
-/

namespace WebAssembly

open Form
open Token (Enclosed Shows)

/-- All forms of some begin with a keyword. -/
theorem Form.map_keyword?_eq_replicate
    {forms : List Form}
    {keyword : String}
    (headed : ∀ form ∈ forms, form.keyword? = some keyword) :
    forms.map keyword? = List.replicate forms.length (some keyword) := by
  rw [List.eq_replicate_iff]
  exact ⟨List.length_map _, List.forall_mem_map.mpr headed⟩

@[simp] theorem length_importForms (functions globals : Nat) (items : List Import) :
    (importForms functions globals items).length = items.length := by
  induction items generalizing functions globals with
  | nil => rfl
  | cons item rest inductionHypothesis =>
      rw [importForms, List.length_cons, inductionHypothesis, List.length_cons]

namespace Module

/-- How many memories the text of a module has. One that a data segment is written
into stands for all. -/
def memoryCount (module : Module) : Nat :=
  if module.foldedData?.isSome then 1 else (entries module.memories).length

/-- How many data segments stand on their own in the text of a module. -/
def dataCount (module : Module) : Nat :=
  if module.foldedData?.isSome then 0 else (entries module.data).length

/-- The keywords of the entries of a module in the order of its text. -/
def keywords (module : Module) : List String :=
  List.replicate (entries module.types).length "type" ++
    (List.replicate (entries module.imports).length "import" ++
      (List.replicate (entries module.globals).length "global" ++
        (List.replicate (entries module.code).length "func" ++
          (List.replicate module.memoryCount "memory" ++
            (List.replicate (entries module.tables).length "table" ++
              (List.replicate module.dataCount "data" ++
                (List.replicate (entries module.exports).length "export" ++
                  (List.replicate (entries module.elements).length "elem" ++
                    List.replicate (if module.start.isSome then 1 else 0) "start"))))))))

section Counts

variable (module : Module)

@[simp] theorem length_memoryForms : module.memoryForms.length = module.memoryCount := by
  rw [memoryForms, memoryCount]
  cases module.foldedData? with
  | some segment => rfl
  | none => exact List.length_map _

@[simp] theorem length_dataForms : module.dataForms.length = module.dataCount := by
  rw [dataForms, dataCount]
  cases module.foldedData? with
  | some segment => rfl
  | none => exact List.length_map _

@[simp] theorem length_startForms :
    module.startForms.length = if module.start.isSome then 1 else 0 := by
  rw [startForms]
  cases module.start <;> rfl

/-- Each entry of a module has one form, in the order of the keywords. -/
theorem map_keyword?_children :
    module.children.map Form.keyword? = module.keywords.map some := by
  simp only [children, keywords, List.map_append, List.map_replicate,
    map_keyword?_eq_replicate module.keyword?_typeForms,
    map_keyword?_eq_replicate (keyword?_importForms 0 0 _),
    map_keyword?_eq_replicate module.keyword?_globalForms,
    map_keyword?_eq_replicate module.keyword?_functionForms,
    map_keyword?_eq_replicate module.keyword?_memoryForms,
    map_keyword?_eq_replicate module.keyword?_tableForms,
    map_keyword?_eq_replicate module.keyword?_dataForms,
    map_keyword?_eq_replicate module.keyword?_exportForms,
    map_keyword?_eq_replicate module.keyword?_elementForms,
    map_keyword?_eq_replicate module.keyword?_startForms]
  simp [typeForms, globalForms, tableForms]

end Counts

/-- A text is that of a module with each entry on lines of its own. -/
structure Arranged (module : Module) (text : String) : Prop where
  /-- The text is one pair of parentheses and a line break. -/
  enclosed : ∃ inner, text = inner ++ "\n" ∧ Enclosed inner
  /-- Each child of the module starts a line, which is indented by two spaces, and is
  one pair of parentheses. -/
  lines : ∃ texts : List String,
    text = "(module" ++ String.join (texts.map ("\n  " ++ ·)) ++
      (if texts.isEmpty then "" else "\n") ++ ")\n" ∧
    List.Forall₂ (fun child form => Enclosed child ∧ Form.read child = some form) texts
      module.children
  read : Form.read text = some (.list (.word "module" :: module.children))
  keywords : module.children.map Form.keyword? = module.keywords.map some
  folded : ∀ segment, module.foldedData? = some segment →
    module.memoryForms = [.list [.word "memory", .list [.word "data", dataForm segment.init]]]

/-- There are no lines exactly if there are no texts, as every line begins with a break.
-/
theorem isEmpty_eq_of_join_eq
    {lines : List Line}
    {texts : List String}
    (same : String.join (lines.map Line.render) = String.join (texts.map ("\n  " ++ ·))) :
    lines.isEmpty = texts.isEmpty := by
  have chars := congrArg String.toList same
  cases lines with
  | nil =>
      cases texts with
      | nil => rfl
      | cons text texts => simp at chars
  | cons line lines =>
      cases texts with
      | nil => simp [Line.render] at chars
      | cons text texts => rfl

/-- The text of any module is arranged. -/
theorem arranged_text (module : Module) : module.Arranged module.text where
  enclosed := ⟨module.formText, module.text_eq, module.shows_formText.enclosed⟩
  lines := by
    obtain ⟨texts, same, shown⟩ := module.lays_lines
    refine ⟨texts, ?_, shown.imp fun _ _ shows => ⟨shows.enclosed, shows.read⟩⟩
    rw [text, isEmpty_eq_of_join_eq same, String.join_cons, same]
  read := module.read_text
  keywords := module.map_keyword?_children
  folded segment folds := by rw [memoryForms, folds]

end Module

end WebAssembly
