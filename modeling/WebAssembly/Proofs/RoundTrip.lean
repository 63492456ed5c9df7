import WebAssembly.Proofs.Module
import WebAssembly.Proofs.Size

/-!
# Encoding and decoding modules

Decoding undoes encoding up to the sizes that the parts of a module record, and
encoding undoes decoding on inputs that are spelled as short as can be.
-/

namespace WebAssembly

open Layout (Written)
open Numeral (IsGroup SpellsUnsigned)

namespace Module

/-! ## Modules without sizes -/

/-- Each section of a module without sizes is the section without sizes. -/
theorem section?_unsized (module : Module) (id : SectionId) :
    module.unsized.section? id = (module.section? id).map Section.unsized := by
  cases id <;> simp only [section?, unsized, Option.map_map, Option.map_none] <;> rfl

/-- The sections of a module without sizes are the sections without sizes. -/
theorem sections_unsized (module : Module) :
    module.unsized.sections = module.sections.map Section.unsized := by
  rw [sections, sections, List.map_filterMap]
  exact List.filterMap_congr fun id _ => module.section?_unsized id

/-- A module is known by its header and its sections. -/
theorem ext_sections
    {module other : Module}
    (sameMagic : module.magic = other.magic)
    (sameVersion : module.version = other.version)
    (sameSections : module.sections = other.sections) :
    module = other := by
  rw [← module.foldl_sections, ← other.foldl_sections, sameMagic, sameVersion, sameSections]

/-- Without their sizes, a module and the module without sizes have one layout. -/
theorem unmeasured_layout_unsized (format : HeaderFormat) (module : Module) :
    (module.unsized.layout format).unmeasured = (module.layout format).unmeasured := by
  rw [layout, layout, Layout.unmeasured_append, Layout.unmeasured_append, sections_unsized,
    (Section.resizable format).unmeasured_all]

/-- The encoder ignores sizes. -/
theorem encode_unsized (format : HeaderFormat) (module : Module) :
    module.unsized.encode format = module.encode format := by
  rw [encode, encode, ← Layout.shortest_unmeasured, unmeasured_layout_unsized,
    Layout.shortest_unmeasured]

/-- Some sizes fit the bytes that a module lays out without sizes. -/
theorem exists_written_of_unmeasured
    {format : HeaderFormat}
    {module : Module}
    {list : List UInt8}
    (written : (module.layout format).unmeasured.Written list) :
    ∃ resized : Module, resized.magic = module.magic ∧ resized.version = module.version ∧
      resized.unsized = module.unsized ∧ (resized.layout format).Written list := by
  obtain ⟨header, rest, rfl, headerWritten, restWritten⟩ :=
    (Layout.written_append _ _ _).mp written
  obtain ⟨contents, same, contentsWritten⟩ :=
    (Section.resizable format).adjusts_all module.sections rest restWritten
  have sameIds : contents.map Section.id = module.sections.map Section.id := by
    have ids := congrArg (List.map Section.id) same
    simpa only [List.map_map, Function.comp_def, Section.id_unsized] using ids
  have ordered : contents.Pairwise Section.Precedes := by
    rw [Section.ordered_iff, sameIds, ← Section.ordered_iff]
    exact module.sections_ordered
  have sameSections := sections_foldl ordered module.magic module.version
  refine ⟨contents.foldl add (bare module.magic module.version), magic_foldl _ _,
    version_foldl _ _, ext_sections (magic_foldl _ _) (version_foldl _ _) ?_, ?_⟩
  · rw [sections_unsized, sections_unsized, sameSections, same]
  · rw [layout, sameSections]
    exact (Layout.written_append _ _ _).mpr ⟨header, rest, rfl, headerWritten, contentsWritten⟩

/-! ## Counts -/

section Counts

variable (module : Module)

@[simp] theorem entries_map (list : Option (List α)) (function : α → α) :
    entries (list.map fun items => items.map function) = (entries list).map function := by
  cases list <;> rfl

@[simp] theorem entries_types_unsized :
    entries module.unsized.types = (entries module.types).map FuncType.unsized :=
  entries_map _ _

@[simp] theorem entries_imports_unsized :
    entries module.unsized.imports = (entries module.imports).map Import.unsized :=
  entries_map _ _

@[simp] theorem entries_tables_unsized :
    entries module.unsized.tables = (entries module.tables).map TableType.unsized :=
  entries_map _ _

@[simp] theorem entries_memories_unsized :
    entries module.unsized.memories = (entries module.memories).map MemoryType.unsized :=
  entries_map _ _

@[simp] theorem entries_globals_unsized :
    entries module.unsized.globals = (entries module.globals).map Global.unsized :=
  entries_map _ _

@[simp] theorem entries_exports_unsized :
    entries module.unsized.exports = (entries module.exports).map Export.unsized :=
  entries_map _ _

@[simp] theorem entries_elements_unsized :
    entries module.unsized.elements = (entries module.elements).map ElementSegment.unsized :=
  entries_map _ _

@[simp] theorem entries_data_unsized :
    entries module.unsized.data = (entries module.data).map DataSegment.unsized :=
  entries_map _ _

@[simp] theorem functions_unsized : module.unsized.functions = module.functions := rfl

@[simp] theorem start_unsized : module.unsized.start = module.start := rfl

@[simp] theorem numTypes_unsized : module.unsized.numTypes = module.numTypes := by
  simp [numTypes]

/-- Imports are counted regardless of their sizes. -/
theorem importCount_unsized
    {kind : ImportDesc → Bool}
    (ignoresSizes : ∀ desc : ImportDesc, kind desc.unsized = kind desc) :
    module.unsized.importCount kind = module.importCount kind := by
  have sameKind : (fun item : Import => kind item.desc) ∘ Import.unsized =
      fun item => kind item.desc :=
    funext fun item => ignoresSizes item.desc
  rw [importCount, importCount, entries_imports_unsized, List.countP_map, sameKind]

@[simp] theorem importedFunctions_unsized :
    module.unsized.importedFunctions = module.importedFunctions :=
  module.importCount_unsized fun desc => by cases desc <;> rfl

@[simp] theorem importedGlobals_unsized :
    module.unsized.importedGlobals = module.importedGlobals :=
  module.importCount_unsized fun desc => by cases desc <;> rfl

@[simp] theorem importedTables_unsized :
    module.unsized.importedTables = module.importedTables :=
  module.importCount_unsized fun desc => by cases desc <;> rfl

@[simp] theorem importedMemories_unsized :
    module.unsized.importedMemories = module.importedMemories :=
  module.importCount_unsized fun desc => by cases desc <;> rfl

@[simp] theorem numFunctions_unsized : module.unsized.numFunctions = module.numFunctions := by
  simp [numFunctions]

@[simp] theorem numTables_unsized : module.unsized.numTables = module.numTables := by
  simp [numTables]

@[simp] theorem numMemories_unsized : module.unsized.numMemories = module.numMemories := by
  simp [numMemories]

@[simp] theorem numGlobals_unsized : module.unsized.numGlobals = module.numGlobals := by
  simp [numGlobals]

@[simp] theorem indexSpace_unsized : module.unsized.indexSpace = module.indexSpace := by
  simp [indexSpace]

end Counts

end Module

/-! ## Closed modules without sizes -/

/-- The lemmas that follow say that validity does not depend on sizes. -/
theorem FuncType.valid_unsized_iff (type : FuncType) : type.unsized.Valid ↔ type.Valid := by
  constructor
  · intro valid
    exact ⟨valid.params, valid.results, valid.arity⟩
  · intro valid
    exact ⟨valid.params, valid.results, valid.arity⟩

theorem ImportDesc.valid_unsized_iff (module : Module) (desc : ImportDesc) :
    desc.unsized.Valid module.unsized ↔ desc.Valid module := by
  cases desc <;> simp [Valid, unsized, GlobalType.unsized]

theorem Global.valid_unsized_iff (module : Module) (global : Global) :
    global.unsized.Valid module.unsized ↔ global.Valid module := by
  rw [Valid, Valid, Module.importedGlobals_unsized]
  rfl

theorem ExportDesc.valid_unsized_iff (module : Module) (desc : ExportDesc) :
    desc.Valid module.unsized ↔ desc.Valid module := by
  cases desc <;> simp [Valid]

theorem ElementSegment.valid_unsized_iff (module : Module) (segment : ElementSegment) :
    segment.unsized.Valid module.unsized ↔ segment.Valid module := by
  constructor
  · intro valid
    exact ⟨valid.table, module.importedGlobals_unsized ▸ valid.offset,
      module.numFunctions_unsized ▸ valid.functions⟩
  · intro valid
    exact ⟨valid.table, module.importedGlobals_unsized.symm ▸ valid.offset,
      module.numFunctions_unsized.symm ▸ valid.functions⟩

theorem DataSegment.valid_unsized_iff (module : Module) (segment : DataSegment) :
    segment.unsized.Valid module.unsized ↔ segment.Valid module := by
  constructor
  · intro valid
    exact ⟨valid.memory, module.importedGlobals_unsized ▸ valid.offset⟩
  · intro valid
    exact ⟨valid.memory, module.importedGlobals_unsized.symm ▸ valid.offset⟩

theorem Body.valid_unsized_iff (bounds : IndexBounds) (type : FuncType) (body : Body) :
    body.unsized.Valid bounds type.unsized ↔ body.Valid bounds type := by
  constructor
  · intro valid
    exact ⟨valid.locals, valid.few, valid.code, valid.bracketed⟩
  · intro valid
    exact ⟨valid.locals, valid.few, valid.code, valid.bracketed⟩

namespace Module

/-- The functions of a module have the types that their type indices name, the
recorded sizes of these types included. -/
def TypesMatch (module : Module) : Prop :=
  ∀ functions, module.code = some functions → ∀ function ∈ functions,
    (entries module.types)[function.typeIndex.toNat]? = some function.type

/-- Functions are defined regardless of sizes. -/
theorem Defines.unsized
    {module : Module}
    {functions : List Func}
    (defines : module.Defines functions) :
    module.unsized.Defines (functions.map Func.unsized) := by
  refine ⟨?_, defines.declared, ?_, ?_⟩
  · simpa [Module.unsized] using defines.typed
  · rw [List.length_map, functions_unsized, defines.length]
  · intro position typeIndex function indexAt functionAt
    rw [List.getElem?_map] at functionAt
    obtain ⟨original, originalAt, rfl⟩ := Option.map_eq_some_iff.mp functionAt
    have valid := defines.valid position typeIndex original indexAt originalAt
    rw [indexSpace_unsized, importedFunctions_unsized, entries_types_unsized]
    refine ⟨valid.sameIndex, valid.sameTypeIndex, ?_, (Body.valid_unsized_iff _ _ _).mpr valid.body⟩
    rw [List.getElem?_map, valid.sameType]
    rfl

/-- Functions without sizes are those of the module if their types match. -/
theorem Defines.of_unsized
    {module : Module}
    {functions : List Func}
    (defines : module.unsized.Defines (functions.map Func.unsized))
    (matching : ∀ function ∈ functions,
      (entries module.types)[function.typeIndex.toNat]? = some function.type) :
    module.Defines functions := by
  refine ⟨?_, defines.declared, ?_, ?_⟩
  · simpa [Module.unsized] using defines.typed
  · rw [← functions_unsized, ← defines.length, List.length_map]
  · intro position typeIndex function indexAt functionAt
    have unsizedAt : (functions.map Func.unsized)[position]? = some function.unsized := by
      rw [List.getElem?_map, functionAt]
      rfl
    have valid := defines.valid position typeIndex function.unsized indexAt unsizedAt
    rw [indexSpace_unsized, importedFunctions_unsized] at valid
    have sameTypeIndex : function.typeIndex = typeIndex := valid.sameTypeIndex
    refine ⟨valid.sameIndex, sameTypeIndex, ?_, (Body.valid_unsized_iff _ _ _).mp valid.body⟩
    rw [← sameTypeIndex]
    exact matching function (List.mem_of_getElem? functionAt)

/-- A function of a code section belongs to some entry of the function section. -/
theorem Defines.valid_of_mem
    {module : Module}
    {functions : List Func}
    (defines : module.Defines functions)
    {function : Func}
    (among : function ∈ functions) :
    (entries module.types)[function.typeIndex.toNat]? = some function.type := by
  obtain ⟨position, functionAt⟩ := List.getElem?_of_mem among
  have bound : position < (entries module.functions).length := by
    rw [← defines.length]
    exact (List.getElem?_eq_some_iff.mp functionAt).1
  have valid := defines.valid position _ function (List.getElem?_eq_getElem bound) functionAt
  rw [valid.sameTypeIndex]
  exact valid.sameType

/-- The functions of a module without sizes are its functions without sizes. -/
theorem code_unsized_eq_some_iff (module : Module) (functions : List Func) :
    module.unsized.code = some functions ↔
      ∃ sized, module.code = some sized ∧ sized.map Func.unsized = functions :=
  Option.map_eq_some_iff

/-- A closed module is closed without its sizes, too. -/
theorem Closed.unsized {module : Module} (closed : module.Closed) : module.unsized.Closed where
  types := by
    simpa [FuncType.valid_unsized_iff] using closed.types
  imports := by
    simpa [Import.unsized, ImportDesc.valid_unsized_iff] using closed.imports
  functions := by
    simpa using closed.functions
  globals := by
    simpa [Global.valid_unsized_iff] using closed.globals
  exports := by
    simpa [Export.unsized, ExportDesc.valid_unsized_iff] using closed.exports
  start := by
    simpa using closed.start
  elements := by
    simpa [ElementSegment.valid_unsized_iff] using closed.elements
  data := by
    simpa [DataSegment.valid_unsized_iff] using closed.data
  hasCode := by
    simpa [Module.unsized] using closed.hasCode
  code functions present := by
    obtain ⟨sized, sizedPresent, rfl⟩ := (code_unsized_eq_some_iff _ _).mp present
    exact (closed.code sized sizedPresent).unsized

/-- In a closed module, the types of functions are those of its signatures. -/
theorem Closed.typesMatch {module : Module} (closed : module.Closed) : module.TypesMatch := by
  intro functions present function among
  exact (closed.code functions present).valid_of_mem among

/-- A module is closed if it is so without its sizes and its types match. -/
theorem Closed.of_unsized
    {module : Module}
    (closed : module.unsized.Closed)
    (matching : module.TypesMatch) :
    module.Closed where
  types := by
    simpa [FuncType.valid_unsized_iff] using closed.types
  imports := by
    simpa [Import.unsized, ImportDesc.valid_unsized_iff] using closed.imports
  functions := by
    simpa using closed.functions
  globals := by
    simpa [Global.valid_unsized_iff] using closed.globals
  exports := by
    simpa [Export.unsized, ExportDesc.valid_unsized_iff] using closed.exports
  start := by
    simpa using closed.start
  elements := by
    simpa [ElementSegment.valid_unsized_iff] using closed.elements
  data := by
    simpa [DataSegment.valid_unsized_iff] using closed.data
  hasCode := by
    simpa [Module.unsized] using closed.hasCode
  code functions present :=
    (closed.code _ ((code_unsized_eq_some_iff _ _).mpr ⟨functions, present, rfl⟩)).of_unsized
      (matching functions present)

/-- Whether a module is closed depends on recorded sizes only as far as it compares
signatures. -/
theorem closed_iff_unsized (module : Module) :
    module.Closed ↔ module.unsized.Closed ∧ module.TypesMatch := by
  constructor
  · intro closed
    exact ⟨closed.unsized, closed.typesMatch⟩
  · rintro ⟨closed, matching⟩
    exact closed.of_unsized matching

/-! ## Signatures -/

end Module

/-- The function with the type that its type index names, if there is one. -/
def Func.retyped (types : List FuncType) (function : Func) : Func :=
  { function with type := types[function.typeIndex.toNat]?.getD function.type }

namespace Module

/-- The module in which every function has the type that its type index names. -/
def retyped (module : Module) : Module :=
  { module with
    code := module.code.map fun functions => functions.map (Func.retyped (entries module.types)) }

/-- The types of functions have no part in the layout. -/
theorem retyped_layout (format : HeaderFormat) (module : Module) :
    module.retyped.layout format = module.layout format := by
  have sameSection (id : SectionId) :
      (module.retyped.section? id).map (Section.layout format) =
        (module.section? id).map (Section.layout format) := by
    cases id with
    | code =>
        simp only [section?, retyped, Option.map_map]
        congr 1
        funext functions
        simp only [Function.comp_apply, Section.layout, Section.id, Section.count,
          Section.payload, List.length_map, List.map_map]
        rfl
    | _ => rfl
  rw [layout, layout, sections, sections, List.map_filterMap, List.map_filterMap]
  congr 2
  exact List.filterMap_congr fun id _ => sameSection id

section Retyped

variable {module : Module} (closed : module.unsized.Closed)

include closed

/-- The type that the type index of a function names differs from the type of the
function in sizes only. -/
theorem exists_type_of_mem
    {functions : List Func}
    (present : module.code = some functions)
    {function : Func}
    (among : function ∈ functions) :
    ∃ type, (entries module.types)[function.typeIndex.toNat]? = some type ∧
      type.unsized = function.type.unsized := by
  have defines :=
    closed.code _ ((code_unsized_eq_some_iff _ _).mpr ⟨functions, present, rfl⟩)
  have named := defines.valid_of_mem (List.mem_map_of_mem among)
  rw [entries_types_unsized, List.getElem?_map] at named
  exact Option.map_eq_some_iff.mp named

/-- Without sizes, looking up the types changes nothing. -/
theorem unsized_retyped : module.retyped.unsized = module.unsized := by
  have sameCode : module.retyped.unsized.code = module.unsized.code := by
    cases present : module.code with
    | none => simp [retyped, unsized, present]
    | some functions =>
        simp only [retyped, unsized, present, Option.map_some, List.map_map]
        congr 1
        apply List.map_congr_left
        intro function among
        obtain ⟨type, named, sameType⟩ := exists_type_of_mem closed present among
        simp only [Function.comp_apply, Func.retyped, Func.unsized, named, Option.getD_some,
          sameType]
  have sameRest : module.retyped.unsized =
      { module.unsized with code := module.retyped.unsized.code } := rfl
  rw [sameRest, sameCode]

/-- Types that have been looked up match. -/
theorem typesMatch_retyped : module.retyped.TypesMatch := by
  rintro _ present function among
  obtain ⟨functions, sizedPresent, rfl⟩ := Option.map_eq_some_iff.mp present
  obtain ⟨original, originalAmong, rfl⟩ := List.mem_map.mp among
  obtain ⟨type, named, -⟩ := exists_type_of_mem closed sizedPresent originalAmong
  have sameTypes : module.retyped.types = module.types := rfl
  simp only [sameTypes, Func.retyped, named, Option.getD_some]

end Retyped

/-! ## Round trips -/

/-- The bytes that a closed module lays out without sizes are decoded to that
module with the sizes it has in them. -/
theorem exists_ofBytes_of_unmeasured
    {format : HeaderFormat}
    {module : Module}
    {input : List UInt8}
    (sameMagic : module.magic = Header.standard.magic)
    (sameVersion : module.version = Header.standard.version)
    (closed : module.unsized.Closed)
    (written : (module.layout format).unmeasured.Written input) :
    ∃ decoded, ofBytes format input = .ok decoded ∧ decoded.unsized = module.unsized ∧
      (decoded.layout format).Written input := by
  obtain ⟨resized, resizedMagic, resizedVersion, same, resizedWritten⟩ :=
    exists_written_of_unmeasured written
  have resizedClosed : resized.unsized.Closed := by rwa [same]
  have retypedClosed : resized.retyped.Closed := by
    rw [closed_iff_unsized, unsized_retyped resizedClosed]
    exact ⟨resizedClosed, typesMatch_retyped resizedClosed⟩
  have retypedWritten : (resized.retyped.layout format).Written input := by
    rwa [retyped_layout]
  refine ⟨resized.retyped, ?_, ?_, retypedWritten⟩
  · exact ofBytes_of_written (resizedMagic.trans sameMagic) (resizedVersion.trans sameVersion)
      retypedClosed retypedWritten
  · rw [unsized_retyped resizedClosed, same]

/-- What was decoded without custom sections can be encoded and decoded again. -/
theorem exists_ofBytes_encode
    {format : HeaderFormat}
    {input : List UInt8}
    {module : Module}
    (noCustom : ∀ part ∈ (Scan.ofBytes format input).sections, part.1.id ≠ .custom)
    (decoded : ofBytes format input = .ok module) :
    ∃ again, ofBytes format (module.encode format) = .ok again ∧
      again.unsized = module.unsized := by
  obtain ⟨_, _, -, -, -, sameMagic, sameVersion, closed⟩ := (ofBytes_eq_ok_iff _ _ _).mp decoded
  have written := (written_of_ofBytes noCustom decoded).unmeasured.shortest.1
  obtain ⟨again, succeeds, same, -⟩ :=
    exists_ofBytes_of_unmeasured sameMagic sameVersion closed.unsized written
  exact ⟨again, succeeds, same⟩

/-- Whatever bytes a reference encoder writes for a closed module, however it
pads the integers, they are decoded to that module, with the sizes that its parts
have in these bytes. The sizes that the module itself records do not matter. -/
theorem ofBytes_of_writes
    {format : HeaderFormat}
    {module : Module}
    {fields : List IntegerField}
    {input : List UInt8}
    (sameMagic : module.magic = "\x00asm")
    (sameVersion : module.version = 1)
    (closed : module.unsized.Closed)
    (writes : (module.layout format).unmeasured.Writes fields input) :
    (∃ decoded, ofBytes format input = .ok decoded ∧ decoded.unsized = module.unsized ∧
      (decoded.layout format).Written input) ∧
    ∃ decoded, ofBytes format (module.encode format) = .ok decoded ∧
      decoded.unsized = module.unsized := by
  have written : (module.layout format).unmeasured.Written input := ⟨fields, writes⟩
  constructor
  · exact exists_ofBytes_of_unmeasured sameMagic sameVersion closed written
  · obtain ⟨decoded, succeeds, same, -⟩ :=
      exists_ofBytes_of_unmeasured sameMagic sameVersion closed written.shortest.1
    exact ⟨decoded, succeeds, same⟩

/-- A function that returns its param, with padded sizes and a padded index. -/
theorem ofBytes_of_padded_getter :
    let module : Module :=
      { magic := "\x00asm"
        version := 1
        types := some [⟨[.i32], [], 0⟩]
        functions := some [0]
        code := some [⟨0, 0, ⟨[.i32], [], 0⟩, ⟨0, [], [⟨.localGet, .localIndex 0⟩], 0⟩⟩] }
    let input := Header.magicBytes ++ Header.versionBytes ++
      [1, 0x85, 0x00, 1, 0x60, 1, 0x7F, 0, 3, 2, 1, 0, 10, 7, 1, 5, 0, 0x20, 0x80, 0x00, 0x0B]
    (∃ decoded, ofBytes .leb128 input = .ok decoded ∧ decoded.unsized = module.unsized ∧
      (decoded.layout .leb128).Written input) ∧
    ∃ decoded, ofBytes .leb128 (module.encode .leb128) = .ok decoded ∧
      decoded.unsized = module.unsized := by
  intro module input
  have closed : module.unsized.Closed := {
    types := by
      have valid : FuncType.Valid ⟨[.i32], [], 0⟩ := ⟨by decide, by decide, by decide⟩
      simpa [module, unsized, FuncType.unsized] using valid
    imports := by simp [module, unsized]
    functions := List.forall_mem_singleton.mpr (show (0 : UInt32) < 1 by decide)
    globals := by simp [module, unsized]
    exports := by simp [module, unsized]
    start := by simp [module]
    elements := by simp [module, unsized]
    data := by simp [module, unsized]
    hasCode := by simp [module, unsized]
    code := by
      rintro _ ⟨⟩
      refine ⟨rfl, rfl, rfl, ?_⟩
      rintro (_ | position) typeIndex function indexAt functionAt
      · cases indexAt
        cases functionAt
        refine ⟨rfl, rfl, rfl, List.forall_mem_nil _, .inl rfl, ?_, .plain ⟨rfl, nofun⟩ .nil⟩
        exact List.forall_mem_singleton.mpr ⟨rfl, show (0 : UInt32).toNat < 1 by decide⟩
      · cases indexAt }
  have zero : SpellsUnsigned 0 [0] := ⟨by simp [IsGroup], by decide, by decide⟩
  have one : SpellsUnsigned 1 [1] := ⟨by simp [IsGroup], by decide, by decide⟩
  have two : SpellsUnsigned 2 [2] := ⟨by simp [IsGroup], by decide, by decide⟩
  have five : SpellsUnsigned 5 [5] := ⟨by simp [IsGroup], by decide, by decide⟩
  have seven : SpellsUnsigned 7 [7] := ⟨by simp [IsGroup], by decide, by decide⟩
  have paddedFive : SpellsUnsigned 5 [0x85, 0x00] := ⟨by simp [IsGroup], by decide, by decide⟩
  have paddedZero : SpellsUnsigned 0 [0x80, 0x00] := ⟨by simp [IsGroup], by decide, by decide⟩
  have types := Layout.Writes.beside (.bytes [1])
    (@Layout.Writes.sized .leb128 _ _ _ _ [1, 0x60, 1, 0x7F, 0] (.leb128 (by decide) paddedFive)
      (.beside (.leb128 (by decide) one) (.beside
        (.beside (.bytes [0x60]) (.beside
          (.beside (.leb128 (by decide) one) (.beside (.bytes [0x7F]) (.bytes [])))
          (.beside (.leb128 (by decide) zero) (.bytes []))))
        (.bytes []))))
  have functions := Layout.Writes.beside (.bytes [3])
    (@Layout.Writes.sized .leb128 _ _ _ _ [1, 0] (.leb128 (by decide) two)
      (.beside (.leb128 (by decide) one) (.beside (.leb128 (by decide) zero) (.bytes []))))
  have code := Layout.Writes.beside (.bytes [10])
    (@Layout.Writes.sized .leb128 _ _ _ _ [1, 5, 0, 0x20, 0x80, 0x00, 0x0B]
      (.leb128 (by decide) seven)
      (.beside (.leb128 (by decide) one) (.beside
        (@Layout.Writes.sized .leb128 _ _ _ _ [0, 0x20, 0x80, 0x00, 0x0B] (.leb128 (by decide) five)
          (.beside (.beside (.leb128 (by decide) zero) (.bytes []))
            (.beside
              (.beside (.beside (.bytes [0x20]) (.leb128 (by decide) paddedZero)) (.bytes []))
              (.bytes [0x0B]))))
        (.bytes []))))
  have writes := Layout.Writes.beside (.bytes (Header.magicBytes ++ Header.versionBytes))
    (.beside types (.beside functions (.beside code (.bytes []))))
  exact ofBytes_of_writes rfl rfl closed writes

/-- An input without custom sections in which every integer that the decoder
reads is spelled as short as can be. -/
structure Canonical (format : HeaderFormat) (input : List UInt8) : Prop where
  noCustom : ∀ part ∈ (Scan.ofBytes format input).sections, part.1.id ≠ .custom
  shortest : ∀ module fields, ofBytes format input = .ok module →
    (module.layout format).Writes fields input → ∀ field ∈ fields, field.IsShortest

namespace Canonical

variable {format : HeaderFormat} {input : List UInt8} {module : Module}

/-- The input consists of what the decoder made of it. -/
theorem exists_writes
    (canonical : Canonical format input)
    (decoded : ofBytes format input = .ok module) :
    ∃ fields, (module.layout format).Writes fields input ∧
      ∀ field ∈ fields, field.IsShortest := by
  obtain ⟨fields, writes⟩ := written_of_ofBytes canonical.noCustom decoded
  exact ⟨fields, writes, canonical.shortest module fields decoded writes⟩

/-- A canonical binary is the shortest one of the module that it is decoded to. -/
theorem encode_eq
    (canonical : Canonical format input)
    (decoded : ofBytes format input = .ok module) :
    module.encode format = input := by
  obtain ⟨fields, writes, shortest⟩ := canonical.exists_writes decoded
  exact (writes.eq_shortest shortest).symm

end Canonical

/-- Encoding gives a canonical input back, whatever the sizes in the module are,
so that no two canonical inputs are decoded to the same module. -/
theorem encode_of_ofBytes
    {format : HeaderFormat}
    {input : List UInt8}
    {module : Module}
    (canonical : Canonical format input)
    (decoded : ofBytes format input = .ok module) :
    (∃ fields, (module.layout format).Writes fields input ∧
      ∀ field ∈ fields, field.IsShortest) ∧
    (∀ resized : Module, resized.unsized = module.unsized → resized.encode format = input) ∧
    ∀ other otherInput, Canonical format otherInput →
      ofBytes format otherInput = .ok other → other.unsized = module.unsized →
        otherInput = input := by
  have encodes (resized : Module) (same : resized.unsized = module.unsized) :
      resized.encode format = input := by
    rw [← encode_unsized, same, encode_unsized, canonical.encode_eq decoded]
  refine ⟨canonical.exists_writes decoded, encodes, ?_⟩
  intro other otherInput otherCanonical otherDecoded same
  rw [← otherCanonical.encode_eq otherDecoded, encodes other same]

/-- A single signature. -/
theorem encode_of_signature :
    let input := Header.magicBytes ++ Header.versionBytes ++ [1, 5, 1, 0x60, 1, 0x7F, 0]
    let module : Module :=
      { magic := "\x00asm"
        version := 1
        types := some [⟨[.i32], [], 4⟩] }
    (∃ fields, (module.layout .leb128).Writes fields input ∧
      ∀ field ∈ fields, field.IsShortest) ∧
    (∀ resized : Module, resized.unsized = module.unsized → resized.encode .leb128 = input) ∧
    ∀ other otherInput, Canonical .leb128 otherInput →
      ofBytes .leb128 otherInput = .ok other → other.unsized = module.unsized →
        otherInput = input := by
  intro input module
  have decoded : ofBytes .leb128 input = .ok module := by decide +kernel
  have zero : SpellsUnsigned 0 [0] := ⟨by simp [IsGroup], by decide, by decide⟩
  have one : SpellsUnsigned 1 [1] := ⟨by simp [IsGroup], by decide, by decide⟩
  have five : SpellsUnsigned 5 [5] := ⟨by simp [IsGroup], by decide, by decide⟩
  have signature := @Layout.Writes.measured 4 _ _ [0x60, 1, 0x7F, 0] rfl
    (.beside (.bytes [0x60]) (.beside
      (.beside (.leb128 (by decide) one) (.beside (.bytes [0x7F]) (.bytes [])))
      (.beside (.leb128 (by decide) zero) (.bytes []))))
  have types := Layout.Writes.beside (.bytes [1])
    (@Layout.Writes.sized .leb128 _ _ _ _ [1, 0x60, 1, 0x7F, 0] (.leb128 (by decide) five)
      (.beside (.leb128 (by decide) one) (.beside signature (.bytes []))))
  have writes := Layout.Writes.beside (.bytes (Header.magicBytes ++ Header.versionBytes))
    (.beside types (.bytes []))
  have canonical : Canonical .leb128 input := by
    refine ⟨by decide +kernel, ?_⟩
    intro other fields otherDecoded otherWrites
    rw [decoded, Except.ok.injEq] at otherDecoded
    subst otherDecoded
    have same : input ++ [] = input ++ [] := rfl
    obtain ⟨rfl, -⟩ := otherWrites.unique writes same
    have short (byte : UInt8) : (IntegerField.unsigned [byte]).IsShortest :=
      fun _ spells => spells.1.length_pos
    change ∀ field ∈ [IntegerField.unsigned [5], .unsigned [1], .unsigned [1], .unsigned [0]],
      field.IsShortest
    simp [short]
  exact encode_of_ofBytes canonical decoded

end Module

end WebAssembly
