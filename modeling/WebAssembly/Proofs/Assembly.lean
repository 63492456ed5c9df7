import WebAssembly.Decode.Module
import WebAssembly.Proofs.Frame
import Mathlib.Data.List.Sort

/-!
# Assembling a module from its sections

A module is the list of its sections, which are ordered by their numbers. The
decoder adds sections in this order and checks each of them against the module
made of those before it. As no later section changes what an earlier one was
checked against, the checks hold in the whole module.

A caller may also add sections one at a time and go on behind a failure. Up to the first
failure this is what the decoder does.
-/

namespace WebAssembly

open Decode

/-! ## The sections of a module -/

/-- One section has a smaller number than another. -/
def Section.Precedes (content other : Section) : Prop :=
  content.id.number.toNat < other.id.number.toNat

namespace Section

instance : Std.Irrefl Precedes := ⟨fun _ => Nat.lt_irrefl _⟩

instance : Std.Antisymm Precedes :=
  ⟨fun _ _ precedes follows => absurd precedes (Nat.lt_asymm follows)⟩

/-- Sections are ordered as their kinds are. -/
theorem ordered_iff (contents : List Section) :
    contents.Pairwise Precedes ↔
      (contents.map Section.id).Pairwise fun id other => id.number.toNat < other.number.toNat := by
  rw [List.pairwise_map]
  rfl

end Section

namespace Module

/-- The section that a module has of a kind is of this kind. -/
theorem id_of_section?_eq_some
    {module : Module}
    {id : SectionId}
    {content : Section}
    (present : module.section? id = some content) :
    content.id = id := by
  cases id with
  | custom => cases present
  | _ =>
      obtain ⟨entries, -, rfl⟩ := Option.map_eq_some_iff.mp present
      rfl

/-- A section that is added takes the place of its kind and no other. -/
theorem section?_add (module : Module) (content : Section) (id : SectionId) :
    (module.add content).section? id =
      if content.id = id then some content else module.section? id := by
  cases content <;> cases id <;> rfl

@[simp] theorem magic_add (module : Module) (content : Section) :
    (module.add content).magic = module.magic := by
  cases content <;> rfl

@[simp] theorem version_add (module : Module) (content : Section) :
    (module.add content).version = module.version := by
  cases content <;> rfl

/-- A module has nothing but its header and its sections. -/
theorem ext_section?
    {module other : Module}
    (sameMagic : module.magic = other.magic)
    (sameVersion : module.version = other.version)
    (sameSections : ∀ id, module.section? id = other.section? id) :
    module = other := by
  have injective {β : Type} {make : β → Section}
      (makeInjective : ∀ first second, make first = make second → first = second)
      {first second : Option β} (same : first.map make = second.map make) : first = second :=
    Option.map_injective (fun first second => makeInjective first second) same
  have sameTypes := injective (fun _ _ => Section.types.inj) (sameSections .types)
  have sameImports := injective (fun _ _ => Section.imports.inj) (sameSections .imports)
  have sameFunctions := injective (fun _ _ => Section.functions.inj) (sameSections .functions)
  have sameTables := injective (fun _ _ => Section.tables.inj) (sameSections .tables)
  have sameMemories := injective (fun _ _ => Section.memories.inj) (sameSections .memories)
  have sameGlobals := injective (fun _ _ => Section.globals.inj) (sameSections .globals)
  have sameExports := injective (fun _ _ => Section.exports.inj) (sameSections .exports)
  have sameStart := injective (fun _ _ => Section.start.inj) (sameSections .start)
  have sameElements := injective (fun _ _ => Section.elements.inj) (sameSections .elements)
  have sameCode := injective (fun _ _ => Section.code.inj) (sameSections .code)
  have sameData := injective (fun _ _ => Section.data.inj) (sameSections .data)
  cases module
  cases other
  simp only at *
  subst sameMagic sameVersion sameTypes sameImports sameFunctions sameTables sameMemories
    sameGlobals sameExports sameStart sameElements sameCode sameData
  rfl

/-- The sections of a module are those that it has of any kind. -/
theorem mem_sections_iff (module : Module) (content : Section) :
    content ∈ module.sections ↔ module.section? content.id = some content := by
  simp only [sections, List.mem_filterMap]
  constructor
  · rintro ⟨id, -, present⟩
    rwa [id_of_section?_eq_some present]
  · intro present
    refine ⟨content.id, ?_, present⟩
    cases content.id <;> decide

/-- The sections of a module are listed in the order of their numbers. -/
theorem sections_ordered (module : Module) : module.sections.Pairwise Section.Precedes := by
  have ordered :
      SectionId.all.Pairwise fun id other => id.number.toNat < other.number.toNat := by
    decide
  apply ordered.filterMap
  intro id other precedes content present otherContent otherPresent
  rw [Section.Precedes, id_of_section?_eq_some present, id_of_section?_eq_some otherPresent]
  exact precedes

/-- Adding sections of other kinds leaves a kind as it was. -/
theorem section?_foldl_of_notMem
    {contents : List Section}
    {id : SectionId}
    (absent : ∀ content ∈ contents, content.id ≠ id)
    (module : Module) :
    (contents.foldl add module).section? id = module.section? id := by
  induction contents generalizing module with
  | nil => rfl
  | cons content contents inductionHypothesis =>
      obtain ⟨notThis, notLater⟩ := List.forall_mem_cons.mp absent
      rw [List.foldl_cons, inductionHypothesis notLater, section?_add, if_neg notThis]

/-- Of ordered sections, none is overwritten by a later one. -/
theorem section?_foldl_of_mem
    {contents : List Section}
    {content : Section}
    (ordered : contents.Pairwise Section.Precedes)
    (among : content ∈ contents)
    (module : Module) :
    (contents.foldl add module).section? content.id = some content := by
  induction contents generalizing module with
  | nil => simp at among
  | cons first contents inductionHypothesis =>
      obtain ⟨firstPrecedes, ordered⟩ := List.pairwise_cons.mp ordered
      obtain rfl | among := List.mem_cons.mp among
      · have absent (other : Section) (among : other ∈ contents) : other.id ≠ content.id := by
          intro same
          have precedes : content.id.number.toNat < other.id.number.toNat :=
            firstPrecedes other among
          rw [same] at precedes
          exact Nat.lt_irrefl _ precedes
        rw [List.foldl_cons, section?_foldl_of_notMem absent, section?_add, if_pos rfl]
      · exact inductionHypothesis ordered among _

/-- The module with a header and no sections. -/
def bare (magic : String) (version : UInt32) : Module := { magic, version }

theorem section?_bare (magic : String) (version : UInt32) (id : SectionId) :
    (bare magic version).section? id = none := by
  cases id <;> rfl

/-- The sections of a module that is made of ordered sections are these. -/
theorem sections_foldl
    {contents : List Section}
    (ordered : contents.Pairwise Section.Precedes)
    (magic : String)
    (version : UInt32) :
    (contents.foldl add (bare magic version)).sections = contents := by
  apply List.Pairwise.eq_of_mem_iff (sections_ordered _) ordered
  intro content
  rw [mem_sections_iff]
  constructor
  · intro present
    by_cases shared : ∃ other ∈ contents, other.id = content.id
    · obtain ⟨other, among, sameId⟩ := shared
      have found := section?_foldl_of_mem ordered among (bare magic version)
      rw [sameId, present, Option.some.injEq] at found
      rwa [found]
    · have absent (other : Section) (among : other ∈ contents) : other.id ≠ content.id :=
        fun same => shared ⟨other, among, same⟩
      rw [section?_foldl_of_notMem absent, section?_bare] at present
      cases present
  · intro among
    exact section?_foldl_of_mem ordered among _

@[simp] theorem magic_foldl (contents : List Section) (module : Module) :
    (contents.foldl add module).magic = module.magic := by
  induction contents generalizing module with
  | nil => rfl
  | cons content contents inductionHypothesis =>
      rw [List.foldl_cons, inductionHypothesis, magic_add]

@[simp] theorem version_foldl (contents : List Section) (module : Module) :
    (contents.foldl add module).version = module.version := by
  induction contents generalizing module with
  | nil => rfl
  | cons content contents inductionHypothesis =>
      rw [List.foldl_cons, inductionHypothesis, version_add]

/-- A module is made of its sections. -/
theorem foldl_sections (module : Module) :
    module.sections.foldl add (bare module.magic module.version) = module := by
  refine ext_section? (magic_foldl _ _) (version_foldl _ _) fun id => ?_
  cases present : module.section? id with
  | some content =>
      have sameId := id_of_section?_eq_some present
      subst sameId
      exact section?_foldl_of_mem module.sections_ordered
        ((mem_sections_iff module content).mpr present) _
  | none =>
      rw [section?_foldl_of_notMem, section?_bare]
      intro content among sameId
      rw [mem_sections_iff, sameId, present] at among
      cases among

end Module

/-! ## Validity depends on counts -/

section Counts

variable {module other : Module}

/-- The validity of an import depends on the number of types alone. -/
theorem ImportDesc.Valid.of_counts
    {desc : ImportDesc}
    (valid : desc.Valid module)
    (sameTypes : module.numTypes = other.numTypes) :
    desc.Valid other := by
  cases desc with
  | func index => exact lt_of_lt_of_eq valid sameTypes
  | table type => trivial
  | memory type => trivial
  | global type => exact valid

/-- The validity of an export depends on the sizes of the index spaces alone. -/
theorem ExportDesc.Valid.of_counts
    {desc : ExportDesc}
    (valid : desc.Valid module)
    (sameFunctions : module.numFunctions = other.numFunctions)
    (sameTables : module.numTables = other.numTables)
    (sameMemories : module.numMemories = other.numMemories)
    (sameGlobals : module.numGlobals = other.numGlobals) :
    desc.Valid other := by
  cases desc with
  | func index => exact lt_of_lt_of_eq valid sameFunctions
  | table index => exact lt_of_lt_of_eq valid sameTables
  | memory index => exact lt_of_lt_of_eq valid sameMemories
  | global index => exact lt_of_lt_of_eq valid sameGlobals

/-- The signature of an exported function is looked up in the types alone. -/
theorem ExportDesc.Typed.of_types
    {desc : ExportDesc}
    (typed : desc.Typed module)
    (sameTypes : module.types = other.types) :
    desc.Typed other := by
  cases desc with
  | func index =>
      have hasTypes : module.types.isSome = true := typed
      rwa [sameTypes] at hasTypes
  | table index => trivial
  | memory index => trivial
  | global index => trivial

/-- The validity of a global depends on the number of imported globals alone. -/
theorem Global.Valid.of_counts
    {global : Global}
    (valid : global.Valid module)
    (sameImported : module.importedGlobals = other.importedGlobals) :
    global.Valid other :=
  ⟨valid.1, sameImported ▸ valid.2⟩

theorem ElementSegment.Valid.of_counts
    {segment : ElementSegment}
    (valid : segment.Valid module)
    (sameImported : module.importedGlobals = other.importedGlobals)
    (sameFunctions : module.numFunctions = other.numFunctions) :
    segment.Valid other :=
  ⟨valid.table, sameImported ▸ valid.offset, sameFunctions ▸ valid.functions⟩

theorem DataSegment.Valid.of_counts
    {segment : DataSegment}
    (valid : segment.Valid module)
    (sameImported : module.importedGlobals = other.importedGlobals) :
    segment.Valid other :=
  ⟨valid.memory, sameImported ▸ valid.offset⟩

end Counts

/-- Two modules have the same sections before those of some kind. -/
def Module.AgreeBelow (id : SectionId) (module other : Module) : Prop :=
  ∀ earlier : SectionId, earlier.number.toNat < id.number.toNat →
    module.section? earlier = other.section? earlier

namespace Module.AgreeBelow

variable {id : SectionId} {module other : Module}

/-- That two modules agree below a kind goes both ways. -/
theorem symm (agree : AgreeBelow id module other) : AgreeBelow id other module :=
  fun earlier precedes => (agree earlier precedes).symm

/-- Modules that agree below a later kind have the same types. The lemmas that follow
say so of each other kind and of the counts that are made of them. -/
theorem types
    (agree : AgreeBelow id module other)
    (later : SectionId.types.number.toNat < id.number.toNat) :
    module.types = other.types :=
  Option.map_injective (fun _ _ => Section.types.inj) (agree .types later)

theorem imports
    (agree : AgreeBelow id module other)
    (later : SectionId.imports.number.toNat < id.number.toNat) :
    module.imports = other.imports :=
  Option.map_injective (fun _ _ => Section.imports.inj) (agree .imports later)

theorem functions
    (agree : AgreeBelow id module other)
    (later : SectionId.functions.number.toNat < id.number.toNat) :
    module.functions = other.functions :=
  Option.map_injective (fun _ _ => Section.functions.inj) (agree .functions later)

theorem tables
    (agree : AgreeBelow id module other)
    (later : SectionId.tables.number.toNat < id.number.toNat) :
    module.tables = other.tables :=
  Option.map_injective (fun _ _ => Section.tables.inj) (agree .tables later)

theorem memories
    (agree : AgreeBelow id module other)
    (later : SectionId.memories.number.toNat < id.number.toNat) :
    module.memories = other.memories :=
  Option.map_injective (fun _ _ => Section.memories.inj) (agree .memories later)

theorem globals
    (agree : AgreeBelow id module other)
    (later : SectionId.globals.number.toNat < id.number.toNat) :
    module.globals = other.globals :=
  Option.map_injective (fun _ _ => Section.globals.inj) (agree .globals later)

theorem numTypes
    (agree : AgreeBelow id module other)
    (later : SectionId.types.number.toNat < id.number.toNat) :
    module.numTypes = other.numTypes := by
  simp only [Module.numTypes, agree.types later]

theorem importedGlobals
    (agree : AgreeBelow id module other)
    (later : SectionId.imports.number.toNat < id.number.toNat) :
    module.importedGlobals = other.importedGlobals := by
  simp only [Module.importedGlobals, importCount, agree.imports later]

theorem importedFunctions
    (agree : AgreeBelow id module other)
    (later : SectionId.imports.number.toNat < id.number.toNat) :
    module.importedFunctions = other.importedFunctions := by
  simp only [Module.importedFunctions, importCount, agree.imports later]

theorem numFunctions
    (agree : AgreeBelow id module other)
    (later : SectionId.functions.number.toNat < id.number.toNat) :
    module.numFunctions = other.numFunctions := by
  simp only [Module.numFunctions, agree.importedFunctions (Nat.lt_trans (by decide) later),
    agree.functions later]

theorem numTables
    (agree : AgreeBelow id module other)
    (later : SectionId.tables.number.toNat < id.number.toNat) :
    module.numTables = other.numTables := by
  simp only [Module.numTables, importedTables, importCount,
    agree.imports (Nat.lt_trans (by decide) later), agree.tables later]

theorem numMemories
    (agree : AgreeBelow id module other)
    (later : SectionId.memories.number.toNat < id.number.toNat) :
    module.numMemories = other.numMemories := by
  simp only [Module.numMemories, importedMemories, importCount,
    agree.imports (Nat.lt_trans (by decide) later), agree.memories later]

theorem numGlobals
    (agree : AgreeBelow id module other)
    (later : SectionId.globals.number.toNat < id.number.toNat) :
    module.numGlobals = other.numGlobals := by
  simp only [Module.numGlobals, agree.importedGlobals (Nat.lt_trans (by decide) later),
    agree.globals later]

theorem indexSpace
    (agree : AgreeBelow id module other)
    (later : SectionId.globals.number.toNat < id.number.toNat) :
    module.indexSpace = other.indexSpace := by
  simp only [Module.indexSpace, agree.numTypes (Nat.lt_trans (by decide) later),
    agree.numFunctions (Nat.lt_trans (by decide) later), agree.numGlobals later]

end Module.AgreeBelow

/-- A section refers to nothing but the sections before it. -/
theorem Section.Valid.of_agreeBelow
    {content : Section}
    {module other : Module}
    (valid : content.Valid module)
    (agree : Module.AgreeBelow content.id module other) :
    content.Valid other := by
  cases content with
  | types entries => exact valid
  | imports entries =>
      have agree : Module.AgreeBelow .imports module other := agree
      exact fun item among => (valid item among).of_counts (agree.numTypes (by decide))
  | functions typeIndices =>
      have agree : Module.AgreeBelow .functions module other := agree
      exact fun index among => lt_of_lt_of_eq (valid index among) (agree.numTypes (by decide))
  | tables entries => trivial
  | memories entries => trivial
  | globals entries =>
      have agree : Module.AgreeBelow .globals module other := agree
      exact fun global among => (valid global among).of_counts (agree.importedGlobals (by decide))
  | exports entries =>
      have agree : Module.AgreeBelow .exports module other := agree
      intro item among
      obtain ⟨typed, inRange⟩ := valid item among
      constructor
      · exact typed.of_types (agree.types (by decide))
      · exact inRange.of_counts (agree.numFunctions (by decide)) (agree.numTables (by decide))
          (agree.numMemories (by decide)) (agree.numGlobals (by decide))
  | start index =>
      have agree : Module.AgreeBelow .start module other := agree
      exact lt_of_lt_of_eq valid (agree.numFunctions (by decide))
  | elements entries =>
      have agree : Module.AgreeBelow .elements module other := agree
      exact fun segment among => (valid segment among).of_counts
        (agree.importedGlobals (by decide)) (agree.numFunctions (by decide))
  | code entries =>
      have agree : Module.AgreeBelow .code module other := agree
      obtain ⟨types, typeIndices, hasTypes, hasFunctions, allValid⟩ := valid
      rw [agree.types (by decide)] at hasTypes
      rw [agree.functions (by decide)] at hasFunctions
      refine ⟨types, typeIndices, hasTypes, hasFunctions, ?_⟩
      rwa [Func.AllValid, ← agree.indexSpace (by decide), ← agree.importedFunctions (by decide)]
  | data entries =>
      have agree : Module.AgreeBelow .data module other := agree
      exact fun segment among => (valid segment among).of_counts (agree.importedGlobals (by decide))

/-! ## Counting types -/

/-- What is written in layouts one after another holds each of them. -/
theorem Layout.Written.of_mem_all
    {layouts : List Layout}
    {layout : Layout}
    {list : List UInt8}
    (written : (Layout.all layouts).Written list)
    (among : layout ∈ layouts) :
    ∃ part, layout.Written part := by
  induction layouts generalizing list with
  | nil => simp at among
  | cons first rest inductionHypothesis =>
      obtain ⟨head, tail, rfl, firstWritten, restWritten⟩ :=
        (Layout.written_append _ _ _).mp written
      obtain rfl | among := List.mem_cons.mp among
      · exact ⟨head, firstWritten⟩
      · exact inductionHypothesis restWritten among

/-- The count of parameters is written in 32 bits. -/
theorem FuncType.params_lt_of_written
    {type : FuncType}
    {list : List UInt8}
    (written : type.layout.Written list) :
    type.params.length < 2 ^ 32 := by
  obtain ⟨-, content⟩ := (Layout.written_measured _ _ _).mp written
  obtain ⟨_, _, -, -, rest⟩ := (Layout.written_append _ _ _).mp content
  obtain ⟨_, _, -, params, -⟩ := (Layout.written_append _ _ _).mp rest
  obtain ⟨_, _, -, count, -⟩ := (Layout.written_append _ _ _).mp params
  simpa using count.natural_lt

namespace Module

theorem countable_bare (magic : String) (version : UInt32) : (bare magic version).Countable where
  types := by simp [bare]
  params := by simp [bare]

/-- A section keeps types countable, whichever raw section it is read from. -/
theorem Countable.add
    {module : Module}
    (countable : module.Countable)
    {raw : RawSection}
    {content : Section}
    (carries : raw.Carries content) :
    (module.add content).Countable := by
  cases content with
  | types entries =>
      refine ⟨?_, fun type among => ?_⟩
      · have sameCount : entries.length = raw.count.toNat := carries.sameCount
        simpa [Module.add, sameCount] using raw.count.toNat_lt
      · have written : (Layout.all (entries.map FuncType.layout)).Written raw.payload.unread :=
          carries.written
        obtain ⟨part, partWritten⟩ := written.of_mem_all (List.mem_map_of_mem among)
        exact FuncType.params_lt_of_written partWritten
  | _ => exact ⟨countable.types, countable.params⟩

/-! ## Decoding sections one after another -/

/-- A module is extended exactly by a section that the raw one carries and that is valid
in the module. -/
theorem extend_eq_ok_iff
    {module : Module}
    (countable : module.Countable)
    (raw : RawSection)
    (extended : Module) :
    module.extend raw = .ok extended ↔
      ∃ content, raw.Carries content ∧ content.Valid module ∧ module.add content = extended := by
  have contentFor (content : Section) := raw.contentFor_eq_ok_iff countable content
  unfold extend
  constructor
  · intro succeeded
    split at succeeded
    · rename_i content outcome
      obtain ⟨sameId, sameCount, valid, written⟩ := (contentFor content).mp outcome
      cases succeeded
      exact ⟨content, ⟨sameId, sameCount, written⟩, valid, rfl⟩
    · cases succeeded
  · rintro ⟨content, ⟨sameId, sameCount, written⟩, valid, rfl⟩
    rw [(contentFor content).mpr ⟨sameId, sameCount, valid, written⟩]

/-- Raw sections are of the kinds of the sections that they carry. -/
theorem ids_eq_of_carries
    {raws : List RawSection}
    {contents : List Section}
    (carry : List.Forall₂ RawSection.Carries raws contents) :
    contents.map Section.id = raws.map RawSection.id := by
  induction carry with
  | nil => rfl
  | cons carries _ inductionHypothesis =>
      rw [List.map_cons, List.map_cons, carries.sameId, inductionHypothesis]

/-- Sections are in order if the raw sections that carry them are. -/
theorem ordered_iff_of_carries
    {raws : List RawSection}
    {contents : List Section}
    (carry : List.Forall₂ RawSection.Carries raws contents) :
    contents.Pairwise Section.Precedes ↔ raws.Pairwise RawSection.Precedes := by
  rw [Section.ordered_iff, ids_eq_of_carries carry, List.pairwise_map]
  rfl

/-- Sections of later kinds change nothing below a kind. -/
theorem agreeBelow_foldl
    {contents : List Section}
    {id : SectionId}
    (notEarlier : ∀ content ∈ contents, id.number.toNat ≤ content.id.number.toNat)
    (module : Module) :
    AgreeBelow id module (contents.foldl add module) := by
  intro earlier precedes
  refine (section?_foldl_of_notMem (fun content among same => ?_) module).symm
  have notBelow := notEarlier content among
  rw [same] at notBelow
  omega

/-- A section in front of others is followed by later sections only. -/
theorem agreeBelow_foldl_cons
    {content : Section}
    {contents : List Section}
    (ordered : (content :: contents).Pairwise Section.Precedes)
    (module : Module) :
    AgreeBelow content.id module ((content :: contents).foldl add module) := by
  refine agreeBelow_foldl (List.forall_mem_cons.mpr ⟨le_rfl, fun other among => ?_⟩) module
  exact Nat.le_of_lt (List.rel_of_pairwise_cons ordered among)

/-- Raw sections in order are decoded exactly if they carry sections that are
valid in the module they make. -/
theorem foldlM_extend_eq_ok_iff
    {raws : List RawSection}
    (ordered : raws.Pairwise RawSection.Precedes)
    {start : Module}
    (countable : start.Countable)
    (module : Module) :
    raws.foldlM extend start = .ok module ↔
      ∃ contents, List.Forall₂ RawSection.Carries raws contents ∧
        contents.foldl add start = module ∧ ∀ content ∈ contents, content.Valid module := by
  induction raws generalizing start with
  | nil =>
      simp only [List.foldlM_nil, List.forall₂_nil_left_iff, exists_eq_left, List.foldl_nil,
        List.not_mem_nil, false_implies, implies_true, and_true]
      exact Except.ok.injEq start module ▸ Iff.rfl
  | cons raw raws inductionHypothesis =>
      have restOrdered := ordered.of_cons
      simp only [List.foldlM_cons, Except.bind_eq_ok_iff, extend_eq_ok_iff countable]
      constructor
      · rintro ⟨_, ⟨content, carries, valid, rfl⟩, rest⟩
        obtain ⟨contents, carry, rfl, allValid⟩ :=
          (inductionHypothesis restOrdered (countable.add carries)).mp rest
        have allCarry := List.Forall₂.cons carries carry
        -- What the first section was checked against is not touched by the later ones.
        have agree := agreeBelow_foldl_cons ((ordered_iff_of_carries allCarry).mpr ordered) start
        exact ⟨content :: contents, allCarry, rfl,
          List.forall_mem_cons.mpr ⟨valid.of_agreeBelow agree, allValid⟩⟩
      · rintro ⟨_, allCarry, rfl, allValid⟩
        cases allCarry with
        | @cons _ content _ contents carries carry =>
            have agree := agreeBelow_foldl_cons
              ((ordered_iff_of_carries (.cons carries carry)).mpr ordered) start
            obtain ⟨valid, restValid⟩ := List.forall_mem_cons.mp allValid
            exact ⟨start.add content, ⟨content, carries, valid.of_agreeBelow agree.symm, rfl⟩,
              (inductionHypothesis restOrdered (countable.add carries)).mpr
                ⟨contents, carry, rfl, restValid⟩⟩

/-! ## Sections added one by one

An assembly goes on behind a section that cannot be decoded. It reports as far as the
decoder gets what the decoder does, and a failure leaves no trace but its report. -/

/-- The module behind the last of some reports on a module. -/
def behind (module : Module) (reports : List (Except Failure Section × Module)) : Module :=
  (reports.getLast?.map Prod.snd).getD module

/-- The module behind some reports is found by following them one by one. -/
theorem behind_cons
    (module : Module)
    (report : Except Failure Section × Module)
    (reports : List (Except Failure Section × Module)) :
    module.behind (report :: reports) = report.2.behind reports := by
  rw [behind, behind, List.getLast?_cons, Option.map_some, Option.getD_some]
  cases reports.getLast? <;> rfl

/-- Reports are followed in parts. -/
theorem behind_append
    (module : Module)
    (reports others : List (Except Failure Section × Module)) :
    module.behind (reports ++ others) = (module.behind reports).behind others := by
  induction reports generalizing module with
  | nil => rfl
  | cons report reports inductionHypothesis =>
      rw [List.cons_append, behind_cons, behind_cons, inductionHypothesis]

/-- No report is a failure. -/
def AllDecoded (reports : List (Except Failure Section × Module)) : Prop :=
  ∀ report ∈ reports, ∃ content, report.1 = .ok content

/-- An assembly goes on with the module that it has reached. -/
theorem assemble_append (module : Module) (raws others : List RawSection) :
    module.assemble (raws ++ others) =
      module.assemble raws ++ (module.behind (module.assemble raws)).assemble others := by
  induction raws generalizing module with
  | nil => rfl
  | cons raw raws inductionHypothesis =>
      rw [List.cons_append, assemble, assemble]
      cases raw.contentFor module with
      | ok content =>
          simp only [behind_cons, List.cons_append, inductionHypothesis]
      | error failure =>
          simp only [behind_cons, List.cons_append, inductionHypothesis]

/-- The decoder adds all sections exactly if none is reported as a failure, and then
makes the module behind the last report. -/
theorem foldlM_extend_eq_ok_iff_allDecoded (raws : List RawSection) (start module : Module) :
    raws.foldlM extend start = .ok module ↔
      AllDecoded (start.assemble raws) ∧ start.behind (start.assemble raws) = module := by
  induction raws generalizing start with
  | nil => simp [AllDecoded, assemble, behind, pure, Except.pure]
  | cons raw raws inductionHypothesis =>
      rw [List.foldlM_cons, assemble, extend]
      cases raw.contentFor start with
      | ok content =>
          have decoded := inductionHypothesis (start.add content)
          simpa [AllDecoded, behind_cons, bind, Except.bind] using decoded
      | error failure => simp [AllDecoded, bind, Except.bind]

/-- The decoder fails at the first section that is reported as a failure. -/
theorem foldlM_extend_eq_error_iff (raws : List RawSection) (start : Module) (failure : Failure) :
    raws.foldlM extend start = .error failure ↔
      ∃ earlier raw later reason, raws = earlier ++ raw :: later ∧
        AllDecoded (start.assemble earlier) ∧
        raw.contentFor (start.behind (start.assemble earlier)) = .error reason ∧
        failure = reason.inContext (.decodeSection raw.id) := by
  induction raws generalizing start with
  | nil => simp [pure, Except.pure]
  | cons raw raws inductionHypothesis =>
      rw [List.foldlM_cons, extend]
      cases decoding : raw.contentFor start with
      | ok content =>
          -- A section that is added is in front of whatever fails among the others.
          refine (inductionHypothesis (start.add content)).trans ⟨?_, ?_⟩
          · rintro ⟨earlier, failing, later, reason, rfl, decoded, fails, same⟩
            refine ⟨raw :: earlier, failing, later, reason, rfl, ?_, ?_, same⟩
            · simpa [AllDecoded, assemble, decoding] using decoded
            · simpa [assemble, decoding, behind_cons] using fails
          · rintro ⟨earlier, failing, later, reason, split, decoded, fails, same⟩
            cases earlier with
            | nil =>
                obtain ⟨rfl, -⟩ := List.cons.inj split
                cases decoding.symm.trans fails
            | cons first earlier =>
                obtain ⟨rfl, rfl⟩ := List.cons.inj split
                refine ⟨earlier, failing, later, reason, rfl, ?_, ?_, same⟩
                · simpa [AllDecoded, assemble, decoding] using decoded
                · simpa [assemble, decoding, behind_cons] using fails
      | error reason =>
          constructor
          · rintro ⟨⟩
            exact ⟨[], raw, raws, reason, rfl, List.forall_mem_nil _, decoding, rfl⟩
          · rintro ⟨earlier, failing, later, other, split, decoded, fails, rfl⟩
            cases earlier with
            | nil =>
                obtain ⟨rfl, -⟩ := List.cons.inj split
                obtain rfl := Except.error.inj (decoding.symm.trans fails)
                rfl
            | cons first earlier =>
                obtain ⟨rfl, -⟩ := List.cons.inj split
                simp [AllDecoded, assemble, decoding] at decoded

/-- A section that cannot be decoded is skipped. -/
theorem behind_assemble_of_error
    {module : Module}
    {earlier : List RawSection}
    {raw : RawSection}
    {failure : Failure}
    (fails : raw.contentFor (module.behind (module.assemble earlier)) = .error failure)
    (later : List RawSection) :
    module.behind (module.assemble (earlier ++ raw :: later)) =
      module.behind (module.assemble (earlier ++ later)) := by
  rw [assemble_append, behind_append, assemble_append, behind_append, assemble, fails]
  exact behind_cons _ _ _

/-- Adding its sections to the empty module gives a module but for the header. -/
theorem foldl_sections_empty (module : Module) :
    module.sections.foldl add empty = { module with magic := "", version := 0 } :=
  foldl_sections { module with magic := "", version := 0 }

end Module

end WebAssembly
