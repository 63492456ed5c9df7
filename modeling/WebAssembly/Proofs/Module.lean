import WebAssembly.Proofs.Assembly

/-!
# Decoding a module

A module is closed if everything it refers to exists in it. The decoder accepts
closed modules only, and without custom sections it accepts exactly the bytes
that closed modules lay out.
-/

namespace WebAssembly

open Decode

namespace Module

/-- Some functions belong to the entries of the function section: each has the
index behind the imported ones, the type that its entry names, and a valid body. -/
structure Defines (module : Module) (functions : List Func) : Prop where
  typed : module.types.isSome = true
  declared : module.functions.isSome = true
  length : functions.length = (entries module.functions).length
  valid : ∀ (position : Nat) (typeIndex : UInt32) (function : Func),
    (entries module.functions)[position]? = some typeIndex →
    functions[position]? = some function →
      function.Valid module.indexSpace.bounds (entries module.types)
        (module.importedFunctions + position.toUInt32) typeIndex

/-- Every index in a module is in range there, and its functions have bodies. -/
structure Closed (module : Module) : Prop where
  types : ∀ type ∈ entries module.types, type.Valid
  imports : ∀ item ∈ entries module.imports, item.desc.Valid module
  functions : ∀ typeIndex ∈ entries module.functions, typeIndex < module.numTypes
  globals : ∀ global ∈ entries module.globals, global.Valid module
  exports : ∀ item ∈ entries module.exports, item.desc.Valid module
  start : ∀ index, module.start = some index → index < module.numFunctions
  elements : ∀ segment ∈ entries module.elements, segment.Valid module
  data : ∀ segment ∈ entries module.data, segment.Valid module
  hasCode : entries module.functions ≠ [] → module.code.isSome = true
  code : ∀ functions, module.code = some functions → module.Defines functions

/-- Functions are valid exactly if each of them is, under the type that is declared for
it. -/
theorem allValid_iff
    (module : Module)
    (types : List FuncType)
    (typeIndices : List UInt32)
    (functions : List Func) :
    Func.AllValid module types typeIndices functions ↔
      functions.length = typeIndices.length ∧
        ∀ (position : Nat) (typeIndex : UInt32) (function : Func),
          typeIndices[position]? = some typeIndex → functions[position]? = some function →
            function.Valid module.indexSpace.bounds types
              (module.importedFunctions + position.toUInt32) typeIndex := by
  rw [Func.AllValid, List.forall₂_iff_get]
  constructor
  · rintro ⟨sameLength, related⟩
    rw [List.length_zipIdx] at sameLength
    refine ⟨sameLength.symm, fun position typeIndex function indexAt functionAt => ?_⟩
    obtain ⟨indexBound, rfl⟩ := List.getElem?_eq_some_iff.mp indexAt
    obtain ⟨functionBound, rfl⟩ := List.getElem?_eq_some_iff.mp functionAt
    simpa using related position (by simpa using indexBound) functionBound
  · rintro ⟨sameLength, related⟩
    refine ⟨by rw [List.length_zipIdx, sameLength], fun position indexBound functionBound => ?_⟩
    rw [List.length_zipIdx] at indexBound
    simpa using related position _ _ (List.getElem?_eq_getElem indexBound)
      (List.getElem?_eq_getElem functionBound)

/-- The functions of a code section are valid exactly if they belong to the
function section. -/
theorem valid_code_iff (module : Module) (functions : List Func) :
    (Section.code functions).Valid module ↔ module.Defines functions := by
  constructor
  · rintro ⟨types, typeIndices, hasTypes, hasFunctions, allValid⟩
    obtain ⟨sameLength, related⟩ := (allValid_iff _ _ _ _).mp allValid
    constructor
    · rw [hasTypes, Option.isSome_some]
    · rw [hasFunctions, Option.isSome_some]
    · rw [hasFunctions, entries_some, sameLength]
    · rw [hasFunctions, hasTypes, entries_some, entries_some]
      exact related
  · intro defines
    obtain ⟨types, hasTypes⟩ := Option.isSome_iff_exists.mp defines.typed
    obtain ⟨typeIndices, hasFunctions⟩ := Option.isSome_iff_exists.mp defines.declared
    have sameLength := defines.length
    have related := defines.valid
    rw [hasFunctions, entries_some] at sameLength related
    rw [hasTypes, entries_some] at related
    exact ⟨types, typeIndices, hasTypes, hasFunctions,
      (allValid_iff _ _ _ _).mpr ⟨sameLength, related⟩⟩

namespace Closed

variable {module : Module}

/-- A function of a closed module has a type. -/
theorem isSome_types_of_lt
    (closed : module.Closed)
    {index : UInt32}
    (below : index < module.numFunctions) :
    module.types.isSome = true := by
  by_cases declared : ∃ typeIndex, typeIndex ∈ entries module.functions
  · obtain ⟨typeIndex, among⟩ := declared
    exact Module.isSome_types_of_lt (closed.functions typeIndex among)
  by_cases imported : ∃ item ∈ entries module.imports, item.desc.isFunc = true
  · obtain ⟨item, among, isFunc⟩ := imported
    have valid := closed.imports item among
    cases desc : item.desc with
    | func typeIndex =>
        rw [desc] at valid
        exact Module.isSome_types_of_lt valid
    | table type => simp [desc, ImportDesc.isFunc] at isFunc
    | memory type => simp [desc, ImportDesc.isFunc] at isFunc
    | global type => simp [desc, ImportDesc.isFunc] at isFunc
  have noneDeclared : entries module.functions = [] :=
    List.eq_nil_iff_forall_not_mem.mpr fun typeIndex among => declared ⟨typeIndex, among⟩
  have noneImported : ((entries module.imports).countP fun item => item.desc.isFunc) = 0 :=
    List.countP_eq_zero.mpr fun item among isFunc => imported ⟨item, among, isFunc⟩
  have noFunctions : module.numFunctions = 0 := by
    simp [numFunctions, importedFunctions, importCount, noneDeclared, noneImported]
  simp [noFunctions] at below

/-- A function in a closed module is valid for an entry of the function section. -/
theorem valid_of_mem_code
    (closed : module.Closed)
    {function : Func}
    (among : function ∈ entries module.code) :
    ∃ position, ∃ declared : position < (entries module.functions).length,
      function.Valid module.indexSpace.bounds (entries module.types)
        (module.importedFunctions + position.toUInt32) (entries module.functions)[position] := by
  obtain ⟨functions, present⟩ := Option.isSome_iff_exists.mp (isSome_of_mem_entries among)
  have defines := closed.code functions present
  rw [present, entries_some] at among
  obtain ⟨position, inRange, rfl⟩ := List.getElem_of_mem among
  have declared : position < (entries module.functions).length := defines.length ▸ inRange
  exact ⟨position, declared, defines.valid position _ _ (List.getElem?_eq_getElem declared)
    (List.getElem?_eq_getElem inRange)⟩

/-- Whatever is exported by a closed module has a type. -/
theorem typed_of_mem_exports
    (closed : module.Closed)
    {item : Export}
    (among : item ∈ entries module.exports) :
    item.desc.Typed module := by
  have valid := closed.exports item among
  cases desc : item.desc with
  | func index =>
      rw [desc] at valid
      exact closed.isSome_types_of_lt valid
  | table index => trivial
  | memory index => trivial
  | global index => trivial

end Closed

theorem entries_eq_of_map_eq_some
    {list : Option (List α)}
    {make : List α → Section}
    (injective : ∀ first second, make first = make second → first = second)
    {items : List α}
    (present : list.map make = some (make items)) :
    entries list = items := by
  obtain ⟨_, rfl, same⟩ := Option.map_eq_some_iff.mp present
  exact injective _ _ same

/-- A module lacks its code only if it declares a function. -/
theorem lacksCode_eq_false_iff (module : Module) :
    module.lacksCode = false ↔ (entries module.functions ≠ [] → module.code.isSome = true) := by
  cases present : module.code <;> simp [lacksCode, present]

/-- The sections of a closed module are valid in it. -/
theorem Closed.valid_of_mem_sections
    {module : Module}
    (closed : module.Closed)
    {content : Section}
    (among : content ∈ module.sections) :
    content.Valid module := by
  have present := (mem_sections_iff module content).mp among
  cases content with
  | types items =>
      have same := entries_eq_of_map_eq_some (fun _ _ => Section.types.inj) present
      exact same ▸ closed.types
  | imports items =>
      have same := entries_eq_of_map_eq_some (fun _ _ => Section.imports.inj) present
      exact same ▸ closed.imports
  | functions items =>
      have same := entries_eq_of_map_eq_some (fun _ _ => Section.functions.inj) present
      exact same ▸ closed.functions
  | tables items => trivial
  | memories items => trivial
  | globals items =>
      have same := entries_eq_of_map_eq_some (fun _ _ => Section.globals.inj) present
      exact same ▸ closed.globals
  | exports items =>
      have same := entries_eq_of_map_eq_some (fun _ _ => Section.exports.inj) present
      subst same
      exact fun item among => ⟨closed.typed_of_mem_exports among, closed.exports item among⟩
  | start index =>
      obtain ⟨_, present, same⟩ := Option.map_eq_some_iff.mp present
      cases same
      exact closed.start index present
  | elements items =>
      have same := entries_eq_of_map_eq_some (fun _ _ => Section.elements.inj) present
      exact same ▸ closed.elements
  | code functions =>
      obtain ⟨_, present, same⟩ := Option.map_eq_some_iff.mp present
      cases same
      exact (valid_code_iff _ _).mpr (closed.code functions present)
  | data items =>
      have same := entries_eq_of_map_eq_some (fun _ _ => Section.data.inj) present
      exact same ▸ closed.data

/-- The entries of a section satisfy what its validity demands of them. -/
theorem forall_mem_entries
    {list : Option (List α)}
    {holds : α → Prop}
    (valid : ∀ items, list = some items → ∀ item ∈ items, holds item) :
    ∀ item ∈ entries list, holds item := by
  intro item among
  obtain ⟨items, present⟩ := Option.isSome_iff_exists.mp (isSome_of_mem_entries among)
  rw [present, entries_some] at among
  exact valid items present item among

/-- A module is closed if its sections are valid in it and no body is missing. -/
theorem closed_iff (module : Module) :
    module.Closed ↔
      (∀ content ∈ module.sections, content.Valid module) ∧ module.lacksCode = false := by
  rw [lacksCode_eq_false_iff]
  constructor
  · intro closed
    exact ⟨fun content among => closed.valid_of_mem_sections among, closed.hasCode⟩
  · rintro ⟨valid, hasCode⟩
    have validOf (content : Section) (present : module.section? content.id = some content) :
        content.Valid module :=
      valid content ((mem_sections_iff _ _).mpr present)
    exact {
      types := forall_mem_entries fun items present =>
        validOf (.types items) (by simp [Section.id, section?, present])
      imports := forall_mem_entries fun items present =>
        validOf (.imports items) (by simp [Section.id, section?, present])
      functions := forall_mem_entries fun items present =>
        validOf (.functions items) (by simp [Section.id, section?, present])
      globals := forall_mem_entries fun items present =>
        validOf (.globals items) (by simp [Section.id, section?, present])
      exports := forall_mem_entries fun items present item among =>
        (validOf (.exports items) (by simp [Section.id, section?, present]) item among).2
      start := fun index present =>
        validOf (.start index) (by simp [Section.id, section?, present])
      elements := forall_mem_entries fun items present =>
        validOf (.elements items) (by simp [Section.id, section?, present])
      data := forall_mem_entries fun items present =>
        validOf (.data items) (by simp [Section.id, section?, present])
      hasCode := hasCode
      code := fun functions present => (valid_code_iff _ _).mp
        (validOf (.code functions) (by simp [Section.id, section?, present])) }

/-! ## Decoding -/

/-- Decoding a frame begins with the bare module of its header. -/
theorem ofFrame_eq (frame : Frame) :
    ofFrame frame =
      (do
        let made ← frame.sections.foldlM extend (bare frame.header.magic frame.header.version)
        if made.lacksCode then throw (.ofCause .missingCodeSection) else pure made) :=
  rfl

/-- A module is not extended by a section whose entries cannot be decoded. -/
theorem extend_eq_error_iff (module : Module) (raw : RawSection) (failure : Failure) :
    module.extend raw = .error failure ↔
      ∃ inner, raw.contentFor module = .error inner ∧
        failure = inner.inContext (.decodeSection raw.id) := by
  unfold extend
  cases raw.contentFor module <;> simp [eq_comm]

/-- Where sections cannot all be decoded, there is a first one that cannot. -/
theorem exists_of_foldlM_error
    {raws : List RawSection}
    {module : Module}
    {failure : Failure}
    (failed : raws.foldlM extend module = .error failure) :
    ∃ earlier raw later context, raws = earlier ++ raw :: later ∧
      earlier.foldlM extend module = .ok context ∧ context.extend raw = .error failure := by
  induction raws generalizing module with
  | nil => cases failed
  | cons raw raws inductionHypothesis =>
      rw [List.foldlM_cons] at failed
      cases extended : module.extend raw with
      | error other =>
          rw [extended] at failed
          cases failed
          exact ⟨[], raw, raws, module, rfl, rfl, extended⟩
      | ok next =>
          rw [extended] at failed
          obtain ⟨earlier, other, later, context, rfl, decoded, otherFailed⟩ :=
            inductionHypothesis failed
          refine ⟨raw :: earlier, other, later, context, rfl, ?_, otherFailed⟩
          rw [List.foldlM_cons, extended]
          exact decoded

/-- Behind all sections it remains to see whether there is code. -/
theorem ofFrame_of_foldlM
    {frame : Frame}
    {module : Module}
    (folded : frame.sections.foldlM extend (bare frame.header.magic frame.header.version) =
      .ok module) :
    ofFrame frame =
      if module.lacksCode then .error (.ofCause .missingCodeSection) else .ok module := by
  rw [ofFrame_eq, folded]
  rfl

/-- A section that fails is the failure of the frame. -/
theorem ofFrame_of_foldlM_error
    {frame : Frame}
    {failure : Failure}
    (failed : frame.sections.foldlM extend (bare frame.header.magic frame.header.version) =
      .error failure) :
    ofFrame frame = .error failure := by
  rw [ofFrame_eq, failed]
  rfl

theorem ofBytes_of_frame_error
    {format : HeaderFormat}
    {input : List UInt8}
    {failure : Failure}
    (failed : Frame.ofBytes format input = .error failure) :
    ofBytes format input = .error failure := by
  rw [ofBytes, failed]
  rfl

/-- A frame is decoded exactly if all its sections are and there is code. -/
theorem ofFrame_eq_ok_iff (frame : Frame) (module : Module) :
    ofFrame frame = .ok module ↔
      frame.sections.foldlM extend (bare frame.header.magic frame.header.version) = .ok module ∧
        module.lacksCode = false := by
  have checked (made : Module) :
      (if made.lacksCode then throw (.ofCause .missingCodeSection) else pure made :
        Except Failure Module) = .ok module ↔ made = module ∧ module.lacksCode = false := by
    by_cases lacking : made.lacksCode = true
    · rw [if_pos lacking]
      constructor
      · intro failed
        cases failed
      · rintro ⟨rfl, present⟩
        rw [lacking] at present
        cases present
    · rw [if_neg lacking]
      constructor
      · intro succeeded
        cases succeeded
        exact ⟨rfl, by simpa using lacking⟩
      · rintro ⟨rfl, -⟩
        rfl
  rw [ofFrame_eq, Except.bind_eq_ok_iff]
  simp only [checked]
  constructor
  · rintro ⟨_, folded, rfl, present⟩
    exact ⟨folded, present⟩
  · rintro ⟨folded, present⟩
    exact ⟨module, folded, rfl, present⟩

/-- A binary is decoded to the closed module whose sections its chain carries,
custom sections apart. -/
theorem ofBytes_eq_ok_iff (format : HeaderFormat) (input : List UInt8) (module : Module) :
    ofBytes format input = .ok module ↔
      ∃ behind parts,
        (Reader.ofBytes input).Passes (Header.magicBytes ++ Header.versionBytes) behind ∧
        Chain format behind parts ∧
        List.Forall₂ RawSection.Carries (Frame.kept parts) module.sections ∧
        module.magic = Header.standard.magic ∧ module.version = Header.standard.version ∧
        module.Closed := by
  simp only [ofBytes, Except.bind_eq_ok_iff, Frame.ofBytes_eq_ok_iff, ofFrame_eq_ok_iff,
    closed_iff]
  constructor
  · rintro ⟨_, ⟨behind, parts, passes, chain, rfl, ordered⟩, folded, present⟩
    obtain ⟨contents, carry, rfl, valid⟩ :=
      (foldlM_extend_eq_ok_iff ordered (countable_bare _ _) module).mp folded
    have sameSections := sections_foldl ((ordered_iff_of_carries carry).mpr ordered)
      Header.standard.magic Header.standard.version
    refine ⟨behind, parts, passes, chain, ?_, magic_foldl _ _, version_foldl _ _, ?_, present⟩
    · rwa [sameSections]
    · rwa [sameSections]
  · rintro ⟨behind, parts, passes, chain, carry, sameMagic, sameVersion, valid, present⟩
    have ordered := (ordered_iff_of_carries carry).mp module.sections_ordered
    refine ⟨_, ⟨behind, parts, passes, chain, rfl, ordered⟩, ?_, present⟩
    refine (foldlM_extend_eq_ok_iff ordered (countable_bare _ _) module).mpr
      ⟨module.sections, carry, ?_, valid⟩
    rw [← sameMagic, ← sameVersion, foldl_sections]

/-- The bytes that a closed module lays out are decoded to it. -/
theorem ofBytes_of_written
    {format : HeaderFormat}
    {input : List UInt8}
    {module : Module}
    (sameMagic : module.magic = Header.standard.magic)
    (sameVersion : module.version = Header.standard.version)
    (closed : module.Closed)
    (written : (module.layout format).Written input) :
    ofBytes format input = .ok module := by
  obtain ⟨header, rest, rfl, headerWritten, restWritten⟩ :=
    (Layout.written_append _ _ _).mp written
  obtain rfl := (Layout.written_bytes _ _).mp headerWritten
  let behind : Reader := ⟨(Header.magicBytes ++ Header.versionBytes).length, rest⟩
  have spans := (Layout.spans_window_iff _ behind.position rest).mpr restWritten
  obtain ⟨parts, chain, carry⟩ := (Chain.exists_carries_iff module.sections behind).mpr spans
  refine (ofBytes_eq_ok_iff _ _ _).mpr
    ⟨behind, parts, ⟨rfl, by simp [behind]⟩, chain, ?_, sameMagic, sameVersion, closed⟩
  rwa [Frame.kept_eq_of_carries carry]

/-- What is decoded without custom sections is laid out in the input. -/
theorem written_of_ofBytes
    {format : HeaderFormat}
    {input : List UInt8}
    {module : Module}
    (noCustom : ∀ part ∈ (Scan.ofBytes format input).sections, part.1.id ≠ .custom)
    (decoded : ofBytes format input = .ok module) :
    (module.layout format).Written input := by
  obtain ⟨behind, parts, passes, chain, carry, -, -, -⟩ := (ofBytes_eq_ok_iff _ _ _).mp decoded
  rw [Scan.sections_ofBytes passes chain] at noCustom
  rw [Frame.kept_eq_map noCustom] at carry
  have spans := (Chain.exists_carries_iff _ _).mp ⟨parts, chain, carry⟩
  have written := (Layout.spans_window_iff _ behind.position behind.unread).mp spans
  obtain ⟨unread, -⟩ := passes
  exact (Layout.written_append _ _ _).mpr
    ⟨_, behind.unread, unread, (Layout.written_bytes _ _).mpr rfl, written⟩

/-- Whatever is decoded, in either header format and with custom sections or
without, is closed under its own references. -/
theorem closed_of_ofBytes
    {format : HeaderFormat}
    {input : List UInt8}
    {module : Module}
    (decoded : ofBytes format input = .ok module) :
    module.Closed := by
  obtain ⟨behind, parts, -, -, -, -, -, closed⟩ := (ofBytes_eq_ok_iff _ _ _).mp decoded
  exact closed

/-- A function that calls itself and is exported, behind a custom section. -/
theorem closed_of_recursion :
    let module : Module :=
      { magic := "\x00asm"
        version := 1
        types := some [⟨[], [], 3⟩]
        functions := some [0]
        exports := some [⟨"f", .func 0, 4⟩]
        code := some [⟨0, 0, ⟨[], [], 3⟩, ⟨4, [], [⟨.call, .functionIndex 0⟩], 5⟩⟩] }
    ofBytes .compact (Header.magicBytes ++ Header.versionBytes ++
      [0, 1, 0xFF, 1, 4, 1, 0x60, 0, 0, 3, 2, 1, 0, 7, 5, 1, 1, 0x66, 0, 0,
        10, 6, 1, 4, 0, 0x10, 0, 0x0B]) = .ok module ∧
      module.Closed := by
  intro module
  have decoded : ofBytes .compact (Header.magicBytes ++ Header.versionBytes ++
      [0, 1, 0xFF, 1, 4, 1, 0x60, 0, 0, 3, 2, 1, 0, 7, 5, 1, 1, 0x66, 0, 0,
        10, 6, 1, 4, 0, 0x10, 0, 0x0B]) = .ok module := by
    decide +kernel
  exact ⟨decoded, closed_of_ofBytes decoded⟩

end Module

end WebAssembly
