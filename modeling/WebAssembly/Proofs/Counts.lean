import WebAssembly.Proofs.Module
import WebAssembly.Proofs.Tiling

/-!
# Counts are exact

A section holds its size in 32 bits, and every entry takes up some bytes of it.
The sections of a decoded module are therefore short enough for the sizes of its
index spaces to be computed in 32 bits without loss.
-/

namespace WebAssembly

open Decode

/-! ## Sections are short -/

/-- A payload is shorter than its size field can say. -/
theorem RawSection.Tile.remaining_lt
    {format : HeaderFormat}
    {offset : Nat}
    {raw : RawSection}
    {list : List UInt8}
    (tile : Tile format offset raw list) :
    raw.payload.remaining < 2 ^ 32 := by
  cases tile with
  | @custom size sizeField content sizeWritten exact =>
      have fits := size.toNat_lt
      rwa [← exact] at fits
  | @counted id size count sizeField countField content notCustom sizeWritten countWritten exact =>
      have fits := size.toNat_lt
      rw [← exact, List.length_append] at fits
      exact Nat.lt_of_le_of_lt (Nat.le_add_left _ _) fits

/-- The payloads of tiles in a row are shorter than a size field can say. -/
theorem RawSection.Tiles.remaining_lt
    {format : HeaderFormat}
    {offset : Nat}
    {raws : List RawSection}
    {list : List UInt8}
    (tiles : Tiles format offset raws list) :
    ∀ raw ∈ raws, raw.payload.remaining < 2 ^ 32 := by
  induction tiles with
  | nil => simp
  | cons tile _ inductionHypothesis =>
      exact List.forall_mem_cons.mpr ⟨tile.remaining_lt, inductionHypothesis⟩

/-- No payload of a binary has more bytes than its size field can say. -/
theorem Frame.payload_remaining_lt
    {format : HeaderFormat}
    {input : List UInt8}
    {frame : Frame}
    (framed : ofBytes format input = .ok frame)
    {raw : RawSection}
    (among : raw ∈ frame.sections) :
    raw.payload.remaining < 2 ^ 32 := by
  obtain ⟨raws, rest, -, tiles, -, rfl⟩ := exists_tiles_of_ofBytes framed
  exact tiles.remaining_lt raw ((RawSection.mem_uncustom_iff _ _).mp among).1

/-- The numbers of the sections of a frame increase. -/
theorem Frame.sections_ordered
    {format : HeaderFormat}
    {input : List UInt8}
    {frame : Frame}
    (framed : ofBytes format input = .ok frame) :
    frame.sections.Pairwise RawSection.Precedes := by
  obtain ⟨raws, rest, -, -, ordered, rfl⟩ := exists_tiles_of_ofBytes framed
  exact ordered

namespace Module

variable {format : HeaderFormat} {input : List UInt8} {module : Module}

/-- The first sections of a frame carry the sections of the module made of them. -/
theorem carry_of_foldlM
    {frame : Frame}
    (framed : Frame.ofBytes format input = .ok frame)
    {earlier later : List RawSection}
    (split : frame.sections = earlier ++ later)
    (folded : earlier.foldlM extend (bare frame.header.magic frame.header.version) = .ok module) :
    List.Forall₂ RawSection.Carries earlier module.sections := by
  have ordered := Frame.sections_ordered framed
  rw [split] at ordered
  have earlierOrdered := (List.pairwise_append.mp ordered).1
  obtain ⟨contents, carry, rfl, -⟩ :=
    (foldlM_extend_eq_ok_iff earlierOrdered (countable_bare _ _) module).mp folded
  rwa [sections_foldl ((ordered_iff_of_carries carry).mpr earlierOrdered)]

/-- Every section of a module is written in fewer than `2 ^ 32` bytes. -/
def Short (module : Module) : Prop :=
  ∀ content ∈ module.sections, ∃ list, content.payload.Written list ∧ list.length < 2 ^ 32

/-- What has been decoded of the sections so far is short, as each payload is. -/
theorem short_of_foldlM
    {frame : Frame}
    (framed : Frame.ofBytes format input = .ok frame)
    {earlier later : List RawSection}
    (split : frame.sections = earlier ++ later)
    (folded : earlier.foldlM extend (bare frame.header.magic frame.header.version) = .ok module) :
    module.Short := by
  intro content among
  have carry := carry_of_foldlM framed split folded
  obtain ⟨position, inRange, rfl⟩ := List.getElem_of_mem among
  have rawInRange : position < earlier.length := by rwa [carry.length_eq]
  have carries : (earlier[position]).Carries (module.sections[position]) :=
    carry.get rawInRange inRange
  refine ⟨_, carries.written, Frame.payload_remaining_lt framed ?_⟩
  rw [split]
  exact List.mem_append_left _ (List.getElem_mem rawInRange)

/-- A module that has been decoded is short. -/
theorem short_of_ofBytes (decoded : ofBytes format input = .ok module) : module.Short := by
  obtain ⟨frame, framed, assembled⟩ := (Except.bind_eq_ok_iff _ _ _).mp decoded
  obtain ⟨folded, -⟩ := (ofFrame_eq_ok_iff frame module).mp assembled
  exact short_of_foldlM framed (List.append_nil _).symm folded

end Module

/-! ## Entries take up bytes -/

namespace Layout

variable {list : List UInt8}

/-- No number is written in no bytes. -/
theorem Written.natural_pos {format : HeaderFormat} {value : Nat}
    (written : (natural format value).Written list) :
    0 < list.length := by
  cases format with
  | compact =>
      obtain ⟨-, rfl⟩ := (written_compact _ _).mp written
      exact Nat.one_pos
  | leb128 => exact ((written_leb128 _ _).mp written).2.1.length_pos

/-- Layouts that are written in at least so many bytes each. -/
theorem Written.length_all_ge
    {layout : α → Layout}
    {least : Nat}
    (long : ∀ item list, (layout item).Written list → least ≤ list.length)
    {items : List α}
    (written : (all (items.map layout)).Written list) :
    items.length * least ≤ list.length := by
  induction items generalizing list with
  | nil => simp
  | cons item rest inductionHypothesis =>
      obtain ⟨head, tail, rfl, itemWritten, restWritten⟩ := (written_append _ _ _).mp written
      have headLong := long item head itemWritten
      have tailLong := inductionHypothesis restWritten
      rw [List.length_cons, List.length_append, Nat.add_mul]
      omega

/-- The lengths that follow bound the number of entries of a kind by the bytes of its
payload; limits have at least one byte. -/
theorem Written.limits_length {limits : Limits} (written : limits.layout.Written list) :
    1 ≤ list.length := by
  obtain ⟨-, content⟩ := (written_measured _ _ _).mp written
  split at content
  all_goals
    obtain ⟨_, _, rfl, flagWritten, -⟩ := (written_append _ _ _).mp content
    obtain rfl := (written_bytes _ _).mp flagWritten
    simp

theorem Written.funcType_length {type : FuncType} (written : type.layout.Written list) :
    1 ≤ list.length := by
  obtain ⟨-, content⟩ := (written_measured _ _ _).mp written
  obtain ⟨_, _, rfl, kindWritten, -⟩ := (written_append _ _ _).mp content
  obtain rfl := (written_bytes _ _).mp kindWritten
  simp

theorem Written.text_length {text : String} (written : (Layout.text text).Written list) :
    1 ≤ list.length := by
  obtain ⟨_, _, rfl, lengthWritten, -⟩ := (written_append _ _ _).mp written
  have positive := lengthWritten.natural_pos
  rw [List.length_append]
  omega

theorem Written.globalType_length {type : GlobalType} (written : type.layout.Written list) :
    2 ≤ list.length := by
  obtain ⟨-, content⟩ := (written_measured _ _ _).mp written
  obtain ⟨_, _, rfl, typeWritten, mutabilityWritten⟩ := (written_append _ _ _).mp content
  obtain rfl := (written_bytes _ _).mp typeWritten
  obtain rfl := (written_bytes _ _).mp mutabilityWritten
  simp

theorem Written.importDesc_length {desc : ImportDesc} (written : desc.layout.Written list) :
    2 ≤ list.length := by
  cases desc with
  | func typeIndex =>
      obtain ⟨_, _, rfl, kindWritten, indexWritten⟩ := (written_append _ _ _).mp written
      obtain rfl := (written_bytes _ _).mp kindWritten
      have positive := indexWritten.natural_pos
      simp only [List.length_append, List.length_singleton]
      omega
  | table type =>
      obtain ⟨_, _, rfl, kindWritten, typeWritten⟩ := (written_append _ _ _).mp written
      obtain rfl := (written_bytes _ _).mp kindWritten
      obtain ⟨-, content⟩ := (written_measured _ _ _).mp typeWritten
      obtain ⟨_, _, rfl, elementWritten, -⟩ := (written_append _ _ _).mp content
      obtain rfl := (written_bytes _ _).mp elementWritten
      simp
  | memory type =>
      obtain ⟨_, _, rfl, kindWritten, typeWritten⟩ := (written_append _ _ _).mp written
      obtain rfl := (written_bytes _ _).mp kindWritten
      have long := ((written_measured _ _ _).mp typeWritten).2.limits_length
      simp only [List.length_append, List.length_singleton]
      omega
  | global type =>
      obtain ⟨_, _, rfl, kindWritten, typeWritten⟩ := (written_append _ _ _).mp written
      obtain rfl := (written_bytes _ _).mp kindWritten
      have long := typeWritten.globalType_length
      simp only [List.length_append, List.length_singleton]
      omega

theorem Written.import_length {item : Import} (written : item.layout.Written list) :
    4 ≤ list.length := by
  obtain ⟨-, content⟩ := (written_measured _ _ _).mp written
  obtain ⟨_, _, rfl, moduleWritten, behindModule⟩ := (written_append _ _ _).mp content
  obtain ⟨_, _, rfl, fieldWritten, descWritten⟩ := (written_append _ _ _).mp behindModule
  have moduleLong := moduleWritten.text_length
  have fieldLong := fieldWritten.text_length
  have descLong := descWritten.importDesc_length
  simp only [List.length_append]
  omega

theorem Written.global_length {global : Global} (written : global.layout.Written list) :
    2 ≤ list.length := by
  obtain ⟨-, content⟩ := (written_measured _ _ _).mp written
  obtain ⟨_, _, rfl, typeWritten, -⟩ := (written_append _ _ _).mp content
  have long := typeWritten.globalType_length
  rw [List.length_append]
  omega

theorem Written.func_length {function : Func} (written : function.layout.Written list) :
    2 ≤ list.length := by
  obtain ⟨-, content⟩ := (written_measured _ _ _).mp written
  obtain ⟨_, _, rfl, sizeWritten, bodyWritten⟩ := (written_sized _ _ _).mp content
  have sizePositive := sizeWritten.natural_pos
  obtain ⟨-, contentWritten⟩ := (written_measured _ _ _).mp bodyWritten
  obtain ⟨_, _, rfl, localsWritten, -⟩ := (written_append _ _ _).mp contentWritten
  obtain ⟨_, _, rfl, countWritten, -⟩ := (written_append _ _ _).mp localsWritten
  have countPositive := countWritten.natural_pos
  simp only [List.length_append]
  omega

end Layout

/-! ## Index spaces -/

namespace Module

/-- A module whose index spaces can be counted in 32 bits. -/
structure Numbered (module : Module) : Prop where
  types : (entries module.types).length < 2 ^ 32
  imports : (entries module.imports).length < 2 ^ 30
  functions : (entries module.functions).length < 2 ^ 31
  globals : (entries module.globals).length < 2 ^ 31

section Decoded

variable {format : HeaderFormat} {input : List UInt8} {module : Module}

/-- The entries of a section are few, as together they take up less than `2 ^ 32`
bytes. -/
theorem Short.length_entries_mul_lt
    (short : module.Short)
    {list : Option (List α)}
    (make : List α → Section)
    (present : ∀ items, list = some items → module.section? (make items).id = some (make items))
    {layout : α → Layout}
    (payload : ∀ items, (make items).payload = Layout.all (items.map layout))
    {least : Nat}
    (long : ∀ item bytes, (layout item).Written bytes → least ≤ bytes.length) :
    (entries list).length * least < 2 ^ 32 := by
  cases list with
  | none => simp
  | some items =>
      have among := (mem_sections_iff _ _).mpr (present items rfl)
      obtain ⟨bytes, written, fits⟩ := short _ among
      rw [payload] at written
      exact Nat.lt_of_le_of_lt (written.length_all_ge long) fits

/-- An import takes four bytes, so there are few imports. -/
theorem Short.imports_lt (short : module.Short) : (entries module.imports).length < 2 ^ 30 := by
  have imports := short.length_entries_mul_lt .imports
    (fun items (present : module.imports = some items) => by simp [Section.id, section?, present])
    (fun _ => rfl) (fun _ _ => Layout.Written.import_length)
  omega

/-- The counts of a module that has been decoded fit into 32 bits. -/
theorem numbered_of_ofBytes (decoded : ofBytes format input = .ok module) : module.Numbered := by
  have short := short_of_ofBytes decoded
  obtain ⟨behind, parts, -, -, -, -, -, closed⟩ := (ofBytes_eq_ok_iff _ _ _).mp decoded
  have types := short.length_entries_mul_lt .types
    (fun items (present : module.types = some items) => by simp [Section.id, section?, present])
    (fun _ => rfl) (fun _ _ => Layout.Written.funcType_length)
  have globals := short.length_entries_mul_lt .globals
    (fun items (present : module.globals = some items) => by simp [Section.id, section?, present])
    (fun _ => rfl) (fun _ _ => Layout.Written.global_length)
  have code := short.length_entries_mul_lt .code
    (fun items (present : module.code = some items) => by simp [Section.id, section?, present])
    (fun _ => rfl) (fun _ _ => Layout.Written.func_length)
  refine ⟨by omega, short.imports_lt, ?_, by omega⟩
  by_cases noFunctions : entries module.functions = []
  · simp [noFunctions]
  · -- each entry of the function section has a body, which takes up two bytes or more
    obtain ⟨functions, present⟩ := Option.isSome_iff_exists.mp (closed.hasCode noFunctions)
    rw [present, entries_some, (closed.code functions present).length] at code
    omega

end Decoded

/-- A sum that fits into 32 bits is computed exactly. -/
theorem toNat_add_toUInt32
    {count : UInt32}
    {length : Nat}
    (fits : count.toNat + length < 2 ^ 32) :
    (count + length.toUInt32).toNat = count.toNat + length := by
  have same : length.toUInt32.toNat = length :=
    UInt32.toNat_ofNat_of_lt' (Nat.lt_of_le_of_lt (Nat.le_add_left _ _) fits)
  rw [UInt32.toNat_add, same, Nat.mod_eq_of_lt fits]

namespace Numbered

variable {module : Module}

theorem toNat_numTypes (numbered : module.Numbered) :
    module.numTypes.toNat = (entries module.types).length :=
  UInt32.toNat_ofNat_of_lt' numbered.types

/-- Of few imports, few are of any kind. -/
theorem countP_lt (numbered : module.Numbered) (kind : ImportDesc → Bool) :
    ((entries module.imports).countP fun item => kind item.desc) < 2 ^ 30 :=
  Nat.lt_of_le_of_lt List.countP_le_length numbered.imports

theorem toNat_importCount (numbered : module.Numbered) (kind : ImportDesc → Bool) :
    (module.importCount kind).toNat =
      (entries module.imports).countP fun item => kind item.desc :=
  UInt32.toNat_ofNat_of_lt' (Nat.lt_trans (numbered.countP_lt kind) (by decide))

/-- The functions of a module are numbered on from the imported ones. -/
theorem toNat_functionIndex
    (numbered : module.Numbered)
    {position : Nat}
    (inRange : position ≤ (entries module.functions).length) :
    (module.importedFunctions + position.toUInt32).toNat =
      module.importedFunctions.toNat + position := by
  have imported := numbered.countP_lt ImportDesc.isFunc
  rw [← numbered.toNat_importCount] at imported
  have declared := numbered.functions
  exact toNat_add_toUInt32 (by rw [importedFunctions]; omega)

/-- The functions are the imported ones and those that are declared, without a loss. -/
theorem toNat_numFunctions (numbered : module.Numbered) :
    module.numFunctions.toNat =
      module.importedFunctions.toNat + (entries module.functions).length :=
  numbered.toNat_functionIndex le_rfl

/-- The globals are the imported ones and those that are defined, without a loss. -/
theorem toNat_numGlobals (numbered : module.Numbered) :
    module.numGlobals.toNat =
      module.importedGlobals.toNat + (entries module.globals).length := by
  have imported := numbered.countP_lt ImportDesc.isGlobal
  rw [← numbered.toNat_importCount] at imported
  have defined := numbered.globals
  exact toNat_add_toUInt32 (by rw [importedGlobals]; omega)

end Numbered

end Module

end WebAssembly
