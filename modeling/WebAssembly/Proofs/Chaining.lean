import WebAssembly.Proofs.Module
import WebAssembly.Proofs.Tiling

/-!
# Entries chain

The entries of a section stand one after another in its payload, and the size of
each is the number of bytes that it takes up there. Where the sizes of earlier
entries say that an entry begins, its decoder finds it again in a window of just
its own size, so that no decoder depends on a byte behind those it reads.
-/

namespace WebAssembly

open Decode

/-! ## Sizes of parts -/

/-- A table type is its element type and its limits. -/
def TableType.SizesAdd (type : TableType) : Prop :=
  type.size = 1 + type.limits.size

/-- A memory type is its limits. -/
def MemoryType.SizesAdd (type : MemoryType) : Prop :=
  type.size = type.limits.size

/-- An import holds the type of what is imported. -/
def ImportDesc.SizesAdd : ImportDesc → Prop
  | .func _ => True
  | .table type => type.SizesAdd
  | .memory type => type.SizesAdd
  | .global _ => True

/-- A global is its type and its initial value. -/
def Global.SizesAdd (global : Global) : Prop :=
  global.size = global.type.size + global.init.size

/-- The bytes of a body are its size field and as many bytes as that declares. -/
def Body.SizesAdd (body : Body) (list : List UInt8) : Prop :=
  ∃ length, Numeral.u32 list = .ok (body.declaredSize, length) ∧
    body.size = length + body.declaredSize.toNat

namespace Layout

variable {list : List UInt8}

/-- A table type is written in the bytes of its limits and one more. -/
theorem Written.tableSizesAdd {type : TableType} (written : type.layout.Written list) :
    type.SizesAdd := by
  obtain ⟨exact, content⟩ := (written_measured _ _ _).mp written
  obtain ⟨_, _, rfl, elementWritten, limitsWritten⟩ := (written_append _ _ _).mp content
  obtain rfl := (written_bytes _ _).mp elementWritten
  obtain ⟨limitsExact, -⟩ := (written_measured _ _ _).mp limitsWritten
  rw [TableType.SizesAdd, ← exact, ← limitsExact, List.length_append, List.length_singleton]

theorem Written.memorySizesAdd {type : MemoryType} (written : type.layout.Written list) :
    type.SizesAdd := by
  obtain ⟨exact, limitsWritten⟩ := (written_measured _ _ _).mp written
  obtain ⟨limitsExact, -⟩ := (written_measured _ _ _).mp limitsWritten
  rw [MemoryType.SizesAdd, ← exact, ← limitsExact]

theorem Written.importSizesAdd {item : Import} (written : item.layout.Written list) :
    item.desc.SizesAdd := by
  obtain ⟨-, content⟩ := (written_measured _ _ _).mp written
  obtain ⟨_, _, -, -, behindModule⟩ := (written_append _ _ _).mp content
  obtain ⟨_, _, -, -, descWritten⟩ := (written_append _ _ _).mp behindModule
  cases present : item.desc with
  | func typeIndex => trivial
  | table type =>
      rw [present] at descWritten
      obtain ⟨_, _, -, -, typeWritten⟩ := (written_append _ _ _).mp descWritten
      exact typeWritten.tableSizesAdd
  | memory type =>
      rw [present] at descWritten
      obtain ⟨_, _, -, -, typeWritten⟩ := (written_append _ _ _).mp descWritten
      exact typeWritten.memorySizesAdd
  | global type => trivial

theorem Written.globalSizesAdd {global : Global} (written : global.layout.Written list) :
    global.SizesAdd := by
  obtain ⟨exact, content⟩ := (written_measured _ _ _).mp written
  obtain ⟨_, _, rfl, typeWritten, initWritten⟩ := (written_append _ _ _).mp content
  obtain ⟨typeExact, -⟩ := (written_measured _ _ _).mp typeWritten
  obtain ⟨initExact, -⟩ := (written_measured _ _ _).mp initWritten
  rw [Global.SizesAdd, ← exact, ← typeExact, ← initExact, List.length_append]

theorem Written.bodySizesAdd {body : Body} (written : body.layout.Written list) :
    body.SizesAdd list := by
  obtain ⟨exact, content⟩ := (written_measured _ _ _).mp written
  obtain ⟨sizeField, rest, rfl, sizeWritten, restWritten⟩ := (written_sized _ _ _).mp content
  obtain ⟨restExact, -⟩ := (written_measured _ _ _).mp restWritten
  rw [restExact] at sizeWritten
  obtain ⟨-, spells⟩ := (written_leb128 _ _).mp sizeWritten
  refine ⟨sizeField.length, (Numeral.u32_eq_ok_iff _ _ _).mpr ⟨sizeField, rest, rfl, rfl, spells⟩,
    ?_⟩
  rw [← exact, ← restExact, List.length_append]

/-- Each of several layouts that are written one after another is written behind
those before it. -/
theorem Written.exists_part
    {layout : α → Layout}
    {size : α → Nat}
    (sizes : ∀ item list, (layout item).Written list → list.length = size item)
    {items : List α}
    (written : (all (items.map layout)).Written list)
    {number : Nat}
    {item : α}
    (present : items[number]? = some item) :
    ∃ before part behind, list = before ++ (part ++ behind) ∧
      before.length = ((items.take number).map size).sum ∧ (layout item).Written part := by
  induction items generalizing list number with
  | nil => simp at present
  | cons first rest inductionHypothesis =>
      obtain ⟨head, tail, rfl, firstWritten, restWritten⟩ := (written_append _ _ _).mp written
      cases number with
      | zero =>
          obtain rfl : first = item := by simpa using present
          exact ⟨[], head, tail, rfl, rfl, firstWritten⟩
      | succ number =>
          obtain ⟨before, part, behind, rfl, length, partWritten⟩ :=
            inductionHypothesis restWritten (by simpa using present)
          refine ⟨head ++ before, part, behind, by rw [List.append_assoc], ?_, partWritten⟩
          rw [List.length_append, length, sizes first head firstWritten, List.take_succ_cons,
            List.map_cons, List.sum_cons]

/-- Entries of known sizes are written in the sum of their sizes. -/
theorem Written.length_all
    {layout : α → Layout}
    {size : α → Nat}
    (sizes : ∀ item list, (layout item).Written list → list.length = size item)
    {items : List α}
    (written : (all (items.map layout)).Written list) :
    list.length = (items.map size).sum := by
  induction items generalizing list with
  | nil =>
      obtain rfl := (written_bytes _ _).mp written
      rfl
  | cons first rest inductionHypothesis =>
      obtain ⟨head, tail, rfl, firstWritten, restWritten⟩ := (written_append _ _ _).mp written
      rw [List.length_append, sizes first head firstWritten, inductionHypothesis restWritten,
        List.map_cons, List.sum_cons]

end Layout

/-! ## Windows of the input -/

/-- The unread bytes of a reader stand in the input where its position says. -/
def Reader.Within (reader : Reader) (input : List UInt8) : Prop :=
  ∃ front back, input = front ++ (reader.unread ++ back) ∧ reader.position = front.length

/-- The window around a part of a buffer has the bytes of this part. -/
theorem Reader.window_of_parts (front list back : List UInt8) :
    window (front ++ (list ++ back)) front.length (front.length + list.length) =
      ⟨front.length, list⟩ := by
  have stop : min (front.length + list.length) (front ++ (list ++ back)).length =
      front.length + list.length := by
    simp only [List.length_append]
    omega
  have start : min front.length (front.length + list.length) = front.length := by omega
  simp only [window, stop, start, mk.injEq, true_and]
  rw [← List.append_assoc, ← List.length_append, List.take_left, List.drop_left]

/-- The payload of a raw section is a window of the input, wherever its bytes stand. -/
theorem RawSection.Tile.payload_within
    {format : HeaderFormat}
    {offset : Nat}
    {raw : RawSection}
    {list front rest : List UInt8}
    (tile : Tile format offset raw list)
    (behind : front.length = offset) :
    raw.payload.Within (front ++ (list ++ rest)) := by
  cases tile with
  | @custom size sizeField content =>
      refine ⟨front ++ ([SectionId.custom.number] ++ sizeField), rest, by simp, ?_⟩
      simp only [List.length_append, List.length_singleton, behind]
      omega
  | @counted id size count sizeField countField content =>
      refine ⟨front ++ ([id.number] ++ (sizeField ++ countField)), rest, by simp, ?_⟩
      simp only [List.length_append, List.length_singleton, behind]
      omega

/-- The payloads of tiles in a row are windows of the input. -/
theorem RawSection.Tiles.payload_within
    {format : HeaderFormat}
    {offset : Nat}
    {raws : List RawSection}
    {list front : List UInt8}
    (tiles : Tiles format offset raws list)
    (behind : front.length = offset)
    {raw : RawSection}
    (among : raw ∈ raws) :
    raw.payload.Within (front ++ list) := by
  induction tiles generalizing front with
  | nil => cases among
  | @cons offset first raws head rest tile tiles inductionHypothesis =>
      obtain rfl | among := List.mem_cons.mp among
      · exact tile.payload_within behind
      · rw [← List.append_assoc]
        exact inductionHypothesis (by rw [List.length_append, behind]) among

/-- The payload of each section of a binary is a window of this binary. -/
theorem Frame.payload_within
    {format : HeaderFormat}
    {input : List UInt8}
    {frame : Frame}
    (framed : ofBytes format input = .ok frame)
    {raw : RawSection}
    (among : raw ∈ frame.sections) :
    raw.payload.Within input := by
  obtain ⟨raws, rest, rfl, tiles, -, rfl⟩ := exists_tiles_of_ofBytes framed
  exact tiles.payload_within rfl ((RawSection.mem_uncustom_iff _ _).mp among).1

/-! ## Chains of entries -/

/-- Entries fill a payload. Each is read again from the window of its own size
behind those before it, and leaves nothing of the window. -/
structure Fills
    (input : List UInt8)
    (payload : Reader)
    (decoder : Nat → Decode Reader α)
    (size : α → Nat)
    (entries : List α) : Prop where
  total : (entries.map size).sum = payload.remaining
  redecoded : ∀ (number : Nat) (entry : α), entries[number]? = some entry →
    let start := payload.position + ((entries.take number).map size).sum
    decoder number (Reader.window input start (start + size entry)) =
      .ok entry ⟨start + size entry, []⟩

/-- The entries of a section chain: they fill its payload, with the decoders that
read them against the module made of the sections before, and the sizes of their
parts add up. Type indices have no size, and the start section has no entries. -/
def Section.Chained (module : Module) (input : List UInt8) (payload : Reader) : Section → Prop
  | .types entries => Fills input payload (fun _ => FuncType.decode) FuncType.size entries
  | .imports entries =>
      Fills input payload (fun _ => Import.decode module) Import.size entries ∧
        ∀ item ∈ entries, item.desc.SizesAdd
  | .functions _ => True
  | .tables entries =>
      Fills input payload (fun _ => TableType.decode) TableType.size entries ∧
        ∀ type ∈ entries, type.SizesAdd
  | .memories entries =>
      Fills input payload (fun _ => MemoryType.decode) MemoryType.size entries ∧
        ∀ type ∈ entries, type.SizesAdd
  | .globals entries =>
      Fills input payload (fun _ => Global.decode module) Global.size entries ∧
        ∀ global ∈ entries, global.SizesAdd
  | .exports entries => Fills input payload (fun _ => Export.decode module) Export.size entries
  | .start _ => True
  | .elements entries =>
      Fills input payload (fun _ => ElementSegment.decode module) ElementSegment.size entries
  | .code entries =>
      Fills input payload
          (fun number => Func.decode module.indexSpace (Module.entries module.types)
            (module.importedFunctions + number.toUInt32)
            ((Module.entries module.functions).getD number 0))
          (fun function => function.body.size) entries ∧
        ∀ (number : Nat) (function : Func), entries[number]? = some function →
          let start := payload.position +
            ((entries.take number).map fun earlier => earlier.body.size).sum
          function.body.SizesAdd
            (Reader.window input start (start + function.body.size)).unread
  | .data entries =>
      Fills input payload (fun _ => DataSegment.decode module) DataSegment.size entries

section Entries

variable {input : List UInt8} {payload : Reader} {layout : α → Layout} {size : α → Nat}
  {entries : List α}

/-- The window behind the entries before one holds just the bytes of its layout. -/
theorem exists_window
    (sizes : ∀ item list, (layout item).Written list → list.length = size item)
    (inside : payload.Within input)
    (written : (Layout.all (entries.map layout)).Written payload.unread)
    {number : Nat}
    {entry : α}
    (present : entries[number]? = some entry) :
    let start := payload.position + ((entries.take number).map size).sum
    ∃ part, (layout entry).Written part ∧ part.length = size entry ∧
      Reader.window input start (start + size entry) = ⟨start, part⟩ := by
  obtain ⟨before, part, behind, unread, length, partWritten⟩ := written.exists_part sizes present
  obtain ⟨front, back, rfl, position⟩ := inside
  have partLength := sizes entry part partWritten
  refine ⟨part, partWritten, partLength, ?_⟩
  have parts : front ++ (payload.unread ++ back) =
      (front ++ before) ++ (part ++ (behind ++ back)) := by
    simp only [unread, List.append_assoc]
  have window := Reader.window_of_parts (front ++ before) part (behind ++ back)
  rwa [← parts, List.length_append, ← position, length, partLength] at window

/-- Entries that are written one behind the other in a payload fill it, each in a window
of its own size. -/
theorem Fills.of_reads
    {decoder : Nat → Decode Reader α}
    {valid : Nat → α → Prop}
    (reads : ∀ number, (decoder number).Reads layout (valid number))
    (sizes : ∀ item list, (layout item).Written list → list.length = size item)
    (inside : payload.Within input)
    (allValid : ∀ number entry, entries[number]? = some entry → valid number entry)
    (written : (Layout.all (entries.map layout)).Written payload.unread) :
    Fills input payload decoder size entries where
  total := (written.length_all sizes).symm
  redecoded number entry present := by
    intro start
    obtain ⟨part, partWritten, partLength, window⟩ := exists_window sizes inside written present
    rw [window, ← partLength, reads number]
    exact ⟨allValid number entry present, part, partWritten, by simp, rfl⟩

/-- Entries of one kind do not depend on their numbers. -/
theorem Fills.of_reads_same
    {decoder : Decode Reader α}
    {valid : α → Prop}
    (reads : decoder.Reads layout valid)
    (sizes : ∀ item list, (layout item).Written list → list.length = size item)
    (inside : payload.Within input)
    (allValid : ∀ entry ∈ entries, valid entry)
    (written : (Layout.all (entries.map layout)).Written payload.unread) :
    Fills input payload (fun _ => decoder) size entries :=
  .of_reads (fun _ => reads) sizes inside
    (fun _ entry present => allValid entry (List.mem_of_getElem? present)) written

/-- What the bytes of a layout imply holds of every entry. -/
theorem forall_mem_of_written
    {holds : α → Prop}
    (implies : ∀ item list, (layout item).Written list → holds item)
    {list : List UInt8}
    (written : (Layout.all (entries.map layout)).Written list) :
    ∀ entry ∈ entries, holds entry := by
  intro entry among
  obtain ⟨part, partWritten⟩ := written.of_mem_all (List.mem_map_of_mem among)
  exact implies entry part partWritten

end Entries

/-- What is measured has the size that is recorded. -/
theorem Layout.Written.length_measured
    {size : Nat}
    {content : Layout}
    {list : List UInt8}
    (written : (Layout.measured size content).Written list) :
    list.length = size :=
  ((written_measured _ _ _).mp written).1

/-- The functions of a code section chain, each with the entry of the function
section at its place. -/
theorem Section.chained_code
    {module : Module}
    (countable : module.Countable)
    {input : List UInt8}
    {payload : Reader}
    {functions : List Func}
    (inside : payload.Within input)
    (valid : (Section.code functions).Valid module)
    (written : (Layout.all (functions.map Func.layout)).Written payload.unread) :
    (Section.code functions).Chained module input payload := by
  have defines := (Module.valid_code_iff module functions).mp valid
  have sizes (function : Func) (list : List UInt8) (written : function.layout.Written list) :
      list.length = function.body.size :=
    written.length_measured
  constructor
  · refine .of_reads (fun number => Func.reads_decode _ countable.params _ _) sizes inside ?_
      written
    intro number function present
    have below : number < (Module.entries module.functions).length := by
      rw [← defines.length]
      exact (List.getElem?_eq_some_iff.mp present).1
    have declared := List.getElem?_eq_getElem below
    rw [List.getD_eq_getElem?_getD, declared]
    exact defines.valid number _ function declared present
  · intro number function present start
    obtain ⟨part, partWritten, -, window⟩ := exists_window sizes inside written present
    have unread : (Reader.window input start (start + function.body.size)).unread = part :=
      congrArg Reader.unread window
    rw [unread]
    exact Layout.Written.bodySizesAdd partWritten

/-- A valid section that is written in a payload of the input chains there. -/
theorem Section.chained_of_written
    {module : Module}
    (countable : module.Countable)
    {input : List UInt8}
    {payload : Reader}
    {content : Section}
    (inside : payload.Within input)
    (valid : content.Valid module)
    (written : content.payload.Written payload.unread) :
    content.Chained module input payload := by
  cases content with
  | types entries =>
      exact .of_reads_same FuncType.reads_decode (fun _ _ => Layout.Written.length_measured)
        inside valid written
  | imports entries =>
      exact ⟨.of_reads_same (Import.reads_decode countable)
        (fun _ _ => Layout.Written.length_measured) inside valid written,
        forall_mem_of_written (fun _ _ => Layout.Written.importSizesAdd) written⟩
  | functions typeIndices => trivial
  | tables entries =>
      exact ⟨.of_reads_same TableType.reads_decode (fun _ _ => Layout.Written.length_measured)
        inside (fun _ _ => trivial) written,
        forall_mem_of_written (fun _ _ => Layout.Written.tableSizesAdd) written⟩
  | memories entries =>
      exact ⟨.of_reads_same MemoryType.reads_decode (fun _ _ => Layout.Written.length_measured)
        inside (fun _ _ => trivial) written,
        forall_mem_of_written (fun _ _ => Layout.Written.memorySizesAdd) written⟩
  | globals entries =>
      exact ⟨.of_reads_same (Global.reads_decode module)
        (fun _ _ => Layout.Written.length_measured) inside valid written,
        forall_mem_of_written (fun _ _ => Layout.Written.globalSizesAdd) written⟩
  | exports entries =>
      exact .of_reads_same (Export.reads_decode module)
        (fun _ _ => Layout.Written.length_measured) inside valid written
  | start index => trivial
  | elements entries =>
      exact .of_reads_same (ElementSegment.reads_decode module)
        (fun _ _ => Layout.Written.length_measured) inside valid written
  | code functions => exact chained_code countable inside valid written
  | data entries =>
      exact .of_reads_same (DataSegment.reads_decode module)
        (fun _ _ => Layout.Written.length_measured) inside valid written

/-! ## Sections of a module -/

namespace Module

/-- Counts stay exact while sections are added. -/
theorem Countable.foldlM_extend
    {raws : List RawSection}
    {start module : Module}
    (countable : start.Countable)
    (folded : raws.foldlM extend start = .ok module) :
    module.Countable := by
  induction raws generalizing start with
  | nil =>
      cases folded
      exact countable
  | cons raw raws inductionHypothesis =>
      obtain ⟨extended, extension, rest⟩ := (Except.bind_eq_ok_iff _ _ _).mp folded
      obtain ⟨content, carries, -, rfl⟩ := (extend_eq_ok_iff countable _ _).mp extension
      exact inductionHypothesis (countable.add carries) rest

/-- A section of a module is the one that was decoded against those before it. -/
theorem exists_content_of_foldlM
    {earlier later : List RawSection}
    {raw : RawSection}
    {start module : Module}
    (countable : start.Countable)
    (ordered : (earlier ++ raw :: later).Pairwise RawSection.Precedes)
    (folded : (earlier ++ raw :: later).foldlM extend start = .ok module) :
    ∃ context content, earlier.foldlM extend start = .ok context ∧ context.Countable ∧
      raw.Carries content ∧ content.Valid context ∧ module.section? raw.id = some content := by
  rw [List.foldlM_append, Except.bind_eq_ok_iff] at folded
  obtain ⟨context, earlierFolded, rest⟩ := folded
  have contextCountable := countable.foldlM_extend earlierFolded
  rw [List.foldlM_cons, Except.bind_eq_ok_iff] at rest
  obtain ⟨_, extension, laterFolded⟩ := rest
  obtain ⟨content, carries, valid, rfl⟩ := (extend_eq_ok_iff contextCountable _ _).mp extension
  have behind : (raw :: later).Pairwise RawSection.Precedes := (List.pairwise_append.mp ordered).2.1
  obtain ⟨contents, carry, rfl, -⟩ := (foldlM_extend_eq_ok_iff behind.of_cons
    (contextCountable.add carries) module).mp laterFolded
  have contentsOrdered := (ordered_iff_of_carries (.cons carries carry)).mpr behind
  refine ⟨context, content, earlierFolded, contextCountable, carries, valid, ?_⟩
  have found := section?_foldl_of_mem contentsOrdered List.mem_cons_self context
  rwa [List.foldl_cons, carries.sameId] at found

/-- The sections of a decoded module have as many entries as their headers say,
and their entries chain. -/
theorem chained_of_ofBytes
    {format : HeaderFormat}
    {input : List UInt8}
    {module : Module}
    (decoded : ofBytes format input = .ok module) :
    ∃ frame, Frame.ofBytes format input = .ok frame ∧
      ∀ earlier raw later, frame.sections = earlier ++ raw :: later →
        ∃ context content,
          earlier.foldlM extend (bare frame.header.magic frame.header.version) = .ok context ∧
          raw.contentFor context = .ok content ∧
          module.section? raw.id = some content ∧
          content.count = raw.count.toNat ∧
          content.Chained context input raw.payload := by
  obtain ⟨frame, framed, assembled⟩ := (Except.bind_eq_ok_iff _ _ _).mp decoded
  refine ⟨frame, framed, fun earlier raw later split => ?_⟩
  obtain ⟨folded, -⟩ := (ofFrame_eq_ok_iff frame module).mp assembled
  have ordered : frame.sections.Pairwise RawSection.Precedes := by
    obtain ⟨raws, rest, -, -, ordered, rfl⟩ := Frame.exists_tiles_of_ofBytes framed
    exact ordered
  have inside : raw.payload.Within input :=
    Frame.payload_within framed (by rw [split]; simp)
  rw [split] at ordered folded
  obtain ⟨context, content, earlierFolded, countable, carries, valid, present⟩ :=
    exists_content_of_foldlM (countable_bare _ _) ordered folded
  refine ⟨context, content, earlierFolded, ?_, present, carries.sameCount,
    Section.chained_of_written countable inside valid carries.written⟩
  exact (raw.contentFor_eq_ok_iff countable content).mpr
    ⟨carries.sameId, carries.sameCount, valid, carries.written⟩

/-- A memory, a global and a function behind an imported table chain. -/
theorem chained_of_table_memory_global :
    let input := Header.magicBytes ++ Header.versionBytes ++
      [1, 4, 1, 0x60, 0, 0, 2, 9, 1, 1, 0x6D, 1, 0x74, 1, 0x70, 0, 1, 3, 2, 1, 0, 5, 3, 1, 0, 1,
        6, 6, 1, 0x7F, 0, 0x41, 7, 0x0B, 10, 6, 1, 4, 0, 0x10, 0, 0x0B]
    let module : Module :=
      { magic := "\x00asm"
        version := 1
        types := some [⟨[], [], 3⟩]
        imports := some [⟨"m", "t", .table ⟨.funcref, ⟨1, none, 2⟩, 3⟩, 8⟩]
        functions := some [0]
        memories := some [⟨⟨1, none, 2⟩, 2⟩]
        globals := some [⟨⟨.i32, .const, 2⟩, ⟨⟨.i32Const, .i32 7⟩, 3⟩, 5⟩]
        code := some [⟨0, 0, ⟨[], [], 3⟩, ⟨4, [], [⟨.call, .functionIndex 0⟩], 5⟩⟩] }
    ofBytes .compact input = .ok module ∧
      ∃ frame, Frame.ofBytes .compact input = .ok frame ∧
        ∀ earlier raw later, frame.sections = earlier ++ raw :: later →
          ∃ context content,
            earlier.foldlM extend (bare frame.header.magic frame.header.version) = .ok context ∧
            raw.contentFor context = .ok content ∧
            module.section? raw.id = some content ∧
            content.count = raw.count.toNat ∧
            content.Chained context input raw.payload := by
  intro input module
  have decoded : ofBytes .compact input = .ok module := by decide +kernel
  exact ⟨decoded, chained_of_ofBytes decoded⟩

end Module

end WebAssembly
