import WebAssembly.Proofs.Tiling

/-!
# How far framing gets

Framing goes from the end of the header to the end of each section that it can
split off and finds in its place. These are the boundaries of the binary. The
readers that framing gets to are exactly those behind some tiles in order, so that
a boundary divides any tiling of the binary in two.
-/

namespace WebAssembly

open Decode

namespace RawSection

/-! ## Tiles -/

section Tiles

variable {format : HeaderFormat} {offset : Nat} {raw other : RawSection}
  {raws before behind : List RawSection} {first second front back rest : List UInt8}

/-- A tile is decoded whatever follows it. -/
theorem Tile.decode_append (tile : Tile format offset raw first) (rest : List UInt8) :
    decode format ⟨offset, first ++ rest⟩ = .ok raw ⟨offset + first.length, rest⟩ :=
  (decode_eq_ok_iff_tile _ _ _ _).mpr ⟨first, tile, rfl, rfl⟩

/-- Where no section can be split off, none is there. -/
theorem Offends.of_decode_error
    {earlier : List RawSection}
    {list : List UInt8}
    {failure : Failure}
    {after : Reader}
    (unread : list ≠ [])
    (failed : decode format ⟨offset, list⟩ = .error failure after) :
    Offends format earlier offset list (failure.inContext (.frame offset)) := by
  refine .unsplit unread (fun raw first rest parts tile => ?_) failed
  rw [parts, tile.decode_append rest] at failed
  cases failed

/-- A tile has at least one byte. -/
theorem Tile.length_pos (tile : Tile format offset raw first) : 0 < first.length := by
  cases tile <;> simp

/-- Where a section starts, only one section can be split off. -/
theorem Tile.unique
    (tile : Tile format offset raw first)
    (otherTile : Tile format offset other second)
    (sameBytes : first ++ front = second ++ back) :
    raw = other ∧ first = second ∧ front = back := by
  have decoded := tile.decode_append front
  rw [sameBytes, otherTile.decode_append back] at decoded
  simp only [EStateM.Result.ok.injEq, Reader.mk.injEq] at decoded
  obtain ⟨rfl, -, rfl⟩ := decoded
  exact ⟨rfl, List.append_cancel_right sameBytes, rfl⟩

/-- Tiles in a row may be followed by others. -/
theorem Tiles.append
    (tiles : Tiles format offset before front)
    (rest : Tiles format (offset + front.length) behind back) :
    Tiles format offset (before ++ behind) (front ++ back) := by
  induction tiles with
  | nil => simpa using rest
  | @cons offset raw raws first front tile tiles inductionHypothesis =>
      rw [List.length_append, ← Nat.add_assoc] at rest
      rw [List.cons_append, List.append_assoc]
      exact .cons tile (inductionHypothesis rest)

theorem Tiles.singleton (tile : Tile format offset raw first) :
    Tiles format offset [raw] first := by
  have tiles := Tiles.cons tile .nil
  rwa [List.append_nil] at tiles

/-- A tiling of the first bytes is the beginning of any tiling of all of them. -/
theorem Tiles.exists_behind
    (tiles : Tiles format offset raws (front ++ back))
    (frontTiles : Tiles format offset before front) :
    ∃ behind, raws = before ++ behind ∧ Tiles format (offset + front.length) behind back := by
  induction frontTiles generalizing raws with
  | nil => exact ⟨raws, rfl, tiles⟩
  | @cons offset raw before first front tile frontTiles inductionHypothesis =>
      rw [List.append_assoc] at tiles
      generalize whole : first ++ (front ++ back) = list at tiles
      cases tiles with
      | nil =>
          have positive := tile.length_pos
          simp [List.append_eq_nil_iff.mp whole] at positive
      | @cons _ other others head tail otherTile rest =>
          obtain ⟨rfl, rfl, rfl⟩ := tile.unique otherTile whole
          obtain ⟨behind, rfl, behindTiles⟩ := inductionHypothesis rest
          refine ⟨behind, rfl, ?_⟩
          rwa [List.length_append, ← Nat.add_assoc]

/-- A place among some tiles lies between two of them or inside one. -/
theorem Tiles.exists_split
    (tiles : Tiles format offset raws front)
    {count : Nat}
    (inside : count ≤ front.length) :
    (∃ before head behind tail, raws = before ++ behind ∧ front = head ++ tail ∧
      head.length = count ∧ Tiles format offset before head ∧
      Tiles format (offset + count) behind tail) ∨
    ∃ before head raw middle behind tail, raws = before ++ raw :: behind ∧
      front = head ++ (middle ++ tail) ∧ Tiles format offset before head ∧
      Tile format (offset + head.length) raw middle ∧
      Tiles format (offset + head.length + middle.length) behind tail ∧
      head.length < count ∧ count < head.length + middle.length := by
  induction tiles generalizing count with
  | @nil offset =>
      obtain rfl : count = 0 := Nat.le_zero.mp inside
      exact .inl ⟨[], [], [], [], rfl, rfl, rfl, .nil, .nil⟩
  | @cons offset raw raws first front tile tiles inductionHypothesis =>
      obtain rfl | positive := Nat.eq_zero_or_pos count
      · exact .inl ⟨[], [], _, _, rfl, rfl, rfl, .nil, .cons tile tiles⟩
      by_cases within : count < first.length
      · exact .inr ⟨[], [], raw, first, raws, front, rfl, rfl, .nil, tile, tiles, positive,
          by simpa using within⟩
      obtain ⟨beyond, rfl⟩ := Nat.exists_eq_add_of_le (Nat.le_of_not_lt within)
      have restInside : beyond ≤ front.length := by
        rw [List.length_append] at inside
        omega
      obtain ⟨before, head, behind, tail, rfl, rfl, rfl, headTiles, tailTiles⟩ |
        ⟨before, head, other, middle, behind, tail, rfl, rfl, headTiles, middleTile, tailTiles,
          above, below⟩ := inductionHypothesis restInside
      · refine .inl ⟨raw :: before, first ++ head, behind, tail, rfl, by rw [List.append_assoc],
          List.length_append, .cons tile headTiles, ?_⟩
        rwa [← Nat.add_assoc]
      · refine .inr ⟨raw :: before, first ++ head, other, middle, behind, tail, rfl,
          by rw [List.append_assoc], .cons tile headTiles, ?_, ?_, ?_, ?_⟩
        · rwa [List.length_append, ← Nat.add_assoc]
        · rwa [List.length_append, ← Nat.add_assoc]
        · rw [List.length_append]
          omega
        · rw [List.length_append]
          omega

/-- A section among tiles in a row stands somewhere between others. -/
theorem Tiles.exists_of_mem
    (tiles : Tiles format offset raws front)
    (among : raw ∈ raws) :
    ∃ before head middle behind tail, raws = before ++ raw :: behind ∧
      front = head ++ (middle ++ tail) ∧ Tiles format offset before head ∧
      Tile format (offset + head.length) raw middle := by
  induction tiles with
  | nil => cases among
  | @cons offset first raws list rest tile tiles inductionHypothesis =>
      obtain rfl | among := List.mem_cons.mp among
      · exact ⟨[], [], list, raws, rest, rfl, rfl, .nil, tile⟩
      · obtain ⟨before, head, middle, behind, tail, rfl, rfl, headTiles, middleTile⟩ :=
          inductionHypothesis among
        refine ⟨first :: before, list ++ head, middle, behind, tail, rfl,
          by rw [List.append_assoc], .cons tile headTiles, ?_⟩
        rwa [List.length_append, ← Nat.add_assoc]

end Tiles

/-- Custom sections are left out part by part. -/
theorem uncustom_append (raws others : List RawSection) :
    uncustom (raws ++ others) = uncustom raws ++ uncustom others :=
  List.filter_append _ _

/-- What stands in front of others in order is in order. -/
theorem Ordered.of_append_left
    {raws others : List RawSection}
    (ordered : Ordered (raws ++ others)) :
    Ordered raws := by
  rw [Ordered, uncustom_append] at ordered
  exact (List.pairwise_append.mp ordered).1

end RawSection

namespace Frame

open RawSection (Tile Tiles Ordered uncustom uncustom_append decode_eq_ok_iff_tile)

/-! ## Boundaries -/

/-- Framing gets to a reader: to the one behind the header, and from one to the
next behind a section that is split off and in its place. The sections passed so
far, custom ones apart, are given last first. -/
inductive Reaches (format : HeaderFormat) (input : List UInt8) : List RawSection → Reader → Prop
  | start {header : Header} {reader : Reader}
      (decoded : Header.decode (Reader.ofBytes input) = .ok header reader) :
      Reaches format input [] reader
  | next {earlier next : List RawSection} {reader after : Reader}
      (reached : Reaches format input earlier reader)
      (stepped : step format earlier reader = .ok (.inl next) after) :
      Reaches format input next after

/-- Framing gets to an offset. -/
def Boundary (format : HeaderFormat) (input : List UInt8) (offset : Nat) : Prop :=
  ∃ earlier reader, Reaches format input earlier reader ∧ reader.position = offset

/-- Framing gets to an offset and splits off a section from there up to another. -/
def SectionAt
    (format : HeaderFormat)
    (input : List UInt8)
    (raw : RawSection)
    (start stop : Nat) : Prop :=
  ∃ earlier reader after, Reaches format input earlier reader ∧
    RawSection.decode format reader = .ok raw after ∧
    reader.position = start ∧ after.position = stop

/-- Framing splits off a section of a kind from an offset on. -/
def Starts (format : HeaderFormat) (input : List UInt8) (id : SectionId) (start : Nat) : Prop :=
  ∃ raw stop, SectionAt format input raw start stop ∧ raw.id = id

/-- A section of a kind starts at an offset or behind it. -/
def StartsBehind
    (format : HeaderFormat)
    (input : List UInt8)
    (offset : Nat)
    (id : SectionId) : Prop :=
  ∃ start, Starts format input id start ∧ offset ≤ start

theorem take_header (list : List UInt8) (count : Nat) :
    (Header.magicBytes ++ Header.versionBytes ++ list).take (8 + count) =
      Header.magicBytes ++ Header.versionBytes ++ list.take count :=
  @List.take_length_add_append _ (Header.magicBytes ++ Header.versionBytes) list count

theorem drop_header (list : List UInt8) (count : Nat) :
    (Header.magicBytes ++ Header.versionBytes ++ list).drop (8 + count) = list.drop count :=
  @List.drop_length_add_append _ (Header.magicBytes ++ Header.versionBytes) list count

section Boundaries

variable {format : HeaderFormat} {input : List UInt8} {earlier : List RawSection}

/-- Framing begins behind the header. -/
theorem Reaches.of_header (format : HeaderFormat) (rest : List UInt8) :
    Reaches format (Header.magicBytes ++ Header.versionBytes ++ rest) [] ⟨8, rest⟩ :=
  .start (header_decode_of_bytes rest)

/-- The section that is read next is put in front of those that are given last first. -/
theorem reverse_uncustom_cons (raw : RawSection) (raws : List RawSection) :
    (uncustom (raw :: raws)).reverse = (uncustom raws).reverse ++ uncustom [raw] := by
  have singleton : (uncustom [raw]).reverse = uncustom [raw] :=
    reverse_kept_singleton (raw, raw.payload)
  rw [← List.singleton_append, uncustom_append, List.reverse_append, singleton]

/-- A section in its place is passed. -/
theorem step_of_tile
    {offset : Nat}
    {raw : RawSection}
    {first : List UInt8}
    (tile : Tile format offset raw first)
    (rest : List UInt8)
    (descending : (uncustom [raw] ++ earlier).Pairwise fun later raw => raw.Precedes later) :
    step format earlier ⟨offset, first ++ rest⟩ =
      .ok (.inl (uncustom [raw] ++ earlier)) ⟨offset + first.length, rest⟩ :=
  (step_eq_ok_iff (List.pairwise_append.mp descending).2.1 _ _ _).mpr
    ⟨raw, tile.decode_append rest, rfl, descending⟩

/-- Framing gets past all tiles that are in order. -/
theorem Reaches.of_tiles
    {offset : Nat}
    {raws : List RawSection}
    {front rest : List UInt8}
    (reached : Reaches format input earlier ⟨offset, front ++ rest⟩)
    (tiles : Tiles format offset raws front)
    (descending :
      ((uncustom raws).reverse ++ earlier).Pairwise fun later raw => raw.Precedes later) :
    Reaches format input ((uncustom raws).reverse ++ earlier) ⟨offset + front.length, rest⟩ := by
  induction tiles generalizing earlier with
  | nil => exact reached
  | @cons offset raw raws first front tile tiles inductionHypothesis =>
      rw [reverse_uncustom_cons, List.append_assoc] at descending ⊢
      rw [List.append_assoc] at reached
      rw [List.length_append, ← Nat.add_assoc]
      have stepped := step_of_tile tile (front ++ rest) (List.pairwise_append.mp descending).2.1
      exact inductionHypothesis (reached.next stepped) descending

/-- The readers that framing gets to are those behind some tiles in order. -/
theorem reaches_iff (reader : Reader) :
    Reaches format input earlier reader ↔
      ∃ raws front, input = Header.magicBytes ++ Header.versionBytes ++ (front ++ reader.unread) ∧
        reader.position = 8 + front.length ∧ Tiles format 8 raws front ∧ Ordered raws ∧
        earlier = (uncustom raws).reverse := by
  constructor
  · intro reached
    -- Each round prolongs the tiles behind the header by the one that it reads.
    induction reached with
    | start decoded =>
        obtain ⟨-, unread, position⟩ := (Header.decode_eq_ok_iff _ _ _).mp decoded
        exact ⟨[], [], unread, position, .nil, .nil, rfl⟩
    | @next earlier next reader after reached stepped inductionHypothesis =>
        obtain ⟨raws, front, sameInput, position, tiles, ordered, rfl⟩ := inductionHypothesis
        obtain ⟨raw, decoded, sameNext, descending⟩ :=
          (step_eq_ok_iff (List.pairwise_reverse.mpr ordered) _ _ _).mp stepped
        obtain ⟨first, tile, unread, behind⟩ := (decode_eq_ok_iff_tile _ _ _ _).mp decoded
        rw [position] at tile
        have collected : kept [(raw, after)] ++ (uncustom raws).reverse =
            (uncustom (raws ++ [raw])).reverse := by
          rw [uncustom_append, List.reverse_append, ← reverse_kept_singleton]
          rfl
        cases sameNext
        rw [collected] at descending ⊢
        refine ⟨raws ++ [raw], front ++ first, ?_, ?_, tiles.append (.singleton tile),
          List.pairwise_reverse.mp descending, rfl⟩
        · rw [sameInput, unread, List.append_assoc front]
        · rw [behind, position, List.length_append, Nat.add_assoc]
  · rintro ⟨raws, front, rfl, position, tiles, ordered, rfl⟩
    obtain ⟨_, rest⟩ := reader
    cases position
    have started := Reaches.of_header format (front ++ rest)
    have reached := started.of_tiles tiles (descending_of_ordered ordered)
    rwa [List.append_nil] at reached

/-- A boundary divides a binary into tiles in order and the bytes behind them. -/
theorem boundary_iff (offset : Nat) :
    Boundary format input offset ↔
      ∃ raws front back, input = Header.magicBytes ++ Header.versionBytes ++ (front ++ back) ∧
        offset = 8 + front.length ∧ Tiles format 8 raws front ∧ Ordered raws := by
  simp only [Boundary, reaches_iff]
  constructor
  · rintro ⟨_, reader, ⟨raws, front, sameInput, position, tiles, ordered, -⟩, rfl⟩
    exact ⟨raws, front, reader.unread, sameInput, position, tiles, ordered⟩
  · rintro ⟨raws, front, back, sameInput, rfl, tiles, ordered⟩
    exact ⟨_, ⟨8 + front.length, back⟩, ⟨raws, front, sameInput, rfl, tiles, ordered, rfl⟩, rfl⟩

/-- The sections of a binary that is tiled in order are its tiles. -/
theorem sectionAt_iff
    {raws : List RawSection}
    {list : List UInt8}
    (tiles : Tiles format 8 raws list)
    (ordered : Ordered raws)
    (raw : RawSection)
    (start stop : Nat) :
    SectionAt format (Header.magicBytes ++ Header.versionBytes ++ list) raw start stop ↔
      ∃ before front middle behind back, raws = before ++ raw :: behind ∧
        list = front ++ (middle ++ back) ∧ Tiles format 8 before front ∧
        Tile format (8 + front.length) raw middle ∧
        start = 8 + front.length ∧ stop = 8 + front.length + middle.length := by
  simp only [SectionAt, reaches_iff]
  constructor
  · rintro ⟨_, reader, after, ⟨before, front, sameInput, position, frontTiles, -, -⟩, decoded, rfl,
      rfl⟩
    obtain ⟨middle, tile, unread, behindPosition⟩ := (decode_eq_ok_iff_tile _ _ _ _).mp decoded
    have parts := List.append_cancel_left sameInput
    rw [unread] at parts
    rw [position] at tile
    subst parts
    obtain ⟨rest, rfl, restTiles⟩ := tiles.exists_behind frontTiles
    obtain ⟨behind, rfl, -⟩ := restTiles.exists_behind (.singleton tile)
    exact ⟨before, front, middle, behind, after.unread, rfl, rfl, frontTiles, tile, position,
      by rw [behindPosition, position]⟩
  · rintro ⟨before, front, middle, behind, back, rfl, rfl, frontTiles, tile, rfl, rfl⟩
    exact ⟨_, ⟨8 + front.length, middle ++ back⟩, _,
      ⟨before, front, rfl, rfl, frontTiles, ordered.of_append_left, rfl⟩,
      tile.decode_append back, rfl, rfl⟩

end Boundaries

/-! ## Sections on either side of a boundary -/

section Sides

variable {format : HeaderFormat} {before behind : List RawSection} {front back : List UInt8}
  {raw : RawSection}

/-- A section in front of a boundary stands at some place before it. -/
theorem exists_sectionAt_of_mem_before
    (ordered : Ordered (before ++ behind))
    (frontTiles : Tiles format 8 before front)
    (backTiles : Tiles format (8 + front.length) behind back)
    (among : raw ∈ before) :
    ∃ start stop, SectionAt format (Header.magicBytes ++ Header.versionBytes ++ (front ++ back))
      raw start stop ∧ start < 8 + front.length := by
  obtain ⟨earlier, head, middle, later, tail, rfl, rfl, headTiles, tile⟩ :=
    frontTiles.exists_of_mem among
  refine ⟨_, _, (sectionAt_iff (frontTiles.append backTiles) ordered _ _ _).mpr
    ⟨earlier, head, middle, later ++ behind, tail ++ back, by simp, by simp, headTiles, tile, rfl,
      rfl⟩, ?_⟩
  have positive := tile.length_pos
  simp only [List.length_append]
  omega

/-- A section behind a boundary stands at some place from it on. -/
theorem exists_sectionAt_of_mem_behind
    (ordered : Ordered (before ++ behind))
    (frontTiles : Tiles format 8 before front)
    (backTiles : Tiles format (8 + front.length) behind back)
    (among : raw ∈ behind) :
    ∃ start stop, SectionAt format (Header.magicBytes ++ Header.versionBytes ++ (front ++ back))
      raw start stop ∧ 8 + front.length ≤ start := by
  obtain ⟨earlier, head, middle, later, tail, rfl, rfl, headTiles, tile⟩ :=
    backTiles.exists_of_mem among
  rw [Nat.add_assoc, ← List.length_append] at tile
  refine ⟨_, _, (sectionAt_iff (frontTiles.append backTiles) ordered _ _ _).mpr
    ⟨before ++ earlier, front ++ head, middle, later, tail, by simp, by simp,
      frontTiles.append headTiles, tile, rfl, rfl⟩, ?_⟩
  simp only [List.length_append]
  omega

/-- A section that stands from a boundary on is among those behind it. -/
theorem mem_behind_of_sectionAt
    (ordered : Ordered (before ++ behind))
    (frontTiles : Tiles format 8 before front)
    (backTiles : Tiles format (8 + front.length) behind back)
    {start stop : Nat}
    (sectionAt : SectionAt format
      (Header.magicBytes ++ Header.versionBytes ++ (front ++ back)) raw start stop)
    (notBefore : 8 + front.length ≤ start) :
    raw ∈ behind := by
  have tiles := frontTiles.append backTiles
  obtain ⟨earlier, head, middle, later, tail, sameRaws, parts, headTiles, -, rfl, -⟩ :=
    (sectionAt_iff tiles ordered _ _ _).mp sectionAt
  have longer : front.length ≤ head.length := Nat.le_of_add_le_add_left notBefore
  obtain ⟨rest, rfl⟩ : front <+: head := List.prefix_of_prefix_length_le
    (List.prefix_append front back) (parts ▸ List.prefix_append head (middle ++ tail)) longer
  obtain ⟨others, rfl, -⟩ := headTiles.exists_behind frontTiles
  rw [List.append_assoc, List.append_cancel_left_eq] at sameRaws
  rw [sameRaws]
  simp

end Sides

end Frame

end WebAssembly
