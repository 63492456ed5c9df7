import WebAssembly.Proofs.Frame

/-!
# Framing as tiling

Behind the header, a binary that has a frame is tiled with sections: each takes
up its number, a size field and as many bytes of content as the size says. The
frame lists the sections that are not custom, in slots by their numbers.

Framing fails at the first section that cannot be split off, repeats a number,
or has a smaller number than one before it. Everything in front of that section
is tiled in order, so that its offset is known.
-/

namespace WebAssembly

open Decode

namespace RawSection

/-- The bytes that a section takes up from an offset on. Unless it is custom, its
content begins with a count field. The payload is what follows in the content. -/
inductive Tile (format : HeaderFormat) (offset : Nat) : RawSection → List UInt8 → Prop
  | custom {size : UInt32} {sizeField content : List UInt8}
      (sizeWritten : (Layout.natural format size.toNat).Written sizeField)
      (exact : content.length = size.toNat) :
      Tile format offset
        { id := .custom
          size
          count := 0
          payload := ⟨offset + 1 + sizeField.length, content⟩ }
        ([SectionId.custom.number] ++ (sizeField ++ content))
  | counted {id : SectionId} {size count : UInt32} {sizeField countField content : List UInt8}
      (notCustom : id ≠ .custom)
      (sizeWritten : (Layout.natural format size.toNat).Written sizeField)
      (countWritten : (Layout.natural format count.toNat).Written countField)
      (exact : (countField ++ content).length = size.toNat) :
      Tile format offset
        { id
          size
          count
          payload := ⟨offset + 1 + sizeField.length + countField.length, content⟩ }
        ([id.number] ++ (sizeField ++ (countField ++ content)))

/-- Sections one after another from an offset on. -/
inductive Tiles (format : HeaderFormat) : Nat → List RawSection → List UInt8 → Prop
  | nil {offset : Nat} : Tiles format offset [] []
  | cons {offset : Nat} {raw : RawSection} {raws : List RawSection} {first rest : List UInt8}
      (tile : Tile format offset raw first)
      (tiles : Tiles format (offset + first.length) raws rest) :
      Tiles format offset (raw :: raws) (first ++ rest)

/-- The sections of a list that are not custom. -/
def uncustom (raws : List RawSection) : List RawSection :=
  raws.filter fun raw => raw.id ≠ .custom

/-- The numbers of sections increase, custom sections apart. -/
def Ordered (raws : List RawSection) : Prop :=
  (uncustom raws).Pairwise Precedes

/-- A raw section is read from exactly the bytes that it takes up. -/
theorem decode_eq_ok_iff_tile
    (format : HeaderFormat)
    (raw : RawSection)
    (reader after : Reader) :
    decode format reader = .ok raw after ↔
      ∃ list, Tile format reader.position raw list ∧ reader.Passes list after := by
  rw [decode_eq_ok_iff]
  constructor
  · rintro ⟨identified, sized, content, passes, ⟨sizeField, sizeWritten, sizePasses⟩, exact,
      contentPasses, rest⟩
    obtain ⟨id, size, count, payload⟩ := raw
    have sizedPosition : sized.position = reader.position + 1 + sizeField.length := by
      rw [sizePasses.2, passes.2, List.length_singleton]
    have whole : reader.Passes ([id.number] ++ (sizeField ++ content)) after :=
      (Reader.passes_append _ _ _ _).mpr ⟨identified, passes,
        (Reader.passes_append _ _ _ _).mpr ⟨sized, sizePasses, contentPasses⟩⟩
    refine ⟨_, ?_, whole⟩
    by_cases isCustom : id = .custom
    · subst isCustom
      simp only [if_true] at rest
      obtain ⟨rfl, rfl⟩ := rest
      rw [sizedPosition]
      exact .custom sizeWritten exact
    · simp only [isCustom, if_false] at rest
      obtain ⟨countField, countWritten, countPasses⟩ := rest
      obtain ⟨position, unread⟩ := payload
      obtain ⟨sameContent, samePosition⟩ := countPasses
      simp only at sameContent samePosition
      subst sameContent samePosition
      rw [sizedPosition]
      exact .counted isCustom sizeWritten countWritten exact
  · rintro ⟨list, tile, passes⟩
    cases tile with
    | @custom size sizeField content sizeWritten exact =>
        obtain ⟨identified, numberPasses, restPasses⟩ := (Reader.passes_append _ _ _ _).mp passes
        obtain ⟨sized, sizePasses, contentPasses⟩ := (Reader.passes_append _ _ _ _).mp restPasses
        refine ⟨identified, sized, content, numberPasses, ⟨sizeField, sizeWritten, sizePasses⟩,
          exact, contentPasses, ?_⟩
        rw [if_pos rfl, sizePasses.2, numberPasses.2, List.length_singleton]
        exact ⟨rfl, rfl⟩
    | @counted id size count sizeField countField content notCustom sizeWritten countWritten
        exact =>
        obtain ⟨identified, numberPasses, restPasses⟩ := (Reader.passes_append _ _ _ _).mp passes
        obtain ⟨sized, sizePasses, contentPasses⟩ := (Reader.passes_append _ _ _ _).mp restPasses
        refine ⟨identified, sized, countField ++ content, numberPasses,
          ⟨sizeField, sizeWritten, sizePasses⟩, exact, contentPasses, ?_⟩
        rw [if_neg notCustom]
        refine ⟨countField, countWritten, rfl, ?_⟩
        rw [sizePasses.2, numberPasses.2, List.length_singleton]

/-- The failure that the next section causes behind earlier ones: it cannot be
split off, its number occurred before, or a greater number did. -/
inductive Offends
    (format : HeaderFormat)
    (earlier : List RawSection)
    (offset : Nat)
    (list : List UInt8) : Failure → Prop
  | unsplit {failure : Failure} {after : Reader}
      (unread : list ≠ [])
      (noTile : ∀ raw first rest, list = first ++ rest → ¬ Tile format offset raw first)
      (failed : decode format ⟨offset, list⟩ = .error failure after) :
      Offends format earlier offset list (failure.inContext (.frame offset))
  | repeated {raw : RawSection} {first rest : List UInt8}
      (parts : list = first ++ rest)
      (tile : Tile format offset raw first)
      (notCustom : raw.id ≠ .custom)
      (seen : ∃ other ∈ earlier, other.id = raw.id) :
      Offends format earlier offset list (.ofCause (.duplicateSection raw.id.number))
  | misplaced {raw : RawSection} {first rest : List UInt8}
      (parts : list = first ++ rest)
      (tile : Tile format offset raw first)
      (notCustom : raw.id ≠ .custom)
      (unseen : ∀ other ∈ earlier, other.id ≠ raw.id)
      (passed : ∃ other ∈ earlier, raw.Precedes other) :
      Offends format earlier offset list (.ofCause (.sectionOutOfOrder raw.id.number))

/-- No section precedes a custom one. -/
theorem not_precedes_of_custom
    {raw other : RawSection}
    (isCustom : other.id = .custom) :
    ¬ raw.Precedes other := by
  rw [Precedes, isCustom]
  exact Nat.not_lt_zero _

/-- Earlier custom sections do not matter. -/
theorem Offends.of_mem_iff
    {format : HeaderFormat}
    {earlier others : List RawSection}
    {offset : Nat}
    {list : List UInt8}
    {failure : Failure}
    (offends : Offends format earlier offset list failure)
    (sameMembers : ∀ raw : RawSection, raw.id ≠ .custom → (raw ∈ earlier ↔ raw ∈ others)) :
    Offends format others offset list failure := by
  cases offends with
  | unsplit unread noTile failed => exact .unsplit unread noTile failed
  | repeated parts tile notCustom seen =>
      obtain ⟨other, among, sameId⟩ := seen
      exact .repeated parts tile notCustom
        ⟨other, (sameMembers other (sameId ▸ notCustom)).mp among, sameId⟩
  | misplaced parts tile notCustom unseen passed =>
      obtain ⟨other, among, precedes⟩ := passed
      have otherNotCustom : other.id ≠ .custom :=
        fun isCustom => not_precedes_of_custom isCustom precedes
      refine .misplaced parts tile notCustom (fun another anotherAmong sameId => ?_)
        ⟨other, (sameMembers other otherNotCustom).mp among, precedes⟩
      exact unseen another ((sameMembers another (sameId ▸ notCustom)).mpr anotherAmong) sameId

theorem mem_uncustom_iff (raw : RawSection) (raws : List RawSection) :
    raw ∈ uncustom raws ↔ raw ∈ raws ∧ raw.id ≠ .custom := by
  simp [uncustom]

/-- Which sections offend does not depend on custom ones in front of them. -/
theorem offends_reverse_uncustom_iff
    (format : HeaderFormat)
    (raws : List RawSection)
    (offset : Nat)
    (list : List UInt8)
    (failure : Failure) :
    Offends format (uncustom raws).reverse offset list failure ↔
      Offends format raws offset list failure := by
  have sameMembers (raw : RawSection) (notCustom : raw.id ≠ .custom) :
      raw ∈ (uncustom raws).reverse ↔ raw ∈ raws := by
    simp [mem_uncustom_iff, notCustom]
  exact ⟨fun offends => offends.of_mem_iff sameMembers,
    fun offends => offends.of_mem_iff fun raw notCustom => (sameMembers raw notCustom).symm⟩

theorem uncustom_cons_of_custom
    {raw : RawSection}
    (isCustom : raw.id = .custom)
    (raws : List RawSection) :
    uncustom (raw :: raws) = uncustom raws := by
  simp [uncustom, isCustom]

theorem uncustom_cons_of_ne
    {raw : RawSection}
    (notCustom : raw.id ≠ .custom)
    (raws : List RawSection) :
    uncustom (raw :: raws) = raw :: uncustom raws := by
  simp [uncustom, notCustom]

end RawSection

namespace Frame

open RawSection (Tile Tiles Offends uncustom Precedes decode_eq_ok_iff_tile)

/-- The section in the slot of a number. -/
def slot (frame : Frame) (id : SectionId) : Option RawSection :=
  frame.sections.find? fun raw => raw.id = id

/-! ## One round -/

section Rounds

variable {format : HeaderFormat} {earlier : List RawSection} {reader after : Reader}
  {raw : RawSection}

/-- A section that cannot be split off fails in the context of its place. -/
theorem step_of_error
    {failure : Failure}
    (failed : RawSection.decode format reader = .error failure after) :
    step format earlier reader = .error (failure.inContext (.frame reader.position)) after := by
  have failedInContext : inContext (.frame reader.position) (RawSection.decode format) reader =
      .error (failure.inContext (.frame reader.position)) after := by
    simp only [inContext, failed]
  rw [step, bind_of_ok (position_apply reader), bind_of_error failedInContext]

/-- A section that can be split off is put in its place. -/
theorem step_of_ok (decoded : RawSection.decode format reader = .ok raw after) :
    step format earlier reader =
      (if raw.id = .custom then return .inl earlier
      else do
        requirePlace earlier raw
        return .inl (raw :: earlier) :
          Decode Reader (List RawSection ⊕ List RawSection)) after := by
  have decodedInContext : inContext (.frame reader.position) (RawSection.decode format) reader =
      .ok raw after := by
    simp only [inContext, decoded]
  rw [step, bind_of_ok (position_apply reader), bind_of_ok decodedInContext]

theorem step_of_custom
    (decoded : RawSection.decode format reader = .ok raw after)
    (isCustom : raw.id = .custom) :
    step format earlier reader = .ok (.inl earlier) after := by
  rw [step_of_ok decoded, if_pos isCustom, pure_apply]

/-- A section of a kind that has been seen is a duplicate. -/
theorem step_of_seen
    (decoded : RawSection.decode format reader = .ok raw after)
    (notCustom : raw.id ≠ .custom)
    (seen : ∃ other ∈ earlier, other.id = raw.id) :
    step format earlier reader = .error (.ofCause (.duplicateSection raw.id.number)) after := by
  obtain ⟨other, among, sameId⟩ := seen
  have repeats : (earlier.all fun other => other.id != raw.id) = false := by
    rw [List.all_eq_false]
    exact ⟨other, among, by simpa using sameId⟩
  have refused : requirePlace earlier raw after =
      .error (.ofCause (.duplicateSection raw.id.number)) after := by
    rw [requirePlace, repeats]
    rfl
  rw [step_of_ok decoded, if_neg notCustom, bind_of_error refused]

/-- A section of a kind that has been passed is out of order. -/
theorem step_of_passed
    (descending : earlier.Pairwise fun later raw => raw.Precedes later)
    (decoded : RawSection.decode format reader = .ok raw after)
    (notCustom : raw.id ≠ .custom)
    (unseen : ∀ other ∈ earlier, other.id ≠ raw.id)
    (passed : ∃ other ∈ earlier, raw.Precedes other) :
    step format earlier reader = .error (.ofCause (.sectionOutOfOrder raw.id.number)) after := by
  have distinct : (earlier.all fun other => other.id != raw.id) = true := by
    rw [List.all_eq_true]
    simpa using unseen
  -- the last section before this one has the greatest number of all
  have follows : (earlier.head?.all fun last => last.id.number ≤ raw.id.number) = false := by
    obtain ⟨other, among, precedes⟩ := passed
    cases earlier with
    | nil => cases among
    | cons last earlier =>
        have lastPassed : raw.Precedes last := by
          obtain rfl | among := List.mem_cons.mp among
          · exact precedes
          · exact precedes.trans (List.rel_of_pairwise_cons descending among)
        have smaller : raw.id.number.toNat < last.id.number.toNat := lastPassed
        simpa [UInt8.lt_iff_toNat_lt] using smaller
  have refused : requirePlace earlier raw after =
      .error (.ofCause (.sectionOutOfOrder raw.id.number)) after := by
    rw [requirePlace, distinct, follows]
    rfl
  rw [step_of_ok decoded, if_neg notCustom, bind_of_error refused]

/-- A section that offends ends the framing with its failure. -/
theorem step_of_offends
    {offset : Nat}
    {list : List UInt8}
    {failure : Failure}
    (descending : earlier.Pairwise fun later raw => raw.Precedes later)
    (offends : Offends format earlier offset list failure) :
    list ≠ [] ∧ ∃ after, step format earlier ⟨offset, list⟩ = .error failure after := by
  have decodes
      {raw : RawSection}
      {first rest : List UInt8}
      (parts : list = first ++ rest)
      (tile : Tile format offset raw first) :
      list ≠ [] ∧ RawSection.decode format ⟨offset, list⟩ =
        .ok raw ⟨offset + first.length, rest⟩ := by
    subst parts
    have decoded := (decode_eq_ok_iff_tile format raw ⟨offset, first ++ rest⟩
      ⟨offset + first.length, rest⟩).mpr ⟨first, tile, rfl, rfl⟩
    refine ⟨fun none => ?_, decoded⟩
    have shorter := RawSection.remaining_lt_of_decode decoded
    simp [Reader.remaining, none] at shorter
  cases offends with
  | unsplit unread noTile failed => exact ⟨unread, _, step_of_error failed⟩
  | repeated parts tile notCustom seen =>
      obtain ⟨unread, decoded⟩ := decodes parts tile
      exact ⟨unread, _, step_of_seen decoded notCustom seen⟩
  | misplaced parts tile notCustom unseen passed =>
      obtain ⟨unread, decoded⟩ := decodes parts tile
      exact ⟨unread, _, step_of_passed descending decoded notCustom unseen passed⟩

end Rounds

/-! ## All rounds -/

section Loop

variable {format : HeaderFormat} {earlier : List RawSection} {reader : Reader}

/-- The loop goes on behind a round that succeeds. -/
theorem loop_of_step
    {next : List RawSection}
    {after : Reader}
    (unread : reader.unread ≠ [])
    (stepped : step format earlier reader = .ok (.inl next) after) :
    stepUntilEnd pure (step format) earlier reader =
      stepUntilEnd pure (step format) next after := by
  rw [stepUntilEnd_apply (progresses format), if_neg (by rwa [Reader.isEnd_iff]), stepped]

/-- The rounds pass all tiles that are in order. -/
theorem loop_of_tiles
    {offset : Nat}
    {raws : List RawSection}
    {front : List UInt8}
    (rest : List UInt8)
    (tiles : Tiles format offset raws front)
    (descending :
      ((uncustom raws).reverse ++ earlier).Pairwise fun later raw => raw.Precedes later) :
    stepUntilEnd pure (step format) earlier ⟨offset, front ++ rest⟩ =
      stepUntilEnd pure (step format) ((uncustom raws).reverse ++ earlier)
        ⟨offset + front.length, rest⟩ := by
  induction tiles generalizing earlier with
  | nil => rfl
  | @cons offset raw raws first front tile tiles inductionHypothesis =>
      have decoded := (decode_eq_ok_iff_tile format raw ⟨offset, first ++ (front ++ rest)⟩
        ⟨offset + first.length, front ++ rest⟩).mpr ⟨first, tile, rfl, rfl⟩
      have shorter := RawSection.remaining_lt_of_decode decoded
      have unread : first ++ (front ++ rest) ≠ [] := by
        intro none
        simp [Reader.remaining, none] at shorter
      rw [List.append_assoc, List.length_append, ← Nat.add_assoc]
      by_cases isCustom : raw.id = .custom
      · rw [RawSection.uncustom_cons_of_custom isCustom] at descending ⊢
        rw [loop_of_step unread (step_of_custom decoded isCustom), inductionHypothesis descending]
      · rw [RawSection.uncustom_cons_of_ne isCustom, List.reverse_cons, List.append_assoc,
          List.singleton_append] at descending ⊢
        have behind := (List.pairwise_append.mp descending).2.1
        have stepped : step format earlier ⟨offset, first ++ (front ++ rest)⟩ =
            .ok (.inl (raw :: earlier)) ⟨offset + first.length, front ++ rest⟩ :=
          (step_eq_ok_iff behind.of_cons _ _ _).mpr ⟨raw, decoded, by
            rw [kept_cons_of_ne isCustom, kept_nil, List.singleton_append], by
            rwa [kept_cons_of_ne isCustom, kept_nil, List.singleton_append]⟩
        rw [loop_of_step unread stepped, inductionHypothesis descending]

theorem loop_of_end (offset : Nat) :
    stepUntilEnd pure (step format) earlier ⟨offset, []⟩ = .ok earlier ⟨offset, []⟩ := by
  rw [stepUntilEnd_apply (progresses format)]
  rfl

/-- The rounds end at a section that offends. -/
theorem loop_of_offends
    {offset : Nat}
    {list : List UInt8}
    {failure : Failure}
    (descending : earlier.Pairwise fun later raw => raw.Precedes later)
    (offends : Offends format earlier offset list failure) :
    ∃ after, stepUntilEnd pure (step format) earlier ⟨offset, list⟩ = .error failure after := by
  obtain ⟨unread, after, stepped⟩ := step_of_offends descending offends
  refine ⟨after, ?_⟩
  rw [stepUntilEnd_apply (progresses format), if_neg (by rwa [Reader.isEnd_iff]), stepped]

/-- Behind earlier sections, given last first, some bytes are tiled in order up to
their end or up to a section that offends. -/
def Tileable
    (format : HeaderFormat)
    (earlier : List RawSection)
    (offset : Nat)
    (list : List UInt8) : Prop :=
  ∃ raws front rest, list = front ++ rest ∧ Tiles format offset raws front ∧
    (((uncustom raws).reverse ++ earlier).Pairwise fun later raw => raw.Precedes later) ∧
    (rest = [] ∨ ∃ failure, Offends format ((uncustom raws).reverse ++ earlier)
      (offset + front.length) rest failure)

/-- Bytes that offend at once are tiled up to their beginning. -/
theorem Tileable.of_offends
    {offset : Nat}
    {list : List UInt8}
    {failure : Failure}
    (descending : earlier.Pairwise fun later raw => raw.Precedes later)
    (offends : Offends format earlier offset list failure) :
    Tileable format earlier offset list :=
  ⟨[], [], list, rfl, .nil, descending, .inr ⟨failure, offends⟩⟩

/-- A tile in front of what can be tiled can be tiled. -/
theorem Tileable.cons
    {offset : Nat}
    {raw : RawSection}
    {next : List RawSection}
    {first rest : List UInt8}
    (tile : Tile format offset raw first)
    (prolongs : ∀ raws, (uncustom (raw :: raws)).reverse ++ earlier =
      (uncustom raws).reverse ++ next)
    (tileable : Tileable format next (offset + first.length) rest) :
    Tileable format earlier offset (first ++ rest) := by
  obtain ⟨raws, front, behind, rfl, tiles, sorted, ends⟩ := tileable
  refine ⟨raw :: raws, first ++ front, behind, ?_, .cons tile tiles, ?_, ?_⟩
  · rw [List.append_assoc]
  · rwa [prolongs]
  · rwa [prolongs, List.length_append, ← Nat.add_assoc]

/-- Whatever the bytes are, framing gets as far as they are tiled in order. -/
theorem tileable
    (format : HeaderFormat)
    (offset : Nat)
    (list : List UInt8)
    {earlier : List RawSection}
    (descending : earlier.Pairwise fun later raw => raw.Precedes later) :
    Tileable format earlier offset list := by
  induction size : list.length using Nat.strong_induction_on
    generalizing offset list earlier with
  | _ size inductionHypothesis =>
      -- The cases are those of a round: the end, no section, a custom one, a duplicate, one out
      -- of order, and one in its place, behind which the rest is tiled in turn.
      by_cases unread : list = []
      · exact ⟨[], [], [], by simpa using unread, .nil, descending, .inl rfl⟩
      cases outcome : RawSection.decode format ⟨offset, list⟩ with
      | error failure after =>
          refine .of_offends descending
            (.unsplit unread (fun raw first rest parts tile => ?_) outcome)
          have decoded := (decode_eq_ok_iff_tile format raw ⟨offset, list⟩
            ⟨offset + first.length, rest⟩).mpr ⟨first, tile, parts, rfl⟩
          rw [outcome] at decoded
          cases decoded
      | ok raw after =>
          obtain ⟨first, tile, parts, -⟩ := (decode_eq_ok_iff_tile _ _ _ _).mp outcome
          have shorter := RawSection.remaining_lt_of_decode outcome
          obtain ⟨_, rest⟩ := after
          simp only [Reader.remaining] at parts shorter
          rw [size] at shorter
          have goesOn
              {next : List RawSection}
              (nextDescending : next.Pairwise fun later raw => raw.Precedes later)
              (prolongs : ∀ raws, (uncustom (raw :: raws)).reverse ++ earlier =
                (uncustom raws).reverse ++ next) :
              Tileable format earlier offset list := by
            rw [parts]
            exact .cons tile prolongs
              (inductionHypothesis rest.length shorter _ rest nextDescending rfl)
          by_cases isCustom : raw.id = .custom
          · exact goesOn descending fun raws => by
              rw [RawSection.uncustom_cons_of_custom isCustom]
          by_cases seen : ∃ other ∈ earlier, other.id = raw.id
          · exact .of_offends descending (.repeated parts tile isCustom seen)
          have unseen (other : RawSection) (among : other ∈ earlier) : other.id ≠ raw.id :=
            fun sameId => seen ⟨other, among, sameId⟩
          by_cases passed : ∃ other ∈ earlier, raw.Precedes other
          · exact .of_offends descending (.misplaced parts tile isCustom unseen passed)
          have precede (other : RawSection) (among : other ∈ earlier) : other.Precedes raw := by
            have notSmaller : ¬ raw.Precedes other := fun precedes =>
              passed ⟨other, among, precedes⟩
            refine Nat.lt_of_le_of_ne (Nat.le_of_not_lt notSmaller) fun sameNumber => ?_
            exact unseen other among
              (SectionId.number_injective (UInt8.toNat_inj.mp sameNumber))
          exact goesOn (List.pairwise_cons.mpr ⟨precede, descending⟩) fun raws => by
            rw [RawSection.uncustom_cons_of_ne isCustom, List.reverse_cons, List.append_assoc,
              List.singleton_append]

end Loop

/-! ## Whole binaries -/

section Binary

variable (format : HeaderFormat) (input : List UInt8)

/-- A binary that begins with the header has one, whatever follows. -/
theorem header_decode_of_bytes (rest : List UInt8) :
    Header.decode (Reader.ofBytes (Header.magicBytes ++ Header.versionBytes ++ rest)) =
      .ok Header.standard ⟨8, rest⟩ :=
  (Header.decode_eq_ok_iff _ _ _).mpr ⟨rfl, rfl, rfl⟩

/-- If the loop succeeds behind the header, its sections make the frame. -/
theorem ofBytes_of_loop
    {rest : List UInt8}
    {reversed : List RawSection}
    {after : Reader}
    (looped : stepUntilEnd pure (step format) [] ⟨8, rest⟩ = .ok reversed after) :
    ofBytes format (Header.magicBytes ++ Header.versionBytes ++ rest) =
      .ok ⟨Header.standard, reversed.reverse⟩ := by
  rw [ofBytes, outcome, attempt, decode, bind_of_ok (header_decode_of_bytes rest),
    bind_of_ok looped]
  rfl

/-- If the loop fails behind the header, so does framing. -/
theorem ofBytes_of_loop_error
    {rest : List UInt8}
    {failure : Failure}
    {after : Reader}
    (looped : stepUntilEnd pure (step format) [] ⟨8, rest⟩ = .error failure after) :
    ofBytes format (Header.magicBytes ++ Header.versionBytes ++ rest) = .error failure := by
  rw [ofBytes, outcome, attempt, decode, bind_of_ok (header_decode_of_bytes rest),
    bind_of_error looped]

/-- Without the header, nothing else is reported. -/
theorem ofBytes_of_no_header
    (noHeader : ∀ rest, input ≠ Header.magicBytes ++ Header.versionBytes ++ rest) :
    ofBytes format input = .error (.ofCause .invalidMagicOrVersion) := by
  have failed : ∃ after, Header.decode (Reader.ofBytes input) =
      .error (.ofCause .invalidMagicOrVersion) after := by
    cases outcome : Header.decode (Reader.ofBytes input) with
    | ok header after =>
        obtain ⟨-, unread, -⟩ := (Header.decode_eq_ok_iff _ _ _).mp outcome
        exact absurd unread (noHeader after.unread)
    | error failure after =>
        rw [Header.decode, failingWith] at outcome
        split at outcome
        · cases outcome
        · cases outcome
          exact ⟨_, rfl⟩
  obtain ⟨after, failed⟩ := failed
  rw [ofBytes, outcome, attempt, decode, bind_of_error failed]

variable {format}

/-- The rounds over the sections of a list start from nothing. -/
theorem descending_of_ordered
    {raws : List RawSection}
    (ordered : RawSection.Ordered raws) :
    ((uncustom raws).reverse ++ []).Pairwise fun later raw : RawSection => raw.Precedes later := by
  rw [List.append_nil]
  exact List.pairwise_reverse.mpr ordered

/-- Tiles in order behind the header make a frame. -/
theorem ofBytes_of_tiles
    {raws : List RawSection}
    {rest : List UInt8}
    (tiles : Tiles format 8 raws rest)
    (ordered : RawSection.Ordered raws) :
    ofBytes format (Header.magicBytes ++ Header.versionBytes ++ rest) =
      .ok ⟨Header.standard, uncustom raws⟩ := by
  have looped := loop_of_tiles [] tiles (descending_of_ordered ordered)
  rw [loop_of_end, List.append_nil, List.append_nil] at looped
  rw [ofBytes_of_loop format looped, List.reverse_reverse]

/-- Tiles in order up to a section that offends make its failure. -/
theorem ofBytes_of_offends
    {raws : List RawSection}
    {front rest : List UInt8}
    {failure : Failure}
    (tiles : Tiles format 8 raws front)
    (ordered : RawSection.Ordered raws)
    (offends : Offends format raws (8 + front.length) rest failure) :
    ofBytes format (Header.magicBytes ++ Header.versionBytes ++ (front ++ rest)) =
      .error failure := by
  have descending := descending_of_ordered ordered
  rw [← RawSection.offends_reverse_uncustom_iff, ← List.append_nil (uncustom raws).reverse]
    at offends
  obtain ⟨after, failed⟩ := loop_of_offends descending offends
  rw [← loop_of_tiles _ tiles descending] at failed
  exact ofBytes_of_loop_error format failed

/-- Behind a header, a binary is tiled in order up to its end or up to a section
that offends. -/
theorem exists_tiles (format : HeaderFormat) (list : List UInt8) :
    ∃ raws front rest, list = front ++ rest ∧ Tiles format 8 raws front ∧
      RawSection.Ordered raws ∧
      (rest = [] ∨ ∃ failure, Offends format raws (8 + front.length) rest failure) := by
  obtain ⟨raws, front, rest, parts, tiles, sorted, ends⟩ := tileable format 8 list .nil
  rw [List.append_nil] at sorted ends
  simp only [RawSection.offends_reverse_uncustom_iff] at ends
  exact ⟨raws, front, rest, parts, tiles, List.pairwise_reverse.mp sorted, ends⟩

/-- Where numbers increase, each occurs once. -/
theorem find?_eq_some_iff_of_pairwise
    {sections : List RawSection}
    (sorted : sections.Pairwise Precedes)
    (id : SectionId)
    (raw : RawSection) :
    (sections.find? fun raw => raw.id = id) = some raw ↔ raw ∈ sections ∧ raw.id = id := by
  constructor
  · intro found
    exact ⟨List.mem_of_find?_eq_some found, by simpa using List.find?_some found⟩
  · rintro ⟨among, rfl⟩
    induction sections with
    | nil => cases among
    | cons first rest inductionHypothesis =>
        obtain rfl | among := List.mem_cons.mp among
        · simp
        · have precedes : first.Precedes raw := List.rel_of_pairwise_cons sorted among
          have distinct : first.id ≠ raw.id := by
            intro sameId
            rw [Precedes, sameId] at precedes
            exact Nat.lt_irrefl _ precedes
          rw [List.find?_cons_of_neg (by simpa using distinct)]
          exact inductionHypothesis sorted.of_cons among

/-- The sections of a frame have been tiles in order. -/
theorem exists_tiles_of_ofBytes
    {input : List UInt8}
    {frame : Frame}
    (framed : ofBytes format input = .ok frame) :
    ∃ raws rest, input = Header.magicBytes ++ Header.versionBytes ++ rest ∧
      Tiles format 8 raws rest ∧ RawSection.Ordered raws ∧
      frame = ⟨Header.standard, uncustom raws⟩ := by
  by_cases noHeader : ∀ rest, input ≠ Header.magicBytes ++ Header.versionBytes ++ rest
  · rw [ofBytes_of_no_header format input noHeader] at framed
    cases framed
  simp only [not_forall, not_not] at noHeader
  obtain ⟨list, rfl⟩ := noHeader
  obtain ⟨raws, front, rest, rfl, tiles, ordered, rfl | ⟨failure, offends⟩⟩ :=
    exists_tiles format list
  · rw [List.append_nil] at framed ⊢
    rw [ofBytes_of_tiles tiles ordered] at framed
    cases framed
    exact ⟨raws, front, rfl, tiles, ordered, rfl⟩
  · rw [ofBytes_of_offends tiles ordered offends] at framed
    cases framed

/-- A binary without a frame has no header or a first section that offends. -/
theorem offends_of_ofBytes
    {input : List UInt8}
    {failure : Failure}
    (failed : ofBytes format input = .error failure) :
    ((∀ rest, input ≠ Header.magicBytes ++ Header.versionBytes ++ rest) ∧
      failure = .ofCause .invalidMagicOrVersion) ∨
    ∃ raws front rest, input = Header.magicBytes ++ Header.versionBytes ++ (front ++ rest) ∧
      Tiles format 8 raws front ∧ RawSection.Ordered raws ∧
      Offends format raws (8 + front.length) rest failure := by
  by_cases noHeader : ∀ rest, input ≠ Header.magicBytes ++ Header.versionBytes ++ rest
  · rw [ofBytes_of_no_header format input noHeader] at failed
    cases failed
    exact .inl ⟨noHeader, rfl⟩
  simp only [not_forall, not_not] at noHeader
  obtain ⟨list, rfl⟩ := noHeader
  obtain ⟨raws, front, rest, rfl, tiles, ordered, rfl | ⟨other, offends⟩⟩ :=
    exists_tiles format list
  · rw [List.append_nil, ofBytes_of_tiles tiles ordered] at failed
    cases failed
  · rw [ofBytes_of_offends tiles ordered offends] at failed
    cases failed
    exact .inr ⟨raws, front, rest, rfl, tiles, ordered, offends⟩

/-- A slot holds the section of its kind, if there is one. -/
theorem slot_eq_some_iff
    {raws : List RawSection}
    (ordered : RawSection.Ordered raws)
    (header : Header)
    (id : SectionId)
    (raw : RawSection) :
    slot ⟨header, uncustom raws⟩ id = some raw ↔ id ≠ .custom ∧ raw ∈ raws ∧ raw.id = id := by
  rw [slot, find?_eq_some_iff_of_pairwise ordered, RawSection.mem_uncustom_iff]
  constructor
  · rintro ⟨⟨among, notCustom⟩, rfl⟩
    exact ⟨notCustom, among, rfl⟩
  · rintro ⟨notCustom, among, rfl⟩
    exact ⟨⟨among, notCustom⟩, rfl⟩

/-- A binary has a frame if the bytes behind its header are tiled with sections in
order. Its slots then hold just the sections that are not custom. Without a frame
it has no header, or is tiled in order up to a section that offends. -/
theorem ofBytes_tiling (format : HeaderFormat) (input : List UInt8) :
    (∀ frame, ofBytes format input = .ok frame ↔
      ∃ raws rest, input = Header.magicBytes ++ Header.versionBytes ++ rest ∧
        Tiles format 8 raws rest ∧ RawSection.Ordered raws ∧
        frame = ⟨Header.standard, uncustom raws⟩ ∧
        ∀ id raw, frame.slot id = some raw ↔ id ≠ .custom ∧ raw ∈ raws ∧ raw.id = id) ∧
    ∀ failure, ofBytes format input = .error failure ↔
      ((∀ rest, input ≠ Header.magicBytes ++ Header.versionBytes ++ rest) ∧
        failure = .ofCause .invalidMagicOrVersion) ∨
      ∃ raws front rest, input = Header.magicBytes ++ Header.versionBytes ++ (front ++ rest) ∧
        Tiles format 8 raws front ∧ RawSection.Ordered raws ∧
        Offends format raws (8 + front.length) rest failure := by
  refine ⟨fun frame => ⟨fun framed => ?_, ?_⟩, fun failure => ⟨offends_of_ofBytes, ?_⟩⟩
  · obtain ⟨raws, rest, sameInput, tiles, ordered, rfl⟩ := exists_tiles_of_ofBytes framed
    exact ⟨raws, rest, sameInput, tiles, ordered, rfl, slot_eq_some_iff ordered _⟩
  · rintro ⟨raws, rest, rfl, tiles, ordered, rfl, -⟩
    exact ofBytes_of_tiles tiles ordered
  · rintro (⟨noHeader, rfl⟩ | ⟨raws, front, rest, rfl, tiles, ordered, offends⟩)
    · exact ofBytes_of_no_header format input noHeader
    · exact ofBytes_of_offends tiles ordered offends

end Binary

end Frame

end WebAssembly
