import WebAssembly.Proofs.Section

/-!
# Framing a binary

The bytes behind the header of a binary are a chain of raw sections. Framing
keeps those that are not custom and demands that their numbers increase; a scan
reports the whole chain. A chain carries some sections exactly if their layouts
span it.
-/

namespace WebAssembly

open Decode
open Layout (spans_append spans_sized)

/-! ## Headers -/

/-- A field is read from what the format lets stand for it. -/
@[simp] theorem HeaderFormat.field_eq_ok_iff
    (format : HeaderFormat)
    (value : UInt32)
    (reader after : Reader) :
    format.field reader = .ok value after ↔
      (Layout.natural format value.toNat).Spans reader after := by
  cases format with
  | leb128 => exact u32_eq_ok_iff value reader after
  | compact =>
      simp only [field, bind_eq_ok_iff, byte_eq_ok_iff, pure_eq_ok_iff, Layout.spans_bytes]
      constructor
      · rintro ⟨byte, _, passes, rfl, rfl⟩
        exact ⟨[byte], (Layout.written_compact _ _).mpr
          ⟨by simpa using byte.toNat_lt, by simp⟩, passes⟩
      · rintro ⟨_, written, passes⟩
        obtain ⟨fits, rfl⟩ := (Layout.written_compact _ _).mp written
        refine ⟨_, after, passes, ?_, rfl⟩
        apply UInt32.toNat_inj.mp
        simpa using Nat.mod_eq_of_lt fits

/-- A field that is written is read, whatever follows. -/
theorem HeaderFormat.field_of_written
    {format : HeaderFormat}
    {value : UInt32}
    {list : List UInt8}
    (written : (Layout.natural format value.toNat).Written list)
    (position : Nat)
    (rest : List UInt8) :
    format.field ⟨position, list ++ rest⟩ = .ok value ⟨position + list.length, rest⟩ :=
  (field_eq_ok_iff _ _ _ _).mpr ⟨list, written, rfl, rfl⟩

/-- The header is read from its own eight bytes only. -/
theorem Header.decode_eq_ok_iff (header : Header) (reader after : Reader) :
    decode reader = .ok header after ↔
      header = standard ∧ reader.Passes (magicBytes ++ versionBytes) after := by
  simp only [decode, failingWith_eq_ok_iff, bind_eq_ok_iff, bytes_eq_ok_iff, require_eq_ok_iff,
    pure_eq_ok_iff, Layout.spans_bytes, Bool.and_eq_true, beq_iff_eq, Reader.passes_append]
  constructor
  · rintro ⟨_, middle, ⟨-, magicPasses⟩, _, _, ⟨-, versionPasses⟩, _, _, ⟨⟨rfl, rfl⟩, rfl⟩, rfl,
      rfl⟩
    exact ⟨rfl, middle, magicPasses, versionPasses⟩
  · rintro ⟨rfl, middle, magicPasses, versionPasses⟩
    exact ⟨_, middle, ⟨rfl, magicPasses⟩, _, after, ⟨rfl, versionPasses⟩, (), after,
      ⟨⟨rfl, rfl⟩, rfl⟩, rfl, rfl⟩

/-- A byte stands for a section exactly if it is the number of this section. -/
theorem SectionId.ofNumber?_eq_some_iff (byte : UInt8) (id : SectionId) :
    ofNumber? byte = some id ↔ byte = id.number :=
  ⟨eq_code_of_find?_eq_some, fun same => same ▸ ofNumber?_number id⟩

/-! ## Raw sections -/

namespace RawSection

/-- A raw section is one that a section may have been decoded from. -/
structure Carries (raw : RawSection) (content : Section) : Prop where
  sameId : content.id = raw.id
  sameCount : content.count = raw.count.toNat
  written : content.payload.Written raw.payload.unread

/-- Custom sections carry no entries. -/
theorem Carries.id_ne_custom
    {raw : RawSection}
    {content : Section}
    (carries : raw.Carries content) :
    raw.id ≠ .custom := by
  rw [← carries.sameId]
  cases content <;> exact nofun

/-- The window of a raw section begins with an identifier and is followed by its
size. -/
theorem decode_eq_ok_iff
    (format : HeaderFormat)
    (raw : RawSection)
    (reader after : Reader) :
    decode format reader = .ok raw after ↔
      ∃ identified sized list, reader.Passes [raw.id.number] identified ∧
        (Layout.natural format raw.size.toNat).Spans identified sized ∧
        list.length = raw.size.toNat ∧ sized.Passes list after ∧
        if raw.id = .custom then raw.count = 0 ∧ raw.payload = ⟨sized.position, list⟩
        else (Layout.natural format raw.count.toNat).Spans ⟨sized.position, list⟩ raw.payload := by
  obtain ⟨id, size, count, payload⟩ := raw
  simp only [decode, bind_eq_ok_iff, byte_eq_ok_iff, requireSome_eq_ok_iff,
    SectionId.ofNumber?_eq_some_iff, HeaderFormat.field_eq_ok_iff, split_eq_ok_iff,
    Layout.spans_bytes]
  constructor
  · rintro ⟨_, identified, passes, _, _, ⟨rfl, rfl⟩, size, sized, sizeSpans, ⟨position, list⟩, _,
      ⟨rfl, same, contentPasses⟩, rest⟩
    split at rest
    · rename_i isCustom
      simp only [pure_eq_ok_iff, mk.injEq] at rest
      obtain ⟨⟨rfl, rfl, rfl, rfl⟩, rfl⟩ := rest
      refine ⟨identified, sized, list, passes, sizeSpans, same, contentPasses, ?_⟩
      rw [if_pos isCustom]
      exact ⟨rfl, rfl⟩
    · rename_i notCustom
      simp only [bind_eq_ok_iff, withinRest_eq_ok_iff, HeaderFormat.field_eq_ok_iff,
        pure_eq_ok_iff, mk.injEq] at rest
      obtain ⟨⟨count, payload⟩, _, ⟨countSpans, rfl⟩, ⟨rfl, rfl, rfl, rfl⟩, rfl⟩ := rest
      refine ⟨identified, sized, list, passes, sizeSpans, same, contentPasses, ?_⟩
      rwa [if_neg notCustom]
  · rintro ⟨identified, sized, list, passes, sizeSpans, same, contentPasses, rest⟩
    refine ⟨_, identified, passes, id, _, ⟨rfl, rfl⟩, size, sized, sizeSpans,
      ⟨sized.position, list⟩, after, ⟨rfl, same, contentPasses⟩, ?_⟩
    by_cases isCustom : id = .custom
    · rw [if_pos isCustom] at rest
      obtain ⟨rfl, rfl⟩ := rest
      rw [if_pos isCustom, pure_eq_ok_iff]
      exact ⟨rfl, rfl⟩
    · rw [if_neg isCustom] at rest
      rw [if_neg isCustom, bind_eq_ok_iff]
      exact ⟨(count, payload), after, (withinRest_eq_ok_iff _ _ _ _ _).mpr
        ⟨(HeaderFormat.field_eq_ok_iff _ _ _ _).mpr rest, rfl⟩, rfl⟩

/-- A raw section takes some bytes. -/
theorem remaining_lt_of_decode
    {format : HeaderFormat}
    {raw : RawSection}
    {reader after : Reader}
    (decoded : decode format reader = .ok raw after) :
    after.remaining < reader.remaining := by
  obtain ⟨identified, sized, list, passes, ⟨size, -, sizePasses⟩, -, contentPasses, -⟩ :=
    (decode_eq_ok_iff _ _ _ _).mp decoded
  have identifierRead := passes.remaining_eq
  have sizeRead := sizePasses.remaining_eq
  have contentRead := contentPasses.remaining_eq
  rw [List.length_singleton] at identifierRead
  omega

/-- A raw section that carries some section is read exactly from the layout of
that section. -/
theorem exists_carries_iff
    (format : HeaderFormat)
    (content : Section)
    (reader after : Reader) :
    (∃ raw, decode format reader = .ok raw after ∧ raw.Carries content) ↔
      (content.layout format).Spans reader after := by
  simp only [Section.layout, spans_append, spans_sized, Layout.spans_bytes]
  constructor
  · rintro ⟨raw, decoded, carries⟩
    obtain ⟨identified, sized, list, passes, sizeSpans, same, contentPasses, rest⟩ :=
      (decode_eq_ok_iff _ _ _ _).mp decoded
    rw [if_neg carries.id_ne_custom, ← carries.sameCount] at rest
    rw [← carries.sameId] at passes
    rw [← same] at sizeSpans
    obtain ⟨count, countWritten, countPasses⟩ := rest
    refine ⟨identified, passes, list, sized, sizeSpans, ?_, contentPasses⟩
    exact (Layout.written_append _ _ _).mpr
      ⟨count, raw.payload.unread, countPasses.1, countWritten, carries.written⟩
  · rintro ⟨identified, passes, list, sized, ⟨size, sizeWritten, sizePasses⟩, written,
      contentPasses⟩
    obtain ⟨count, payload, rfl, countWritten, payloadWritten⟩ :=
      (Layout.written_append _ _ _).mp written
    have sizeFits := UInt32.toNat_ofNat_of_lt' sizeWritten.natural_lt
    have countFits := UInt32.toNat_ofNat_of_lt' countWritten.natural_lt
    let raw : RawSection := {
      id := content.id
      size := UInt32.ofNat (count ++ payload).length
      count := UInt32.ofNat content.count
      payload := ⟨sized.position + count.length, payload⟩ }
    have carries : raw.Carries content := ⟨rfl, countFits.symm, payloadWritten⟩
    refine ⟨raw, (decode_eq_ok_iff _ _ _ _).mpr ⟨identified, sized, count ++ payload, passes,
      ⟨size, ?_, sizePasses⟩, sizeFits.symm, contentPasses, ?_⟩, carries⟩
    · rwa [sizeFits]
    · rw [if_neg carries.id_ne_custom, ← carries.sameCount]
      exact ⟨count, countWritten, rfl, rfl⟩

end RawSection

/-! ## Chains -/

/-- The raw sections that make up a window, each with the reader behind it. -/
inductive Chain (format : HeaderFormat) : Reader → List (RawSection × Reader) → Prop
  | nil {reader : Reader} (ended : reader.isEnd = true) : Chain format reader []
  | cons {reader after : Reader} {raw : RawSection} {parts : List (RawSection × Reader)}
      (decoded : RawSection.decode format reader = .ok raw after)
      (rest : Chain format after parts) :
      Chain format reader ((raw, after) :: parts)

namespace Chain

variable {format : HeaderFormat}

/-- A window is a chain that carries some sections exactly if it is written in
the layouts of these sections. -/
theorem exists_carries_iff (contents : List Section) (reader : Reader) :
    (∃ parts, Chain format reader parts ∧
        List.Forall₂ RawSection.Carries (parts.map Prod.fst) contents) ↔
      ∃ after, (Layout.all (contents.map (Section.layout format))).Spans reader after ∧
        after.unread = [] := by
  induction contents generalizing reader with
  | nil =>
      simp only [List.forall₂_nil_right_iff, List.map_eq_nil_iff, List.map_nil, Layout.all_nil,
        Layout.spans_bytes, Reader.passes_nil, exists_eq_right, exists_eq_left',
        ← Reader.isEnd_iff]
      constructor
      · rintro ⟨ended⟩
        exact ended
      · intro ended
        exact .nil ended
  | cons content contents inductionHypothesis =>
      simp only [List.map_cons, Layout.all_cons, spans_append]
      constructor
      · rintro ⟨parts, chain, carry⟩
        cases chain with
        | nil ended => cases carry
        | @cons _ middle raw parts decoded rest =>
            obtain ⟨carries, restCarry⟩ := List.forall₂_cons.mp carry
            obtain ⟨after, restSpans, finished⟩ :=
              (inductionHypothesis middle).mp ⟨parts, rest, restCarry⟩
            exact ⟨after, ⟨middle, (RawSection.exists_carries_iff _ _ _ _).mp
              ⟨raw, decoded, carries⟩, restSpans⟩, finished⟩
      · rintro ⟨after, ⟨middle, spans, restSpans⟩, finished⟩
        obtain ⟨raw, decoded, carries⟩ := (RawSection.exists_carries_iff _ _ _ _).mpr spans
        obtain ⟨parts, rest, restCarry⟩ :=
          (inductionHypothesis middle).mpr ⟨after, restSpans, finished⟩
        exact ⟨(raw, middle) :: parts, .cons decoded rest, .cons carries restCarry⟩

end Chain

/-! ## Frames -/

namespace RawSection

/-- One raw section has a smaller number than another. -/
def Precedes (raw other : RawSection) : Prop :=
  raw.id.number.toNat < other.id.number.toNat

/-- Numbers are compared transitively. -/
theorem Precedes.trans
    {first second third : RawSection}
    (firstPrecedes : first.Precedes second)
    (secondPrecedes : second.Precedes third) :
    first.Precedes third :=
  Nat.lt_trans firstPrecedes secondPrecedes

end RawSection

/-- Each kind of section has a number of its own. -/
theorem SectionId.number_injective : Function.Injective number := by
  intro id other same
  have recognized := congrArg ofNumber? same
  simpa using recognized

namespace Frame

/-- The raw sections of a chain that are not custom. -/
def kept (parts : List (RawSection × Reader)) : List RawSection :=
  (parts.map Prod.fst).filter fun raw => raw.id ≠ .custom

@[simp] theorem kept_nil : kept [] = [] := rfl

/-- What is kept of a chain is kept part by part. -/
theorem kept_cons (part : RawSection × Reader) (parts : List (RawSection × Reader)) :
    kept (part :: parts) = kept [part] ++ kept parts := by
  rw [kept, kept, kept, ← List.filter_append, ← List.map_append, List.singleton_append]

theorem kept_cons_of_custom
    {raw : RawSection}
    (isCustom : raw.id = .custom)
    (after : Reader)
    (parts : List (RawSection × Reader)) :
    kept ((raw, after) :: parts) = kept parts := by
  simp [kept, isCustom]

theorem kept_cons_of_ne
    {raw : RawSection}
    (notCustom : raw.id ≠ .custom)
    (after : Reader)
    (parts : List (RawSection × Reader)) :
    kept ((raw, after) :: parts) = raw :: kept parts := by
  simp [kept, notCustom]

theorem reverse_kept_singleton (part : RawSection × Reader) :
    (kept [part]).reverse = kept [part] := by
  by_cases isCustom : part.1.id = .custom
  · rw [kept_cons_of_custom isCustom, kept_nil, List.reverse_nil]
  · rw [kept_cons_of_ne isCustom, kept_nil, List.reverse_singleton]

theorem kept_eq_map
    {parts : List (RawSection × Reader)}
    (noCustom : ∀ part ∈ parts, part.1.id ≠ .custom) :
    kept parts = parts.map Prod.fst := by
  apply List.filter_eq_self.mpr
  intro raw among
  obtain ⟨part, partAmong, rfl⟩ := List.mem_map.mp among
  simpa using noCustom part partAmong

/-- Sections are carried by raw sections that are all kept. -/
theorem kept_eq_of_carries
    {parts : List (RawSection × Reader)}
    {contents : List Section}
    (carry : List.Forall₂ RawSection.Carries (parts.map Prod.fst) contents) :
    kept parts = parts.map Prod.fst := by
  induction parts generalizing contents with
  | nil => rfl
  | cons part parts inductionHypothesis =>
      cases carry with
      | cons carries rest =>
          rw [kept_cons_of_ne carries.id_ne_custom, inductionHypothesis rest, List.map_cons]

/-- A section has its place behind others, which are given last first, if its
number is greater than theirs. -/
theorem requirePlace_eq_ok_iff
    {earlier : List RawSection}
    (descending : earlier.Pairwise fun later raw => raw.Precedes later)
    (raw : RawSection)
    (result : Unit)
    (reader after : Reader) :
    requirePlace earlier raw reader = .ok result after ↔
      (∀ other ∈ earlier, other.Precedes raw) ∧ reader = after := by
  simp only [requirePlace, bind_eq_ok_iff, require_eq_ok_iff, List.all_eq_true, bne_iff_ne]
  constructor
  · rintro ⟨_, _, ⟨distinct, rfl⟩, follows, rfl⟩
    refine ⟨?_, rfl⟩
    cases earlier with
    | nil => simp
    | cons last earlier =>
        have lastPrecedes : last.Precedes raw := by
          have notAbove : last.id.number.toNat ≤ raw.id.number.toNat := by
            simpa [UInt8.le_iff_toNat_le] using follows
          apply Nat.lt_of_le_of_ne notAbove
          intro same
          exact distinct last (by simp) (SectionId.number_injective (UInt8.toNat_inj.mp same))
        refine List.forall_mem_cons.mpr ⟨lastPrecedes, fun other among => ?_⟩
        exact (List.rel_of_pairwise_cons descending among).trans lastPrecedes
  · rintro ⟨precede, rfl⟩
    refine ⟨(), reader, ⟨fun other among same => ?_, rfl⟩, ?_, rfl⟩
    · have smaller : other.id.number.toNat < raw.id.number.toNat := precede other among
      rw [same] at smaller
      exact Nat.lt_irrefl _ smaller
    · cases earlier with
      | nil => simp
      | cons last earlier =>
          have smaller : last.id.number.toNat < raw.id.number.toNat := precede last (by simp)
          simpa [UInt8.le_iff_toNat_le] using Nat.le_of_lt smaller

/-- A round keeps the raw section that it reads, unless it is custom, as long as
the numbers increase. -/
theorem step_eq_ok_iff
    {format : HeaderFormat}
    {earlier : List RawSection}
    (descending : earlier.Pairwise fun later raw => raw.Precedes later)
    (result : List RawSection ⊕ List RawSection)
    (reader after : Reader) :
    step format earlier reader = .ok result after ↔
      ∃ raw, RawSection.decode format reader = .ok raw after ∧
        result = .inl (kept [(raw, after)] ++ earlier) ∧
        (kept [(raw, after)] ++ earlier).Pairwise fun later raw => raw.Precedes later := by
  unfold step
  rw [position_bind_eq_ok_iff]
  simp only [bind_eq_ok_iff, inContext_eq_ok_iff]
  constructor
  · rintro ⟨raw, middle, decoded, rest⟩
    split at rest
    · rename_i isCustom
      obtain ⟨rfl, rfl⟩ := (pure_eq_ok_iff _ _ _ _).mp rest
      refine ⟨raw, decoded, ?_⟩
      rw [kept_cons_of_custom isCustom, kept_nil, List.nil_append]
      exact ⟨rfl, descending⟩
    · rename_i notCustom
      simp only [bind_eq_ok_iff, requirePlace_eq_ok_iff descending, pure_eq_ok_iff] at rest
      obtain ⟨_, _, ⟨precede, rfl⟩, rfl, rfl⟩ := rest
      refine ⟨raw, decoded, ?_⟩
      rw [kept_cons_of_ne notCustom, kept_nil, List.singleton_append]
      exact ⟨rfl, List.pairwise_cons.mpr ⟨precede, descending⟩⟩
  · rintro ⟨raw, decoded, rfl, sorted⟩
    refine ⟨raw, after, decoded, ?_⟩
    by_cases isCustom : raw.id = .custom
    · rw [if_pos isCustom, kept_cons_of_custom isCustom, pure_eq_ok_iff]
      exact ⟨rfl, rfl⟩
    · rw [kept_cons_of_ne isCustom, kept_nil, List.singleton_append] at sorted ⊢
      rw [if_neg isCustom]
      simp only [bind_eq_ok_iff, requirePlace_eq_ok_iff descending, pure_eq_ok_iff]
      exact ⟨(), after, ⟨(List.pairwise_cons.mp sorted).1, rfl⟩, trivial, rfl⟩

/-- Every round reads a raw section. -/
theorem exists_decode_of_step
    {format : HeaderFormat}
    {earlier : List RawSection}
    {result : List RawSection ⊕ List RawSection}
    {reader after : Reader}
    (stepped : step format earlier reader = .ok result after) :
    ∃ raw, RawSection.decode format reader = .ok raw after := by
  unfold step at stepped
  rw [position_bind_eq_ok_iff] at stepped
  simp only [bind_eq_ok_iff, inContext_eq_ok_iff] at stepped
  obtain ⟨raw, middle, decoded, rest⟩ := stepped
  refine ⟨raw, ?_⟩
  split at rest
  · obtain ⟨-, rfl⟩ := (pure_eq_ok_iff _ _ _ _).mp rest
    exact decoded
  · simp only [bind_eq_ok_iff, requirePlace, require_eq_ok_iff, pure_eq_ok_iff] at rest
    obtain ⟨_, _, ⟨_, _, ⟨-, rfl⟩, -, rfl⟩, -, rfl⟩ := rest
    exact decoded

/-- Every round of framing takes some bytes. -/
theorem progresses (format : HeaderFormat) : Progresses (step format) := by
  intro earlier reader next after stepped
  obtain ⟨raw, decoded⟩ := exists_decode_of_step stepped
  exact RawSection.remaining_lt_of_decode decoded

/-- The rounds follow a chain and collect what is kept of it. -/
theorem exists_chain_of_loop
    {format : HeaderFormat}
    {earlier reversed : List RawSection}
    (descending : earlier.Pairwise fun later raw => raw.Precedes later)
    {reader after : Reader}
    (looped : stepUntilEnd pure (step format) earlier reader = .ok reversed after) :
    ∃ parts, Chain format reader parts ∧ reversed = (kept parts).reverse ++ earlier ∧
      reversed.Pairwise fun later raw => raw.Precedes later := by
  -- The invariant of the rounds is that the sections so far descend.
  induction size : reader.remaining using Nat.strong_induction_on generalizing earlier reader with
  | _ size inductionHypothesis =>
      obtain ⟨ended, stopped⟩ | ⟨-, ⟨next, middle, stepped, rest⟩ | stepped⟩ :=
        (stepUntilEnd_eq_ok_iff (progresses format) _ _ _ _).mp looped
      · obtain ⟨rfl, -⟩ := (pure_eq_ok_iff _ _ _ _).mp stopped
        exact ⟨[], .nil ended, by simp, descending⟩
      · have shorter := progresses format _ _ _ _ stepped
        obtain ⟨raw, decoded, same, extended⟩ := (step_eq_ok_iff descending _ _ _).mp stepped
        cases same
        obtain ⟨parts, chain, collected, sorted⟩ :=
          inductionHypothesis middle.remaining (size ▸ shorter) extended rest rfl
        refine ⟨(raw, middle) :: parts, .cons decoded chain, ?_, sorted⟩
        rw [collected, kept_cons (raw, middle) parts, List.reverse_append, reverse_kept_singleton,
          List.append_assoc]
      · obtain ⟨raw, -, same, -⟩ := (step_eq_ok_iff descending _ _ _).mp stepped
        cases same

/-- A chain can be followed to its end, as long as the numbers increase. -/
theorem exists_loop_of_chain
    {format : HeaderFormat}
    {reader : Reader}
    {parts : List (RawSection × Reader)}
    (chain : Chain format reader parts)
    {earlier : List RawSection}
    (sorted : ((kept parts).reverse ++ earlier).Pairwise fun later raw => raw.Precedes later) :
    ∃ after, stepUntilEnd pure (step format) earlier reader =
      .ok ((kept parts).reverse ++ earlier) after := by
  induction chain generalizing earlier with
  | @nil reader ended =>
      refine ⟨reader, (stepUntilEnd_eq_ok_iff (progresses format) _ _ _ _).mpr (.inl ⟨ended, ?_⟩)⟩
      simp
  | @cons reader middle raw parts decoded rest inductionHypothesis =>
      have unread := Reader.not_isEnd_of_remaining_lt (RawSection.remaining_lt_of_decode decoded)
      rw [kept_cons (raw, middle) parts, List.reverse_append, reverse_kept_singleton,
        List.append_assoc] at sorted ⊢
      have extended := (List.pairwise_append.mp sorted).2.1
      have descending := (List.pairwise_append.mp extended).2.1
      obtain ⟨after, looped⟩ := inductionHypothesis sorted
      have stepped := (step_eq_ok_iff descending _ _ _).mpr ⟨raw, decoded, rfl, extended⟩
      exact ⟨after, (stepUntilEnd_eq_ok_iff (progresses format) _ _ _ _).mpr
        (.inr ⟨unread, .inl ⟨_, middle, stepped, looped⟩⟩)⟩

/-- A binary has a frame if it is the header and a chain whose numbers, custom
sections apart, increase. -/
theorem ofBytes_eq_ok_iff (format : HeaderFormat) (input : List UInt8) (frame : Frame) :
    ofBytes format input = .ok frame ↔
      ∃ behind parts, (Reader.ofBytes input).Passes (Header.magicBytes ++ Header.versionBytes)
          behind ∧
        Chain format behind parts ∧ frame = ⟨Header.standard, kept parts⟩ ∧
        (kept parts).Pairwise RawSection.Precedes := by
  simp only [ofBytes, outcome_eq_ok_iff, decode, bind_eq_ok_iff, Header.decode_eq_ok_iff,
    pure_eq_ok_iff]
  constructor
  · rintro ⟨after, _, behind, ⟨rfl, passes⟩, reversed, _, looped, rfl, rfl⟩
    obtain ⟨parts, chain, rfl, sorted⟩ := exists_chain_of_loop .nil looped
    rw [List.append_nil] at sorted ⊢
    exact ⟨behind, parts, passes, chain, by rw [List.reverse_reverse],
      List.pairwise_reverse.mp sorted⟩
  · rintro ⟨behind, parts, passes, chain, rfl, sorted⟩
    have descending := List.pairwise_reverse.mpr sorted
    rw [← List.append_nil (kept parts).reverse] at descending
    obtain ⟨after, looped⟩ := exists_loop_of_chain chain descending
    exact ⟨after, _, behind, ⟨rfl, passes⟩, _, after, looped, by simp, rfl⟩

end Frame

/-! ## Scans -/

namespace Scan

/-- With enough rounds, a scan follows a chain to its end. -/
theorem sectionsFrom_of_chain
    {format : HeaderFormat}
    {reader : Reader}
    {parts : List (RawSection × Reader)}
    (chain : Chain format reader parts)
    (rounds : Nat)
    (enough : reader.remaining ≤ rounds)
    (earlier : List (RawSection × Reader)) :
    sectionsFrom format rounds reader earlier = (earlier.reverse ++ parts, none) := by
  induction chain generalizing rounds earlier with
  | @nil reader ended =>
      cases rounds with
      | zero => simp [sectionsFrom]
      | succ rounds => simp [sectionsFrom, ended]
  | @cons reader middle raw parts decoded rest inductionHypothesis =>
      have shorter := RawSection.remaining_lt_of_decode decoded
      cases rounds with
      | zero => omega
      | succ rounds =>
          rw [sectionsFrom, if_neg (Reader.not_isEnd_of_remaining_lt shorter)]
          simp only [decoded]
          rw [inductionHypothesis rounds (by omega)]
          simp

/-- The scan of a binary that has a frame reports its chain. -/
theorem sections_ofBytes
    {format : HeaderFormat}
    {input : List UInt8}
    {behind : Reader}
    {parts : List (RawSection × Reader)}
    (passes : (Reader.ofBytes input).Passes (Header.magicBytes ++ Header.versionBytes) behind)
    (chain : Chain format behind parts) :
    (ofBytes format input).sections = parts := by
  have decoded := (Header.decode_eq_ok_iff _ _ _).mpr ⟨rfl, passes⟩
  simp only [ofBytes, attempt, decoded, sectionsFrom_of_chain chain _ le_rfl, List.reverse_nil,
    List.nil_append]

end Scan

end WebAssembly
