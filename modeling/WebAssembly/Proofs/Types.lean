import WebAssembly.Proofs.Decode

/-!
# Decoding types reads their layouts

Each decoder of a type accepts the layouts of the types that the format allows:
number types where values are stored, and signatures with at most one result.
-/

namespace WebAssembly

open Decode
open Layout (spans_append spans_measured)

/-- A table that is searched for a byte yields an item with that byte. -/
theorem eq_code_of_find?_eq_some
    {table : List α}
    {code : α → UInt8}
    {byte : UInt8}
    {item : α}
    (found : (table.find? fun other => code other == byte) = some item) :
    byte = code item :=
  (beq_iff_eq.mp (List.find?_some (p := fun other => code other == byte) found)).symm

theorem ValueType.ofCode?_eq_some_iff (byte : UInt8) (type : ValueType) :
    ofCode? byte = some type ↔ byte = type.code :=
  ⟨eq_code_of_find?_eq_some, fun same => same ▸ ofCode?_code type⟩

theorem ElemType.ofCode?_eq_some_iff (byte : UInt8) (type : ElemType) :
    ofCode? byte = some type ↔ byte = type.code :=
  ⟨eq_code_of_find?_eq_some, fun same => same ▸ ofCode?_code type⟩

theorem Mutability.ofCode?_eq_some_iff (byte : UInt8) (mutability : Mutability) :
    ofCode? byte = some mutability ↔ byte = mutability.code :=
  ⟨eq_code_of_find?_eq_some, fun same => same ▸ ofCode?_code mutability⟩

theorem ValueType.reads_decodeNumber :
    decodeNumber.Reads layout fun type => type.isNumber = true := by
  intro type reader after
  simp only [decodeNumber, bind_eq_ok_iff, byte_eq_ok_iff, requireSome_eq_ok_iff,
    Option.filter_eq_some_iff, ofCode?_eq_some_iff, layout]
  constructor
  · rintro ⟨code, middle, spans, ⟨rfl, number⟩, rfl⟩
    exact ⟨number, spans⟩
  · rintro ⟨number, spans⟩
    exact ⟨type.code, after, spans, ⟨rfl, number⟩, rfl⟩

/-- Params and results are numbers, and there is at most one result. -/
structure FuncType.Valid (type : FuncType) : Prop where
  params : ∀ param ∈ type.params, param.isNumber = true
  results : ∀ result ∈ type.results, result.isNumber = true
  arity : type.results.length ≤ 1

/-- A signature is read if it has at most one result. -/
theorem FuncType.reads_decode : decode.Reads layout Valid := by
  intro type reader after
  simp only [decode, sized_eq_ok_iff, bind_eq_ok_iff, byte_eq_ok_iff, require_eq_ok_iff,
    reads_counted ValueType.reads_decodeNumber _ _ _, u32_eq_ok_iff, pure_eq_ok_iff,
    times_eq_ok_iff fun _ => ValueType.reads_decodeNumber, beq_iff_eq, decide_eq_true_eq,
    layout, spans_measured, spans_append, Layout.counted, List.length_map]
  constructor
  · rintro ⟨_, ⟨_, formed, form, _, _, ⟨rfl, rfl⟩, params, _, ⟨paramsValid, paramsSpans⟩,
      count, numbered, countSpans, _, _, ⟨few, rfl⟩, results, _, ⟨size, resultsValid, resultsSpans⟩,
      rfl, rfl⟩, rfl⟩
    rw [← size] at countSpans
    rw [UInt32.le_iff_toNat_le, ← size] at few
    exact ⟨⟨paramsValid, resultsValid, few⟩,
      ⟨formed, form, _, paramsSpans, numbered, countSpans, resultsSpans⟩, rfl⟩
  · rintro ⟨⟨paramsValid, resultsValid, few⟩,
      ⟨formed, form, _, paramsSpans, numbered, countSpans, resultsSpans⟩, size⟩
    have count : (UInt32.ofNat type.results.length).toNat = type.results.length :=
      UInt32.toNat_ofNat_of_lt' (by simp only [UInt32.size]; omega)
    refine ⟨_, ⟨_, formed, form, (), _, ⟨rfl, rfl⟩, type.params, _, ⟨paramsValid, paramsSpans⟩,
      UInt32.ofNat type.results.length, numbered, ?_, (), _, ⟨?_, rfl⟩, type.results, _,
      ⟨count.symm, resultsValid, resultsSpans⟩, rfl, rfl⟩, ?_⟩
    · rwa [count]
    · rwa [UInt32.le_iff_toNat_le, count]
    · rw [size]

/-- Limits are read from their layout, with a maximum exactly if they are marked so. -/
theorem Limits.reads_decode : decode.Reads layout fun _ => True := by
  intro limits reader after
  obtain ⟨min, max, size⟩ := limits
  simp only [decode, sized_eq_ok_iff, bind_eq_ok_iff _ _ _ reader, byte_eq_ok_iff, layout,
    spans_measured, true_and]
  constructor
  · rintro ⟨build, ⟨flag, flagged, flagSpans, rest⟩, same⟩
    obtain ⟨least, bounded, minSpans, rest⟩ := (bind_eq_ok_iff _ _ _ _ _).mp rest
    rw [u32_eq_ok_iff] at minSpans
    split at rest
    · simp only [bind_eq_ok_iff, pure_eq_ok_iff] at rest
      obtain ⟨_, _, ⟨rfl, rfl⟩, rfl, rfl⟩ := rest
      cases same
      exact ⟨(spans_append _ _ _ _).mpr ⟨flagged, flagSpans, minSpans⟩, rfl⟩
    · simp only [bind_eq_ok_iff, map_eq_ok_iff, u32_eq_ok_iff, pure_eq_ok_iff] at rest
      obtain ⟨_, _, ⟨greatest, maxSpans, rfl⟩, rfl, rfl⟩ := rest
      cases same
      exact ⟨(spans_append _ _ _ _).mpr ⟨flagged, flagSpans,
        (spans_append _ _ _ _).mpr ⟨bounded, minSpans, maxSpans⟩⟩, rfl⟩
    · simp only [bind_eq_ok_iff, fail_ne_ok, false_and, exists_false] at rest
  · rintro ⟨spans, rfl⟩
    cases max with
    | none =>
        obtain ⟨flagged, flagSpans, minSpans⟩ := (spans_append _ _ _ _).mp spans
        refine ⟨_, ⟨0x00, flagged, flagSpans, ?_⟩, rfl⟩
        exact (bind_eq_ok_iff _ _ _ _ _).mpr ⟨min, after, (u32_eq_ok_iff _ _ _).mpr minSpans, rfl⟩
    | some max =>
        obtain ⟨flagged, flagSpans, rest⟩ := (spans_append _ _ _ _).mp spans
        obtain ⟨bounded, minSpans, maxSpans⟩ := (spans_append _ _ _ _).mp rest
        refine ⟨_, ⟨0x01, flagged, flagSpans, ?_⟩, rfl⟩
        refine (bind_eq_ok_iff _ _ _ _ _).mpr
          ⟨min, bounded, (u32_eq_ok_iff _ _ _).mpr minSpans, ?_⟩
        simp only [bind_eq_ok_iff, map_eq_ok_iff, u32_eq_ok_iff, pure_eq_ok_iff]
        exact ⟨_, after, ⟨max, maxSpans, rfl⟩, rfl, rfl⟩

theorem TableType.reads_decode : decode.Reads layout fun _ => True := by
  intro type reader after
  simp only [decode, sized_eq_ok_iff, bind_eq_ok_iff, byte_eq_ok_iff, requireSome_eq_ok_iff,
    ElemType.ofCode?_eq_some_iff, Limits.reads_decode _ _ _, pure_eq_ok_iff, layout,
    spans_measured, spans_append, true_and]
  constructor
  · rintro ⟨_, ⟨_, coded, codeSpans, _, _, ⟨rfl, rfl⟩, limits, _, limitsSpans, rfl, rfl⟩, rfl⟩
    exact ⟨⟨coded, codeSpans, limitsSpans⟩, rfl⟩
  · rintro ⟨⟨coded, codeSpans, limitsSpans⟩, size⟩
    refine ⟨_, ⟨_, coded, codeSpans, _, _, ⟨rfl, rfl⟩, _, _, limitsSpans, rfl, rfl⟩, ?_⟩
    rw [size]

theorem MemoryType.reads_decode : decode.Reads layout fun _ => True := by
  intro type reader after
  obtain ⟨limits, size⟩ := type
  have limitsSize (spans : limits.layout.Spans reader after) :
      after.position - reader.position = limits.size :=
    ((spans_measured _ _ _ _).mp spans).2
  simp only [decode, bind_eq_ok_iff, Limits.reads_decode _ _ _, pure_eq_ok_iff, layout,
    spans_measured _ limits.layout, MemoryType.mk.injEq, true_and]
  constructor
  · rintro ⟨_, _, spans, ⟨rfl, rfl⟩, rfl⟩
    exact ⟨spans, limitsSize spans⟩
  · rintro ⟨spans, rfl⟩
    exact ⟨limits, after, spans, ⟨rfl, (limitsSize spans).symm⟩, rfl⟩

/-- A global type is read if its content is a number. -/
theorem GlobalType.reads_decode :
    decode.Reads layout fun type => type.contentType.isNumber = true := by
  intro type reader after
  simp only [decode, sized_eq_ok_iff, bind_eq_ok_iff, byte_eq_ok_iff, requireSome_eq_ok_iff,
    ValueType.reads_decodeNumber _ _ _, Mutability.ofCode?_eq_some_iff, pure_eq_ok_iff, layout,
    spans_measured, spans_append]
  constructor
  · rintro ⟨_, ⟨_, typed, ⟨number, typeSpans⟩, _, _, flagSpans, _, _, ⟨rfl, rfl⟩, rfl, rfl⟩, rfl⟩
    exact ⟨number, ⟨typed, typeSpans, flagSpans⟩, rfl⟩
  · rintro ⟨number, ⟨typed, typeSpans, flagSpans⟩, size⟩
    refine ⟨_, ⟨_, typed, ⟨number, typeSpans⟩, _, _, flagSpans, _, _, ⟨rfl, rfl⟩, rfl, rfl⟩, ?_⟩
    rw [size]

/-- Locals of one type are read if it is a number type. -/
theorem LocalGroup.reads_decode :
    decode.Reads layout fun group => group.type.isNumber = true := by
  intro group reader after
  simp only [decode, bind_eq_ok_iff, u32_eq_ok_iff, ValueType.reads_decodeNumber _ _ _,
    pure_eq_ok_iff, layout, spans_append]
  constructor
  · rintro ⟨_, counted, countSpans, _, _, ⟨number, typeSpans⟩, rfl, rfl⟩
    exact ⟨number, counted, countSpans, typeSpans⟩
  · rintro ⟨number, counted, countSpans, typeSpans⟩
    exact ⟨_, counted, countSpans, _, _, ⟨number, typeSpans⟩, rfl, rfl⟩

end WebAssembly
