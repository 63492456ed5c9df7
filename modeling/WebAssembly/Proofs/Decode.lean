import WebAssembly.Proofs.Encoding
import Mathlib.Data.List.Forall2

/-!
# Successful decoding

Exact conditions under which the primitives and combinators of decoding succeed.
A reading primitive succeeds if the unread bytes begin with the layout of its
value, and the reader then stands behind it: this is `Layout.Spans`. A decoder
composed of such parts is specified by `Decode.Reads`: it accepts the layouts of
the values that pass its checks.
-/

namespace WebAssembly

open Numeral

/-! ## Stretches of input -/

/-- One reader stands some bytes behind another. -/
def Reader.Passes (reader : Reader) (list : List UInt8) (after : Reader) : Prop :=
  reader.unread = list ++ after.unread ∧ after.position = reader.position + list.length

namespace Reader

/-- A reader passes no bytes by staying where it is. -/
@[simp] theorem passes_nil (reader after : Reader) :
    reader.Passes [] after ↔ reader = after := by
  cases reader
  cases after
  simp [Passes]
  exact ⟨fun ⟨unread, position⟩ => ⟨position.symm, unread⟩,
    fun ⟨position, unread⟩ => ⟨unread, position.symm⟩⟩

/-- Two lists are passed one after the other. -/
theorem passes_append (first second : List UInt8) (reader after : Reader) :
    reader.Passes (first ++ second) after ↔
      ∃ middle, reader.Passes first middle ∧ middle.Passes second after := by
  constructor
  · rintro ⟨unread, position⟩
    refine ⟨⟨reader.position + first.length, second ++ after.unread⟩, ⟨?_, rfl⟩, rfl, ?_⟩
    · rw [unread, List.append_assoc]
    · rw [position, List.length_append, Nat.add_assoc]
  · rintro ⟨middle, ⟨unread, position⟩, middleUnread, middlePosition⟩
    refine ⟨?_, ?_⟩
    · rw [unread, middleUnread, List.append_assoc]
    · rw [middlePosition, position, List.length_append, Nat.add_assoc]

/-- A reader passes the bytes that it begins with. -/
theorem passes_iff (list : List UInt8) (reader after : Reader) :
    reader.Passes list after ↔
      (∃ rest, reader.unread = list ++ rest) ∧ after = reader.advance list.length := by
  constructor
  · rintro ⟨unread, position⟩
    refine ⟨⟨after.unread, unread⟩, ?_⟩
    cases after
    simp only [advance, mk.injEq] at unread position ⊢
    rw [unread, List.drop_left]
    exact ⟨position, rfl⟩
  · rintro ⟨⟨rest, unread⟩, rfl⟩
    refine ⟨?_, rfl⟩
    rw [unread_advance, unread, List.drop_left]

/-- What has been passed is no longer unread. -/
theorem Passes.remaining_eq
    {list : List UInt8}
    {reader after : Reader}
    (passes : reader.Passes list after) :
    reader.remaining = list.length + after.remaining := by
  rw [remaining, passes.1, List.length_append, remaining]

/-- A reader is at its end exactly if nothing is unread. -/
theorem isEnd_iff (reader : Reader) : reader.isEnd = true ↔ reader.unread = [] := by
  simp [isEnd]

/-- A reader that has bytes left behind another is not at its end. -/
theorem not_isEnd_of_remaining_lt
    {reader after : Reader}
    (shorter : after.remaining < reader.remaining) :
    ¬ reader.isEnd = true := by
  intro ended
  simp [remaining, (isEnd_iff reader).mp ended] at shorter

end Reader

namespace Layout

/-- The bytes between two readers are written in a layout. -/
def Spans (layout : Layout) (reader after : Reader) : Prop :=
  ∃ list, layout.Written list ∧ reader.Passes list after

@[simp] theorem spans_bytes (list : List UInt8) (reader after : Reader) :
    (bytes list).Spans reader after ↔ reader.Passes list after := by
  simp [Spans]

/-- Layouts side by side are spanned one after the other. -/
@[simp] theorem spans_append (first second : Layout) (reader after : Reader) :
    (first ++ second).Spans reader after ↔
      ∃ middle, first.Spans reader middle ∧ second.Spans middle after := by
  constructor
  · rintro ⟨list, written, passes⟩
    obtain ⟨head, tail, rfl, firstWritten, secondWritten⟩ := (written_append _ _ _).mp written
    obtain ⟨middle, headPasses, tailPasses⟩ := (Reader.passes_append _ _ _ _).mp passes
    exact ⟨middle, ⟨head, firstWritten, headPasses⟩, tail, secondWritten, tailPasses⟩
  · rintro ⟨middle, ⟨head, firstWritten, headPasses⟩, tail, secondWritten, tailPasses⟩
    exact ⟨head ++ tail, (written_append _ _ _).mpr ⟨head, tail, rfl, firstWritten, secondWritten⟩,
      (Reader.passes_append _ _ _ _).mpr ⟨middle, headPasses, tailPasses⟩⟩

/-- A measured layout is spanned in as many bytes as its size says. -/
theorem spans_measured (size : Nat) (content : Layout) (reader after : Reader) :
    (measured size content).Spans reader after ↔
      content.Spans reader after ∧ after.position - reader.position = size := by
  simp only [Spans, written_measured]
  constructor
  · rintro ⟨list, ⟨rfl, written⟩, passes⟩
    refine ⟨⟨list, written, passes⟩, ?_⟩
    rw [passes.2]
    omega
  · rintro ⟨⟨list, written, passes⟩, rfl⟩
    refine ⟨list, ⟨?_, written⟩, passes⟩
    rw [passes.2]
    omega

/-- A sized layout spans its size and a window of that many bytes. -/
theorem spans_sized (format : HeaderFormat) (content : Layout) (reader after : Reader) :
    (sized format content).Spans reader after ↔
      ∃ body middle, (natural format body.length).Spans reader middle ∧
        content.Written body ∧ middle.Passes body after := by
  constructor
  · rintro ⟨list, written, passes⟩
    obtain ⟨size, body, rfl, sizeWritten, contentWritten⟩ := (written_sized _ _ _).mp written
    obtain ⟨middle, sizePasses, bodyPasses⟩ := (Reader.passes_append _ _ _ _).mp passes
    exact ⟨body, middle, ⟨size, sizeWritten, sizePasses⟩, contentWritten, bodyPasses⟩
  · rintro ⟨body, middle, ⟨size, sizeWritten, sizePasses⟩, contentWritten, bodyPasses⟩
    exact ⟨size ++ body, (written_sized _ _ _).mpr ⟨size, body, rfl, sizeWritten, contentWritten⟩,
      (Reader.passes_append _ _ _ _).mpr ⟨middle, sizePasses, bodyPasses⟩⟩

/-- What spans a whole window is written in it. -/
theorem spans_window_iff (layout : Layout) (position : Nat) (list : List UInt8) :
    (∃ after, layout.Spans ⟨position, list⟩ after ∧ after.unread = []) ↔ layout.Written list := by
  constructor
  · rintro ⟨after, ⟨front, written, unread, -⟩, finished⟩
    simp only [finished, List.append_nil] at unread
    rwa [unread]
  · intro written
    exact ⟨⟨position + list.length, []⟩, ⟨list, written, by simp, rfl⟩, rfl⟩

end Layout

namespace Decode

/-! ## Sequences and checks -/

@[simp] theorem pure_eq_ok_iff (value result : α) (reader after : Reader) :
    (pure value : Decode Reader α) reader = .ok result after ↔ value = result ∧ reader = after := by
  simp [pure_apply]

/-- A sequence succeeds exactly if both parts do, one behind the other. -/
theorem bind_eq_ok_iff
    (decoder : Decode Reader α)
    (next : α → Decode Reader β)
    (result : β)
    (reader after : Reader) :
    (decoder >>= next) reader = .ok result after ↔
      ∃ value middle, decoder reader = .ok value middle ∧ next value middle = .ok result after := by
  cases outcome : decoder reader with
  | ok value middle => simp [bind_of_ok outcome]
  | error failure middle => simp [bind_of_error outcome]

/-- A function changes the value that is read and nothing else. -/
theorem map_eq_ok_iff
    (function : α → β)
    (decoder : Decode Reader α)
    (result : β)
    (reader after : Reader) :
    (function <$> decoder) reader = .ok result after ↔
      ∃ value, decoder reader = .ok value after ∧ function value = result := by
  rw [← bind_pure_comp, bind_eq_ok_iff]
  constructor
  · rintro ⟨value, middle, decoded, returned⟩
    obtain ⟨rfl, rfl⟩ := (pure_eq_ok_iff _ _ _ _).mp returned
    exact ⟨value, decoded, rfl⟩
  · rintro ⟨value, decoded, rfl⟩
    exact ⟨value, after, decoded, rfl⟩

@[simp] theorem fail_ne_ok (cause : Cause) (result : α) (reader after : Reader) :
    (fail cause : Decode Reader α) reader ≠ .ok result after := by
  simp

@[simp] theorem require_eq_ok_iff
    (condition : Bool)
    (cause : Cause)
    (result : Unit)
    (reader after : Reader) :
    require condition cause reader = .ok result after ↔ condition = true ∧ reader = after := by
  cases condition
  · simp [require]
  · simp [require]

/-- A checked result is the result of a check that succeeds. -/
theorem require_bind_pure_eq_ok_iff
    (condition : Prop)
    [Decidable condition]
    (cause : Cause)
    (value result : α)
    (reader after : Reader) :
    (do require condition cause; return value : Decode Reader α) reader = .ok result after ↔
      condition ∧ value = result ∧ reader = after := by
  simp only [bind_eq_ok_iff, require_eq_ok_iff, pure_eq_ok_iff, decide_eq_true_eq]
  constructor
  · rintro ⟨_, _, ⟨holds, rfl⟩, same, rfl⟩
    exact ⟨holds, same, rfl⟩
  · rintro ⟨holds, same, rfl⟩
    exact ⟨(), reader, ⟨holds, rfl⟩, same, rfl⟩

@[simp] theorem requireSome_eq_ok_iff
    (value : Option α)
    (cause : Cause)
    (result : α)
    (reader after : Reader) :
    requireSome value cause reader = .ok result after ↔ value = some result ∧ reader = after := by
  cases value <;> simp [requireSome]

/-- A decoder may finish where nothing is unread. -/
@[simp] theorem finish_eq_ok_iff (result : Unit) (reader after : Reader) :
    finish reader = .ok result after ↔ reader.unread = [] ∧ reader = after := by
  rw [finish_apply, ← Reader.isEnd_iff]
  cases reader.isEnd <;> simp

/-! ## Reading -/

/-- A byte is read exactly where it stands. -/
@[simp] theorem byte_eq_ok_iff (value : UInt8) (reader after : Reader) :
    byte reader = .ok value after ↔ (Layout.bytes [value]).Spans reader after := by
  obtain ⟨position, unread⟩ := reader
  obtain ⟨afterPosition, afterUnread⟩ := after
  cases unread with
  | nil => simp [Reader.Passes]
  | cons head rest =>
      simp [Reader.Passes]
      exact ⟨fun ⟨headEq, positionEq, restEq⟩ => ⟨⟨headEq, restEq⟩, positionEq.symm⟩,
        fun ⟨⟨headEq, restEq⟩, positionEq⟩ => ⟨headEq, positionEq.symm, restEq⟩⟩

/-- A number is read in the bytes that its reading function takes. -/
theorem number_eq_ok_iff
    (read : List UInt8 → Except Fault (α × Nat))
    (value : α)
    (reader after : Reader) :
    number read reader = .ok value after ↔
      ∃ length, read reader.unread = .ok (value, length) ∧ reader.advance length = after := by
  cases outcome : read reader.unread with
  | error fault => simp [number_of_error outcome]
  | ok pair =>
      obtain ⟨number, length⟩ := pair
      simp [number_of_ok outcome]

/-- A number that cannot be read leaves the reader where it was. -/
theorem number_eq_error_iff
    (read : List UInt8 → Except Fault (α × Nat))
    (failure : Failure)
    (reader after : Reader) :
    number read reader = .error failure after ↔
      ∃ fault, read reader.unread = .error fault ∧
        .ofCause (fault.at reader.position) = failure ∧ reader = after := by
  cases outcome : read reader.unread with
  | error fault => simp [number_of_error outcome]
  | ok pair =>
      obtain ⟨number, length⟩ := pair
      simp [number_of_ok outcome]

/-- A number whose reader accepts its spellings is read from its spellings. -/
theorem number_eq_ok_iff_of_spelling
    {read : List UInt8 → Except Fault (α × Nat)}
    {layout : Layout}
    {value : α}
    (readable : ∀ list length, read list = .ok (value, length) ↔
      ∃ spelling rest, list = spelling ++ rest ∧ spelling.length = length ∧
        layout.Written spelling)
    (reader after : Reader) :
    number read reader = .ok value after ↔ layout.Spans reader after := by
  rw [number_eq_ok_iff]
  constructor
  · rintro ⟨length, accepted, rfl⟩
    obtain ⟨spelling, rest, unread, rfl, written⟩ := (readable _ _).mp accepted
    exact ⟨spelling, written, (Reader.passes_iff _ _ _).mpr ⟨⟨rest, unread⟩, rfl⟩⟩
  · rintro ⟨spelling, written, passes⟩
    obtain ⟨⟨rest, unread⟩, rfl⟩ := (Reader.passes_iff _ _ _).mp passes
    exact ⟨spelling.length, (readable _ _).mpr ⟨spelling, rest, unread, rfl, written⟩, rfl⟩

@[simp] theorem u32_eq_ok_iff (value : UInt32) (reader after : Reader) :
    u32 reader = .ok value after ↔ (Layout.natural .leb128 value.toNat).Spans reader after := by
  apply number_eq_ok_iff_of_spelling
  simp [Numeral.u32_eq_ok_iff, Layout.written_leb128, value.toNat_lt]

@[simp] theorem i32_eq_ok_iff (value : Int32) (reader after : Reader) :
    i32 reader = .ok value after ↔ (Layout.integer value.toInt).Spans reader after := by
  apply number_eq_ok_iff_of_spelling
  simp [Numeral.i32_eq_ok_iff, Layout.written_integer]

@[simp] theorem i64_eq_ok_iff (value : Int64) (reader after : Reader) :
    i64 reader = .ok value after ↔ (Layout.integer value.toInt).Spans reader after := by
  apply number_eq_ok_iff_of_spelling
  simp [Numeral.i64_eq_ok_iff, Layout.written_integer]

@[simp] theorem f32_eq_ok_iff (value : UInt32) (reader after : Reader) :
    f32 reader = .ok value after ↔
      (Layout.bytes (littleEndianBytes 4 value.toNat)).Spans reader after := by
  apply number_eq_ok_iff_of_spelling
  intro list length
  simp only [Numeral.f32_eq_ok_iff, Layout.written_bytes]
  constructor
  · rintro ⟨rfl, rest, rfl⟩
    exact ⟨_, rest, rfl, by simp, rfl⟩
  · rintro ⟨spelling, rest, rfl, rfl, rfl⟩
    exact ⟨by simp, rest, rfl⟩

@[simp] theorem f64_eq_ok_iff (value : UInt64) (reader after : Reader) :
    f64 reader = .ok value after ↔
      (Layout.bytes (littleEndianBytes 8 value.toNat)).Spans reader after := by
  apply number_eq_ok_iff_of_spelling
  intro list length
  simp only [Numeral.f64_eq_ok_iff, Layout.written_bytes]
  constructor
  · rintro ⟨rfl, rest, rfl⟩
    exact ⟨_, rest, rfl, by simp, rfl⟩
  · rintro ⟨spelling, rest, rfl, rfl, rfl⟩
    exact ⟨by simp, rest, rfl⟩

/-- A window is made of the next bytes, and the reader goes on behind them. -/
theorem split_eq_ok_iff (length : Nat) (window reader after : Reader) :
    split length reader = .ok window after ↔
      window.position = reader.position ∧ window.unread.length = length ∧
        reader.Passes window.unread after := by
  obtain ⟨windowPosition, list⟩ := window
  obtain available | short := le_or_gt length reader.remaining
  · have taken : (reader.unread.take length).length = length := by
      simpa [Reader.remaining] using available
    rw [split_of_le length reader available]
    simp only [EStateM.Result.ok.injEq, Reader.prefixWindow, Reader.mk.injEq]
    constructor
    · rintro ⟨⟨rfl, rfl⟩, rfl⟩
      refine ⟨rfl, taken, (Reader.passes_iff _ _ _).mpr ⟨⟨reader.unread.drop length, ?_⟩, ?_⟩⟩
      · simp
      · rw [taken]
    · rintro ⟨rfl, rfl, passes⟩
      obtain ⟨⟨rest, unread⟩, rfl⟩ := (Reader.passes_iff _ _ _).mp passes
      simp [unread]
  · rw [split_of_lt length reader short]
    simp only [reduceCtorEq, false_iff]
    rintro ⟨-, rfl, passes⟩
    have := passes.remaining_eq
    omega

theorem bytes_eq_ok_iff (length : Nat) (list : List UInt8) (reader after : Reader) :
    bytes length reader = .ok list after ↔
      list.length = length ∧ (Layout.bytes list).Spans reader after := by
  simp only [bytes_eq, bind_eq_ok_iff, split_eq_ok_iff, pure_eq_ok_iff, Layout.spans_bytes]
  constructor
  · rintro ⟨window, middle, ⟨-, rfl, passes⟩, rfl, rfl⟩
    exact ⟨rfl, passes⟩
  · rintro ⟨rfl, passes⟩
    exact ⟨⟨reader.position, list⟩, after, ⟨rfl, rfl, passes⟩, rfl, rfl⟩

/-- The bytes of a string are the only ones that form it. -/
theorem fromUTF8?_toByteArray_eq_some_iff (list : List UInt8) (value : String) :
    String.fromUTF8? list.toByteArray = some value ↔ list = value.toByteArray.data.toList := by
  constructor
  · intro formed
    simp only [String.fromUTF8?, Option.dite_none_right_eq_some, Option.some.injEq] at formed
    obtain ⟨valid, rfl⟩ := formed
    simp [String.fromUTF8]
  · rintro rfl
    have sameBytes : value.toByteArray.data.toList.toByteArray = value.toByteArray := by
      apply ByteArray.ext
      simp
    rw [sameBytes, String.fromUTF8?, dif_pos value.isValidUTF8]
    rfl

/-- A string is read from its bytes in UTF-8. -/
theorem string_eq_ok_iff (length : Nat) (value : String) (reader after : Reader) :
    string length reader = .ok value after ↔
      value.toByteArray.data.toList.length = length ∧
        (Layout.bytes value.toByteArray.data.toList).Spans reader after := by
  simp only [string, bind_eq_ok_iff, bytes_eq_ok_iff]
  constructor
  · rintro ⟨start, _, positioned, list, middle, ⟨rfl, spans⟩, formedText⟩
    cases positioned
    cases formed : String.fromUTF8? list.toByteArray with
    | none => simp [formed] at formedText
    | some text =>
        simp only [formed, pure_eq_ok_iff] at formedText
        obtain ⟨rfl, rfl⟩ := formedText
        obtain rfl := (fromUTF8?_toByteArray_eq_some_iff _ _).mp formed
        exact ⟨rfl, spans⟩
  · rintro ⟨rfl, spans⟩
    have formed := (fromUTF8?_toByteArray_eq_some_iff _ value).mpr rfl
    refine ⟨_, _, position_apply reader, _, after, ⟨rfl, spans⟩, ?_⟩
    simp only [formed, pure_eq_ok_iff, and_self]

/-- A name is read from its length and its bytes. -/
@[simp] theorem name_eq_ok_iff (value : String) (reader after : Reader) :
    name reader = .ok value after ↔ (Layout.text value).Spans reader after := by
  simp only [name, bind_eq_ok_iff, u32_eq_ok_iff, string_eq_ok_iff, Layout.text,
    Layout.spans_append]
  constructor
  · rintro ⟨length, middle, lengthSpans, sameLength, textSpans⟩
    rw [← sameLength] at lengthSpans
    exact ⟨middle, lengthSpans, textSpans⟩
  · rintro ⟨middle, ⟨list, written, passes⟩, textSpans⟩
    have fits := written.natural_lt
    refine ⟨UInt32.ofNat value.toByteArray.data.toList.length, middle, ?_, ?_, textSpans⟩
    · rw [UInt32.toNat_ofNat_of_lt' fits]
      exact ⟨list, written, passes⟩
    · rw [UInt32.toNat_ofNat_of_lt' fits]

/-! ## Combinators -/

@[simp] theorem inContext_eq_ok_iff
    (context : Context)
    (decoder : Decode Reader α)
    (value : α)
    (reader after : Reader) :
    inContext context decoder reader = .ok value after ↔ decoder reader = .ok value after := by
  unfold inContext
  cases decoder reader <;> simp

@[simp] theorem failingWith_eq_ok_iff
    (cause : Cause)
    (decoder : Decode Reader α)
    (value : α)
    (reader after : Reader) :
    failingWith cause decoder reader = .ok value after ↔ decoder reader = .ok value after := by
  unfold failingWith
  cases decoder reader <;> simp

/-- A window is read without moving the reader outside. -/
theorem withinRest_eq_ok_iff
    (window : Reader)
    (decoder : Decode Reader α)
    (result : α × Reader)
    (reader after : Reader) :
    withinRest window decoder reader = .ok result after ↔
      decoder window = .ok result.1 result.2 ∧ reader = after := by
  obtain ⟨value, rest⟩ := result
  unfold withinRest
  cases decoder window <;> simp

/-- What a window has left over is dropped. -/
theorem within_eq_ok_iff
    (window : Reader)
    (decoder : Decode Reader α)
    (value : α)
    (reader after : Reader) :
    within window decoder reader = .ok value after ↔
      (∃ rest, decoder window = .ok value rest) ∧ reader = after := by
  simp only [within, bind_eq_ok_iff, withinRest_eq_ok_iff, pure_eq_ok_iff]
  constructor
  · rintro ⟨⟨result, rest⟩, _, ⟨decoded, rfl⟩, rfl, rfl⟩
    exact ⟨⟨rest, decoded⟩, rfl⟩
  · rintro ⟨⟨rest, decoded⟩, rfl⟩
    exact ⟨(value, rest), _, ⟨decoded, rfl⟩, rfl, rfl⟩

/-- The outcome is a value exactly if the decoder ends with it anywhere. -/
theorem outcome_eq_ok_iff (decoder : Decode Reader α) (value : α) (reader : Reader) :
    outcome decoder reader = .ok value ↔ ∃ after, decoder reader = .ok value after := by
  unfold outcome attempt
  cases decoder reader <;> simp

/-- A size is the number of bytes between the beginning and the end. -/
theorem sized_eq_ok_iff
    (decoder : Decode Reader (Nat → α))
    (value : α)
    (reader after : Reader) :
    sized decoder reader = .ok value after ↔
      ∃ build, decoder reader = .ok build after ∧
        build (after.position - reader.position) = value := by
  simp only [sized, bind_eq_ok_iff, pure_eq_ok_iff]
  constructor
  · rintro ⟨start, _, started, build, middle, decoded, stop, _, stopped, rfl, rfl⟩
    cases started
    cases stopped
    exact ⟨build, decoded, rfl⟩
  · rintro ⟨build, decoded, rfl⟩
    exact ⟨_, _, position_apply reader, build, after, decoded, _, _, position_apply after, rfl, rfl⟩

/-- A decoder may start by asking for its position. -/
theorem position_bind_eq_ok_iff
    (next : Nat → Decode Reader β)
    (result : β)
    (reader after : Reader) :
    (position >>= next) reader = .ok result after ↔
      next reader.position reader = .ok result after := by
  rw [bind_of_ok (position_apply reader)]

/-- A decoder accepts the layouts of those values that pass its checks. -/
def Reads (decoder : Decode Reader α) (layout : α → Layout) (valid : α → Prop) : Prop :=
  ∀ value reader after,
    decoder reader = .ok value after ↔ valid value ∧ (layout value).Spans reader after

/-- Any number of 32 bits may be read. -/
theorem reads_u32 : u32.Reads Layout.word fun _ => True := by
  intro value reader after
  simp

/-- An index is read exactly if it is below its bound. -/
theorem reads_indexBelow (bound : UInt32) (cause : UInt32 → Cause) :
    (indexBelow bound cause).Reads Layout.word fun index => index < bound := by
  intro index reader after
  simp only [indexBelow, bind_eq_ok_iff, u32_eq_ok_iff, require_eq_ok_iff, pure_eq_ok_iff,
    decide_eq_true_eq]
  constructor
  · rintro ⟨_, middle, spans, _, _, ⟨below, rfl⟩, rfl, rfl⟩
    exact ⟨below, spans⟩
  · rintro ⟨below, spans⟩
    exact ⟨index, after, spans, (), after, ⟨below, rfl⟩, rfl, rfl⟩

/-- A reserved byte is zero. -/
@[simp] theorem reservedByte_eq_ok_iff (result : Unit) (reader after : Reader) :
    reservedByte reader = .ok result after ↔ (Layout.bytes [0]).Spans reader after := by
  simp only [reservedByte, bind_eq_ok_iff, byte_eq_ok_iff, require_eq_ok_iff, beq_iff_eq]
  constructor
  · rintro ⟨_, middle, spans, rfl, rfl⟩
    exact spans
  · intro spans
    exact ⟨0, after, spans, rfl, rfl⟩

section Repetition

variable {layout : α → Layout} {valid : α → Prop}

/-- The rounds collect one value each, behind those they start with. -/
theorem timesFrom_eq_ok_iff
    {decoder : Nat → Decode Reader α}
    (reads : ∀ round, (decoder round).Reads layout valid)
    (count round : Nat)
    (collected result : List α)
    (reader after : Reader) :
    timesFrom decoder count round collected reader = .ok result after ↔
      ∃ values, result = collected.reverse ++ values ∧ values.length = count ∧
        (∀ value ∈ values, valid value) ∧
          (Layout.all (values.map layout)).Spans reader after := by
  induction count generalizing round collected reader with
  | zero =>
      simp only [timesFrom, pure_eq_ok_iff, List.length_eq_zero_iff]
      constructor
      · rintro ⟨rfl, rfl⟩
        exact ⟨[], by simp, rfl, by simp, by simp⟩
      · rintro ⟨_, rfl, rfl, -, spans⟩
        simpa using spans
  | succ count inductionHypothesis =>
      simp only [timesFrom, bind_eq_ok_iff, reads round _ _ _, inductionHypothesis]
      constructor
      · rintro ⟨first, middle, ⟨firstValid, firstSpans⟩, rest, rfl, rfl, restValid, restSpans⟩
        refine ⟨first :: rest, by simp, rfl, ?_,
          (Layout.spans_append _ _ _ _).mpr ⟨middle, firstSpans, restSpans⟩⟩
        simpa using ⟨firstValid, restValid⟩
      · rintro ⟨values, rfl, size, allValid, spans⟩
        cases values with
        | nil => simp at size
        | cons first rest =>
            obtain ⟨middle, firstSpans, restSpans⟩ := (Layout.spans_append _ _ _ _).mp spans
            simp only [List.mem_cons, forall_eq_or_imp] at allValid
            exact ⟨first, middle, ⟨allValid.1, firstSpans⟩, rest, by simp,
              Nat.succ_injective size, allValid.2, restSpans⟩

/-- A number of values is read one behind the other. -/
theorem times_eq_ok_iff
    {decoder : Nat → Decode Reader α}
    (reads : ∀ round, (decoder round).Reads layout valid)
    (count : UInt32)
    (values : List α)
    (reader after : Reader) :
    times count decoder reader = .ok values after ↔
      values.length = count.toNat ∧ (∀ value ∈ values, valid value) ∧
        (Layout.all (values.map layout)).Spans reader after := by
  simp [times, timesFrom_eq_ok_iff reads]

/-- A counted list is read by its count and its entries. -/
theorem reads_counted
    {decoder : Decode Reader α}
    (reads : decoder.Reads layout valid) :
    (counted decoder).Reads (fun values => Layout.counted (values.map layout))
      fun values => ∀ value ∈ values, valid value := by
  intro values reader after
  simp only [counted, bind_eq_ok_iff, u32_eq_ok_iff, times_eq_ok_iff fun _ => reads,
    Layout.counted, Layout.spans_append, List.length_map]
  constructor
  · rintro ⟨count, middle, countSpans, size, allValid, spans⟩
    rw [← size] at countSpans
    exact ⟨allValid, middle, countSpans, spans⟩
  · rintro ⟨allValid, middle, ⟨list, written, passes⟩, spans⟩
    have fits := UInt32.toNat_ofNat_of_lt' written.natural_lt
    refine ⟨UInt32.ofNat values.length, middle, ?_, fits.symm, allValid, spans⟩
    rw [fits]
    exact ⟨list, written, passes⟩

/-- A decoder for each item of a list reads the results one after another. -/
theorem mapM_eq_ok_iff
    {function : β → Decode Reader α}
    {accepts : β → α → Prop}
    (reads : ∀ item, (function item).Reads layout (accepts item))
    (items : List β)
    (results : List α)
    (reader after : Reader) :
    items.mapM function reader = .ok results after ↔
      List.Forall₂ accepts items results ∧
        (Layout.all (results.map layout)).Spans reader after := by
  induction items generalizing results reader after with
  | nil =>
      simp only [List.mapM_nil, pure_eq_ok_iff, List.forall₂_nil_left_iff]
      constructor
      · rintro ⟨rfl, rfl⟩
        simp
      · rintro ⟨rfl, spans⟩
        simpa using spans
  | cons item items inductionHypothesis =>
      simp only [List.mapM_cons, bind_eq_ok_iff, reads item _ _ _, inductionHypothesis,
        pure_eq_ok_iff]
      constructor
      · rintro ⟨first, middle, ⟨accepted, firstSpans⟩, rest, _, ⟨restAccepted, restSpans⟩,
          rfl, rfl⟩
        exact ⟨.cons accepted restAccepted,
          (Layout.spans_append _ _ _ _).mpr ⟨middle, firstSpans, restSpans⟩⟩
      · rintro ⟨accepted, spans⟩
        cases accepted with
        | @cons _ first _ rest firstAccepted restAccepted =>
            obtain ⟨middle, firstSpans, restSpans⟩ := (Layout.spans_append _ _ _ _).mp spans
            exact ⟨first, middle, ⟨firstAccepted, firstSpans⟩, rest, after,
              ⟨restAccepted, restSpans⟩, rfl, rfl⟩

end Repetition

/-! ## Loops -/

/-- Every round of a loop that is not its last one reads something. -/
def Progresses (step : σ → Decode Reader (σ ⊕ α)) : Prop :=
  ∀ state reader next after,
    step state reader = .ok (.inl next) after → after.remaining < reader.remaining

section Loops

variable {atEnd : σ → Decode Reader α} {step : σ → Decode Reader (σ ⊕ α)}

/-- A loop that has rounds left stops at the end of the window and goes on by its step
otherwise. -/
theorem stepFor_succ (rounds : Nat) (state : σ) (reader : Reader) :
    stepFor atEnd step (rounds + 1) state reader =
      if reader.isEnd then atEnd state reader
      else
        match step state reader with
        | .ok (.inl next) after => stepFor atEnd step rounds next after
        | .ok (.inr result) after => .ok result after
        | .error failure after => .error failure after := by
  rw [stepFor, bind_of_ok (isEnd_apply reader)]
  cases reader.isEnd with
  | true => rfl
  | false =>
      cases outcome : step state reader with
      | error failure after => exact bind_of_error outcome
      | ok result after =>
          refine (bind_of_ok outcome).trans ?_
          cases result <;> rfl

/-- One round for each unread byte is enough, and more make no difference. -/
theorem stepFor_eq_of_le
    (progresses : Progresses step)
    (rounds other : Nat)
    (state : σ)
    (reader : Reader)
    (enough : reader.remaining ≤ rounds)
    (otherEnough : reader.remaining ≤ other) :
    stepFor atEnd step rounds state reader = stepFor atEnd step other state reader := by
  induction rounds generalizing other state reader with
  | zero =>
      have ended : reader.isEnd = true := by
        simpa [Reader.isEnd_iff, Reader.remaining] using enough
      cases other with
      | zero => rfl
      | succ other =>
          rw [stepFor_succ, if_pos ended]
          rfl
  | succ rounds inductionHypothesis =>
      cases other with
      | zero =>
          have ended : reader.isEnd = true := by
            simpa [Reader.isEnd_iff, Reader.remaining] using otherEnough
          rw [stepFor_succ, if_pos ended]
          rfl
      | succ other =>
          rw [stepFor_succ, stepFor_succ]
          cases outcome : step state reader with
          | error failure after => rfl
          | ok result after =>
              cases result with
              | inr result => rfl
              | inl next =>
                  have shorter := progresses _ _ _ _ outcome
                  simp only [inductionHypothesis other next after (by omega) (by omega)]

/-- A loop whose rounds make progress is its first round followed by the loop. -/
theorem stepUntilEnd_apply
    (progresses : Progresses step)
    (state : σ)
    (reader : Reader) :
    stepUntilEnd atEnd step state reader =
      if reader.isEnd then atEnd state reader
      else
        match step state reader with
        | .ok (.inl next) after => stepUntilEnd atEnd step next after
        | .ok (.inr result) after => .ok result after
        | .error failure after => .error failure after := by
  have unfolded (state : σ) (reader : Reader) :
      stepUntilEnd atEnd step state reader =
        stepFor atEnd step reader.remaining state reader := by
    rw [stepUntilEnd, bind_of_ok (remaining_apply reader)]
  rw [unfolded, stepFor_eq_of_le progresses _ (reader.remaining + 1) _ _ le_rfl
    (Nat.le_succ _), stepFor_succ]
  cases outcome : step state reader with
  | error failure after => rfl
  | ok result after =>
      cases result with
      | inr result => rfl
      | inl next =>
          have shorter := progresses _ _ _ _ outcome
          simp only [unfolded, stepFor_eq_of_le progresses reader.remaining after.remaining next
            after shorter.le le_rfl]

/-- A loop succeeds at the end of the window, or with a round and what follows
it. -/
theorem stepUntilEnd_eq_ok_iff
    (progresses : Progresses step)
    (state : σ)
    (value : α)
    (reader after : Reader) :
    stepUntilEnd atEnd step state reader = .ok value after ↔
      (reader.isEnd = true ∧ atEnd state reader = .ok value after) ∨
        (¬ reader.isEnd = true ∧
          ((∃ next middle, step state reader = .ok (.inl next) middle ∧
              stepUntilEnd atEnd step next middle = .ok value after) ∨
            step state reader = .ok (.inr value) after)) := by
  rw [stepUntilEnd_apply progresses]
  by_cases ended : reader.isEnd = true
  · simp [ended]
  · rw [if_neg ended]
    cases step state reader with
    | error failure middle => simp [ended]
    | ok result middle => cases result <;> simp [ended]

end Loops

end Decode

end WebAssembly
