import WebAssembly.Proofs.Chaining
import WebAssembly.Proofs.Isolation

/-!
# Orderly decoding

A decoder leaves its reader further on in the same window, whether it succeeds or
not. If it fails, what its cause says is true of the window: an offset lies in it,
an opcode stands where the cause says, a number that does not end goes on to the
end of the window. `Decode.Orderly` says both at once, so that one walk through
the decoders of the format shows both.

Some causes only arise in some windows. A `Zone` is the kind of a window: only in
the code of a body can a block be left open, and only payloads and bodies must not
have anything left behind their last entry.
-/

namespace WebAssembly

/-! ## Moving on -/

namespace Reader

/-- One reader stands in the same window as another, further on or at the same
place. -/
def Leads (reader after : Reader) : Prop :=
  ∃ list, reader.Passes list after

/-- The byte at an offset that has not been read. -/
def at? (reader : Reader) (offset : Nat) : Option UInt8 :=
  if reader.position ≤ offset then reader.unread[offset - reader.position]? else none

/-- A window lies in the rest of another. -/
def Holds (reader window : Reader) : Prop :=
  ∃ front back, reader.unread = front ++ (window.unread ++ back) ∧
    window.position = reader.position + front.length

/-- An offset lies behind what has been read and not behind the end. -/
def Covers (reader : Reader) (offset : Nat) : Prop :=
  reader.position ≤ offset ∧ offset ≤ reader.limit

/-- A reader does not stand behind the end of its window. -/
theorem position_le_limit (reader : Reader) : reader.position ≤ reader.limit :=
  Nat.le_add_right _ _

/-- A reader covers the place where it stands. -/
theorem covers_position (reader : Reader) : reader.Covers reader.position :=
  ⟨le_rfl, reader.position_le_limit⟩

/-- At the end of a window there is nothing further on. -/
theorem limit_of_isEnd {reader : Reader} (ended : reader.isEnd = true) :
    reader.limit = reader.position := by
  rw [limit, remaining, (isEnd_iff reader).mp ended, List.length_nil, Nat.add_zero]

namespace Leads

variable {reader middle after : Reader}

theorem refl (reader : Reader) : reader.Leads reader :=
  ⟨[], (passes_nil _ _).mpr rfl⟩

/-- Leading is transitive. -/
theorem trans (first : reader.Leads middle) (second : middle.Leads after) :
    reader.Leads after := by
  obtain ⟨front, firstPasses⟩ := first
  obtain ⟨back, secondPasses⟩ := second
  exact ⟨front ++ back, (passes_append _ _ _ _).mpr ⟨middle, firstPasses, secondPasses⟩⟩

/-- A reader leads to where it may advance. -/
theorem of_advance {count : Nat} (available : count ≤ reader.remaining) :
    reader.Leads (reader.advance count) := by
  refine ⟨reader.unread.take count, by simp, ?_⟩
  rw [List.length_take_of_le available]
  rfl

/-- The end of the window stays where it is. -/
theorem limit_eq (leads : reader.Leads after) : after.limit = reader.limit := by
  obtain ⟨list, passes⟩ := leads
  rw [limit, limit, passes.2, passes.remaining_eq, Nat.add_assoc]

/-- A position never goes back. -/
theorem position_le (leads : reader.Leads after) : reader.position ≤ after.position := by
  obtain ⟨list, -, position⟩ := leads
  omega

/-- What is covered later has been covered before. -/
theorem covers (leads : reader.Leads after) {offset : Nat} (covers : after.Covers offset) :
    reader.Covers offset := by
  rw [Covers, leads.limit_eq] at covers
  exact ⟨leads.position_le.trans covers.1, covers.2⟩

/-- A byte that is found later has been there before. -/
theorem at?_eq_some
    (leads : reader.Leads after)
    {offset : Nat}
    {value : UInt8}
    (found : after.at? offset = some value) :
    reader.at? offset = some value := by
  obtain ⟨list, unread, position⟩ := leads
  simp only [at?, Option.ite_none_right_eq_some] at found ⊢
  obtain ⟨behind, found⟩ := found
  refine ⟨by omega, ?_⟩
  rw [unread, List.getElem?_append_right (by omega)]
  rwa [Nat.sub_sub, ← position]

end Leads

/-- Passing bytes leads onward. -/
theorem Passes.leads
    {reader after : Reader}
    {list : List UInt8}
    (passes : reader.Passes list after) :
    reader.Leads after :=
  ⟨list, passes⟩

namespace Holds

variable {reader window : Reader}

/-- A reader holds what it leads to. -/
theorem of_leads {after : Reader} (leads : reader.Leads after) : reader.Holds after := by
  obtain ⟨list, unread, position⟩ := leads
  exact ⟨list, [], by rw [unread, List.append_nil], position⟩

/-- What is split off behind some bytes of a window lies in it. -/
theorem of_split
    {middle after : Reader}
    {length : Nat}
    (leads : reader.Leads middle)
    (splits : Decode.split length middle = .ok window after) :
    reader.Holds window := by
  obtain ⟨samePosition, -, windowUnread, -⟩ := (Decode.split_eq_ok_iff _ _ _ _).mp splits
  obtain ⟨list, unread, position⟩ := leads
  exact ⟨list, after.unread, by rw [unread, windowUnread], samePosition.trans position⟩

/-- What a window of the input holds is a window of the input. -/
theorem within (holds : reader.Holds window) {input : List UInt8} (inside : reader.Within input) :
    window.Within input := by
  obtain ⟨front, back, unread, position⟩ := holds
  obtain ⟨before, behind, rfl, start⟩ := inside
  refine ⟨before ++ front, back ++ behind, by simp [unread], ?_⟩
  rw [position, start, List.length_append]

/-- What is covered inside is covered outside. -/
theorem covers (holds : reader.Holds window) {offset : Nat} (covers : window.Covers offset) :
    reader.Covers offset := by
  obtain ⟨front, back, unread, position⟩ := holds
  simp only [Covers, limit, remaining, unread, position, List.length_append] at covers ⊢
  omega

end Holds

/-- A byte of a window stands in the input. -/
theorem Within.at?_eq_some
    {window : Reader}
    {input : List UInt8}
    (inside : window.Within input)
    {offset : Nat}
    {value : UInt8}
    (found : window.at? offset = some value) :
    input[offset]? = some value := by
  obtain ⟨front, back, rfl, position⟩ := inside
  simp only [at?, Option.ite_none_right_eq_some] at found
  obtain ⟨behind, found⟩ := found
  have inRange := (List.getElem?_eq_some_iff.mp found).1
  rw [List.getElem?_append_right (by omega), ← position, List.getElem?_append_left inRange, found]

end Reader

/-! ## Causes that are true -/

/-- The kinds of windows that a binary is decoded through: all of it, the content of
a section with its count, the payload behind the count, and a function body. -/
inductive Zone
  | input
  | content
  | payload
  | body
  deriving DecidableEq

namespace Cause

/-- The offset that a cause names. -/
def offset? : Cause → Option Nat
  | .malformedVarint offset | .integerOverflow offset _ | .unexpectedEnd offset
  | .unknownOpcode _ offset | .unbalancedBlock offset | .unexpectedElse offset
  | .trailingBytes offset _ | .invalidUtf8 offset => some offset
  | _ => none

/-- What a cause states about the window that it arises in, apart from where that is:
about its zone, its limit and its bytes. -/
def States (zone : Zone) (limit : Nat) (byteAt : Nat → Option UInt8) : Cause → Prop
  | .malformedVarint offset => ∀ index, offset ≤ index → index < limit →
      ∃ byte, byteAt index = some byte ∧ 0x80 ≤ byte
  | .unknownOpcode code offset => zone = .body ∧ byteAt offset = some code
  | .unexpectedElse offset => zone = .body ∧ byteAt offset = some 0x05
  | .unbalancedBlock offset => zone = .body ∧ offset = limit
  | .trailingBytes offset count =>
      (zone = .payload ∨ zone = .body) ∧ 0 < count ∧ offset + count = limit
  | _ => True

/-- What is stated of some bytes holds where they stand. -/
theorem States.mono
    {zone : Zone}
    {limit : Nat}
    {byteAt others : Nat → Option UInt8}
    {cause : Cause}
    (states : cause.States zone limit byteAt)
    (same : ∀ offset value, byteAt offset = some value → others offset = some value) :
    cause.States zone limit others := by
  cases cause <;> simp only [States] at states ⊢
  case malformedVarint offset =>
    intro index behind before
    obtain ⟨byte, found, large⟩ := states index behind before
    exact ⟨byte, same _ _ found, large⟩
  case unknownOpcode code offset => exact ⟨states.1, same _ _ states.2⟩
  case unexpectedElse offset => exact ⟨states.1, same _ _ states.2⟩
  case unbalancedBlock offset => exact states
  case trailingBytes offset count => exact states

/-- A cause is true in a window: its offset is in there, end included, and what it
states holds. -/
structure HoldsIn (zone : Zone) (window : Reader) (cause : Cause) : Prop where
  covers : ∀ offset, cause.offset? = some offset → window.Covers offset
  statement : cause.States zone window.limit window.at?

/-- A cause without an offset holds anywhere. -/
theorem HoldsIn.of_unplaced
    {zone : Zone}
    {window : Reader}
    {cause : Cause}
    (unplaced : cause.offset? = none) :
    cause.HoldsIn zone window := by
  refine ⟨fun offset placed => ?_, ?_⟩
  · rw [unplaced] at placed
    cases placed
  · cases cause <;> trivial

/-- What is true in the rest of a window is true in the window. -/
theorem HoldsIn.of_leads
    {zone : Zone}
    {reader after : Reader}
    {cause : Cause}
    (leads : reader.Leads after)
    (holds : cause.HoldsIn zone after) :
    cause.HoldsIn zone reader := by
  refine ⟨fun offset placed => leads.covers (holds.covers offset placed), ?_⟩
  rw [← leads.limit_eq]
  exact holds.statement.mono fun offset value => leads.at?_eq_some

end Cause

namespace Decode

/-! ## Failing decoders -/

/-- A value that is only made into another is decoded alike. -/
theorem bind_pure_eq_ok_iff
    (decoder : Decode Reader α)
    (make : α → β)
    (result : β)
    (reader after : Reader) :
    (decoder >>= fun value => pure (make value)) reader = .ok result after ↔
      ∃ value, decoder reader = .ok value after ∧ make value = result := by
  rw [bind_pure_comp]
  exact map_eq_ok_iff make decoder result reader after

/-- A sequence fails with its first part or behind it. -/
theorem bind_eq_error_iff
    (decoder : Decode Reader α)
    (next : α → Decode Reader β)
    (failure : Failure)
    (reader after : Reader) :
    (decoder >>= next) reader = .error failure after ↔
      decoder reader = .error failure after ∨
        ∃ value middle, decoder reader = .ok value middle ∧
          next value middle = .error failure after := by
  cases outcome : decoder reader with
  | ok value middle => simp [bind_of_ok outcome]
  | error other middle => simp [bind_of_error outcome]

@[simp] theorem pure_ne_error (value : α) (failure : Failure) (reader after : Reader) :
    (Pure.pure value : Decode Reader α) reader ≠ .error failure after := by
  simp

/-- Making something of a value adds no failure. -/
theorem bind_pure_eq_error_iff
    (decoder : Decode Reader α)
    (make : α → β)
    (failure : Failure)
    (reader after : Reader) :
    (decoder >>= fun value => pure (make value)) reader = .error failure after ↔
      decoder reader = .error failure after := by
  simp only [bind_eq_error_iff, pure_ne_error, and_false, exists_false, or_false]

theorem require_eq_error_iff
    (condition : Bool)
    (cause : Cause)
    (failure : Failure)
    (reader after : Reader) :
    require condition cause reader = .error failure after ↔
      condition = false ∧ failure = .ofCause cause ∧ after = reader := by
  cases condition <;> simp [Decode.require, eq_comm]

theorem requireSome_eq_error_iff
    (value : Option α)
    (cause : Cause)
    (failure : Failure)
    (reader after : Reader) :
    requireSome value cause reader = .error failure after ↔
      value = none ∧ failure = .ofCause cause ∧ after = reader := by
  cases value <;> simp [Decode.requireSome, eq_comm]

theorem inContext_eq_error_iff
    (context : Context)
    (decoder : Decode Reader α)
    (failure : Failure)
    (reader after : Reader) :
    inContext context decoder reader = .error failure after ↔
      ∃ inner, decoder reader = .error inner after ∧ failure = inner.inContext context := by
  unfold inContext
  cases decoder reader <;> simp [eq_comm, and_comm]

theorem outcome_eq_error_iff (decoder : Decode Reader α) (failure : Failure) (reader : Reader) :
    outcome decoder reader = .error failure ↔
      ∃ after, decoder reader = .error failure after := by
  unfold outcome attempt
  cases decoder reader <;> simp

theorem sized_eq_error_iff
    (decoder : Decode Reader (Nat → α))
    (failure : Failure)
    (reader after : Reader) :
    sized decoder reader = .error failure after ↔ decoder reader = .error failure after := by
  simp only [sized, bind_eq_error_iff, position_apply, pure_ne_error, reduceCtorEq, and_false,
    exists_false, or_false, false_or]
  constructor
  · rintro ⟨start, _, positioned, failed⟩
    cases positioned
    exact failed
  · intro failed
    exact ⟨_, _, rfl, failed⟩

theorem withinRest_eq_error_iff
    (window : Reader)
    (decoder : Decode Reader α)
    (failure : Failure)
    (reader after : Reader) :
    withinRest window decoder reader = .error failure after ↔
      (∃ rest, decoder window = .error failure rest) ∧ after = reader := by
  unfold withinRest
  cases decoder window <;> simp [eq_comm]

theorem within_eq_error_iff
    (window : Reader)
    (decoder : Decode Reader α)
    (failure : Failure)
    (reader after : Reader) :
    within window decoder reader = .error failure after ↔
      (∃ rest, decoder window = .error failure rest) ∧ after = reader := by
  rw [within, bind_pure_eq_error_iff, withinRest_eq_error_iff]

/-! ## Orderly decoders -/

/-- From one reader, a decoder moves on in the window, and a failure of it is in no
context and true of the window. -/
def OrderlyAt (zone : Zone) (decoder : Decode Reader α) (reader : Reader) : Prop :=
  match decoder reader with
  | .ok _ after => reader.Leads after
  | .error failure after =>
      reader.Leads after ∧ failure.contexts = [] ∧ failure.cause.HoldsIn zone reader

/-- A decoder is orderly from every reader. -/
def Orderly (zone : Zone) (decoder : Decode Reader α) : Prop :=
  ∀ reader, OrderlyAt zone decoder reader

section Outcomes

variable {zone : Zone} {decoder : Decode Reader α} {reader after : Reader}

/-- A success is orderly if it leads onward. -/
theorem OrderlyAt.of_ok
    {value : α}
    (decoded : decoder reader = .ok value after)
    (leads : reader.Leads after) :
    OrderlyAt zone decoder reader := by
  rwa [OrderlyAt, decoded]

/-- A failure is orderly if it leads onward and its cause holds. -/
theorem OrderlyAt.of_error
    {cause : Cause}
    (failed : decoder reader = .error (.ofCause cause) after)
    (leads : reader.Leads after)
    (holds : cause.HoldsIn zone reader) :
    OrderlyAt zone decoder reader := by
  rw [OrderlyAt, failed]
  exact ⟨leads, rfl, holds⟩

/-- An orderly decoder leads onward if it succeeds. -/
theorem OrderlyAt.leads_of_ok
    (orderly : OrderlyAt zone decoder reader)
    {value : α}
    (decoded : decoder reader = .ok value after) :
    reader.Leads after := by
  rwa [OrderlyAt, decoded] at orderly

/-- An orderly decoder leads onward if it fails, and its cause holds. -/
theorem OrderlyAt.of_failure
    (orderly : OrderlyAt zone decoder reader)
    {failure : Failure}
    (failed : decoder reader = .error failure after) :
    reader.Leads after ∧ failure.contexts = [] ∧ failure.cause.HoldsIn zone reader := by
  rwa [OrderlyAt, failed] at orderly

/-- A decoder that goes on like an orderly one further on is orderly. -/
theorem OrderlyAt.of_eq
    {other : Decode Reader α}
    (leads : reader.Leads after)
    (orderly : OrderlyAt zone other after)
    (same : decoder reader = other after) :
    OrderlyAt zone decoder reader := by
  rw [OrderlyAt, same]
  cases ending : other after with
  | ok result final => exact leads.trans (orderly.leads_of_ok ending)
  | error failure final =>
      obtain ⟨onward, plain, holds⟩ := orderly.of_failure ending
      exact ⟨leads.trans onward, plain, holds.of_leads leads⟩

/-- What follows has to be orderly only from where the first part ends. -/
theorem OrderlyAt.bind
    {next : α → Decode Reader β}
    (first : OrderlyAt zone decoder reader)
    (rest : ∀ value after, decoder reader = .ok value after → OrderlyAt zone (next value) after) :
    OrderlyAt zone (decoder >>= next) reader := by
  cases outcome : decoder reader with
  | error failure after =>
      rw [OrderlyAt, bind_of_error outcome]
      exact first.of_failure outcome
  | ok value after =>
      exact .of_eq (first.leads_of_ok outcome) (rest value after outcome) (bind_of_ok outcome)

end Outcomes

namespace Orderly

variable {zone : Zone}

theorem pure (value : α) : Orderly zone (Pure.pure value) :=
  fun reader => .of_ok (pure_apply value reader) (.refl reader)

/-- Orderly parts make orderly sequences: what the second part is at fault for has been
in reach of the first one. -/
theorem bind
    {decoder : Decode Reader α}
    {next : α → Decode Reader β}
    (first : decoder.Orderly zone)
    (rest : ∀ value, (next value).Orderly zone) :
    (decoder >>= next).Orderly zone :=
  fun reader => .bind (first reader) fun value after _ => rest value after

theorem map
    {decoder : Decode Reader α}
    (function : α → β)
    (orderly : decoder.Orderly zone) :
    (function <$> decoder).Orderly zone := by
  rw [← bind_pure_comp]
  exact .bind orderly fun value => .pure _

/-- A cause that names no offset is true everywhere. -/
theorem fail (cause : Cause) (unplaced : cause.offset? = none) :
    (Decode.fail cause : Decode Reader α).Orderly zone :=
  fun reader => .of_error (fail_apply cause reader) (.refl reader) (.of_unplaced unplaced)

theorem require (condition : Bool) (cause : Cause) (unplaced : cause.offset? = none) :
    (Decode.require condition cause).Orderly zone := by
  cases condition with
  | true => exact .pure ()
  | false => exact .fail cause unplaced

theorem requireSome (value : Option α) (cause : Cause) (unplaced : cause.offset? = none) :
    (Decode.requireSome value cause).Orderly zone := by
  cases value with
  | some value => exact .pure value
  | none => exact .fail cause unplaced

/-! ## Primitives -/

theorem position : position.Orderly zone :=
  fun reader => .of_ok (position_apply reader) (.refl reader)

theorem isEnd : isEnd.Orderly zone :=
  fun reader => .of_ok (isEnd_apply reader) (.refl reader)

theorem peek : peek.Orderly zone :=
  fun reader => .of_ok (peek_apply reader) (.refl reader)

/-- A cause that names the position of the reader, and states no more, is true. -/
theorem holdsIn_unexpectedEnd (reader : Reader) :
    (Cause.unexpectedEnd reader.position).HoldsIn zone reader := by
  refine ⟨fun offset placed => ?_, trivial⟩
  cases placed
  exact reader.covers_position

theorem byte : byte.Orderly zone := by
  rintro ⟨position, unread⟩
  cases unread with
  | nil => exact .of_error (byte_nil position) (.refl _) (holdsIn_unexpectedEnd ⟨position, []⟩)
  | cons value rest => exact .of_ok (byte_cons position value rest) ⟨[value], rfl, rfl⟩

/-- A number is orderly if its reading function depends on no byte but its own. -/
theorem number
    {read : List UInt8 → Except Numeral.Fault (α × Nat)}
    (faithful : Numeral.Faithful read) :
    (number read).Orderly zone := by
  intro reader
  cases outcome : read reader.unread with
  | ok pair =>
      obtain ⟨value, length⟩ := pair
      exact .of_ok (number_of_ok outcome) (.of_advance (faithful.length_le _ _ _ outcome))
  | error fault =>
      refine .of_error (number_of_error outcome) (.refl reader) ⟨fun offset placed => ?_, ?_⟩
      · cases fault <;> cases placed <;> exact reader.covers_position
      · cases fault with
        | overflow width => trivial
        | truncated => trivial
        | unterminated =>
            intro index behind before
            have inRange : index - reader.position < reader.unread.length := by
              simp only [Reader.limit, Reader.remaining] at before
              omega
            refine ⟨reader.unread[index - reader.position], ?_,
              faithful.endless _ outcome _ (List.getElem_mem inRange)⟩
            rw [Reader.at?, if_pos behind, List.getElem?_eq_getElem inRange]

theorem u32 : u32.Orderly zone := number Numeral.faithful_u32

theorem i32 : i32.Orderly zone := number Numeral.faithful_i32

theorem i64 : i64.Orderly zone := number Numeral.faithful_i64

theorem f32 : f32.Orderly zone := number Numeral.faithful_f32

theorem f64 : f64.Orderly zone := number Numeral.faithful_f64

theorem split (length : Nat) : (split length).Orderly zone := by
  intro reader
  obtain available | short := le_or_gt length reader.remaining
  · exact .of_ok (split_of_le length reader available) (.of_advance available)
  · exact .of_error (split_of_lt length reader short) (.refl reader) (holdsIn_unexpectedEnd reader)

theorem bytes (length : Nat) : (bytes length).Orderly zone :=
  .bind (split length) fun _ => .pure _

/-- The bytes that form no string begin where the string was to begin. -/
theorem string (length : Nat) : (string length).Orderly zone := by
  intro reader
  refine .bind (position reader) fun start same positioned => ?_
  cases positioned
  obtain available | short := le_or_gt length reader.remaining
  · rw [OrderlyAt, bind_of_ok (bytes_of_le length reader available)]
    cases String.fromUTF8? (reader.unread.take length).toByteArray with
    | some text => exact .of_advance available
    | none =>
        refine ⟨.of_advance available, rfl, fun offset placed => ?_, trivial⟩
        cases placed
        exact reader.covers_position
  · rw [OrderlyAt, bind_of_error (bytes_of_lt length reader short)]
    exact ⟨.refl reader, rfl, holdsIn_unexpectedEnd reader⟩

/-- What is left over may only be refused in a payload or a body. -/
theorem finish (last : zone = .payload ∨ zone = .body) : finish.Orderly zone := by
  intro reader
  have outcome := finish_apply reader
  split at outcome
  · exact .of_ok outcome (.refl reader)
  · rename_i unfinished
    refine .of_error outcome (.refl reader) ⟨fun offset placed => ?_, last, ?_, rfl⟩
    · cases placed
      exact reader.covers_position
    · rw [Reader.isEnd_iff] at unfinished
      exact List.length_pos_of_ne_nil unfinished

/-! ## Combinators -/

theorem indexBelow
    (bound : UInt32)
    (cause : UInt32 → Cause)
    (unplaced : ∀ index, (cause index).offset? = none) :
    (indexBelow bound cause).Orderly zone :=
  .bind u32 fun index => .bind (.require _ _ (unplaced index)) fun _ => .pure index

theorem reservedByte : reservedByte.Orderly zone :=
  .bind byte fun _ => .require _ _ rfl

theorem sized {decoder : Decode Reader (Nat → α)} (orderly : decoder.Orderly zone) :
    (sized decoder).Orderly zone :=
  .bind position fun _ => .bind orderly fun _ => .bind position fun _ => .pure _

/-- Orderly rounds make an orderly repetition. -/
theorem timesFrom
    {decoder : Nat → Decode Reader α}
    (orderly : ∀ round, (decoder round).Orderly zone)
    (count round : Nat)
    (collected : List α) :
    (timesFrom decoder count round collected).Orderly zone := by
  induction count generalizing round collected with
  | zero => exact .pure _
  | succ count inductionHypothesis =>
      exact .bind (orderly round) fun value => inductionHypothesis (round + 1) (value :: collected)

theorem times
    {decoder : Nat → Decode Reader α}
    (count : UInt32)
    (orderly : ∀ round, (decoder round).Orderly zone) :
    (times count decoder).Orderly zone :=
  .timesFrom orderly count.toNat 0 []

theorem counted {decoder : Decode Reader α} (orderly : decoder.Orderly zone) :
    (counted decoder).Orderly zone :=
  .bind u32 fun count => .times count fun _ => orderly

theorem name : name.Orderly zone :=
  .bind u32 fun length => .string length.toNat

end Orderly

end Decode

open Decode

/-! ## Types -/

section Types

variable {zone : Zone}

theorem ValueType.orderly_decode : ValueType.decode.Orderly zone :=
  .bind .byte fun _ => .requireSome _ _ rfl

theorem ValueType.orderly_decodeNumber : ValueType.decodeNumber.Orderly zone :=
  .bind .byte fun _ => .requireSome _ _ rfl

theorem FuncType.orderly_decode : FuncType.decode.Orderly zone := by
  refine .sized (.bind .byte fun form => .bind (.require _ _ rfl) fun _ => ?_)
  refine .bind (.counted ValueType.orderly_decodeNumber) fun params => ?_
  refine .bind .u32 fun count => .bind (.require _ _ rfl) fun _ => ?_
  exact .bind (.times _ fun _ => ValueType.orderly_decodeNumber) fun _ => .pure _

theorem Limits.orderly_decode : Limits.decode.Orderly zone := by
  refine .sized (.bind .byte fun flag => .bind .u32 fun min => ?_)
  split
  · exact .bind (.pure none) fun _ => .pure _
  · exact .bind (.map some .u32) fun _ => .pure _
  · exact .bind (.fail _ rfl) fun _ => .pure _

theorem TableType.orderly_decode : TableType.decode.Orderly zone := by
  refine .sized (.bind .byte fun code => .bind (.requireSome _ _ rfl) fun elemType => ?_)
  exact .bind Limits.orderly_decode fun _ => .pure _

theorem MemoryType.orderly_decode : MemoryType.decode.Orderly zone :=
  .bind Limits.orderly_decode fun _ => .pure _

theorem GlobalType.orderly_decode : GlobalType.decode.Orderly zone := by
  refine .sized (.bind ValueType.orderly_decodeNumber fun contentType => ?_)
  exact .bind .byte fun flag => .bind (.requireSome _ _ rfl) fun _ => .pure _

theorem LocalGroup.orderly_decode : LocalGroup.decode.Orderly zone :=
  .bind .u32 fun _ => .bind ValueType.orderly_decodeNumber fun _ => .pure _

end Types

/-! ## Instructions -/

/-- A block whose type is missing is left open at the end of the body. -/
theorem BlockType.orderly_decode : BlockType.decode.Orderly .body := by
  rintro ⟨position, unread⟩
  cases unread with
  | nil =>
      refine .of_error rfl (.refl _) ⟨fun offset placed => ?_, rfl, rfl⟩
      cases placed
      exact Reader.covers_position ⟨position, []⟩
  | cons code rest =>
      refine .bind (Orderly.peek _) fun next after peeked => ?_
      rw [peek_apply] at peeked
      cases peeked
      have taken {type : BlockType} : Decode.Orderly .body (do let _ ← Decode.byte; return type) :=
        .bind .byte fun _ => .pure _
      simp only [List.head?_cons]
      split
      · contradiction
      · exact taken _
      · split
        · exact taken _
        · exact Orderly.fail _ rfl _

theorem MemoryArg.orderly_decode {zone : Zone} : MemoryArg.decode.Orderly zone :=
  .bind .u32 fun _ => .bind .u32 fun _ => .pure _

/-- Only the type of a block may be missing because a block is left open. -/
theorem Immediate.orderly_decode
    {zone : Zone}
    (space : IndexSpace)
    (kind : ImmediateKind)
    (inBody : kind = .blockType → zone = .body) :
    (Immediate.decode space kind).Orderly zone := by
  cases kind with
  | absent => exact .pure _
  | blockType =>
      obtain rfl := inBody rfl
      exact .bind BlockType.orderly_decode fun _ => .pure _
  | branchDepth => exact .bind .u32 fun _ => .pure _
  | branchTable => exact .bind (.counted .u32) fun _ => .bind .u32 fun _ => .pure _
  | functionIndex => exact .bind (.indexBelow _ _ fun _ => rfl) fun _ => .pure _
  | callIndirect =>
      exact .bind (.indexBelow _ _ fun _ => rfl) fun _ => .bind .reservedByte fun _ => .pure _
  | localIndex => exact .bind (.indexBelow _ _ fun _ => rfl) fun _ => .pure _
  | globalIndex => exact .bind (.indexBelow _ _ fun _ => rfl) fun _ => .pure _
  | memoryArg => exact .bind MemoryArg.orderly_decode fun _ => .pure _
  | memoryReserved => exact .bind .reservedByte fun _ => .pure _
  | i32 => exact .bind .i32 fun _ => .pure _
  | i64 => exact .bind .i64 fun _ => .pure _
  | f32 => exact .bind .f32 fun _ => .pure _
  | f64 => exact .bind .f64 fun _ => .pure _

/-- An unknown opcode stands where the instruction begins. -/
theorem Instruction.orderly_decode (space : IndexSpace) :
    (Instruction.decode space).Orderly .body := by
  intro reader
  refine .bind (Orderly.position _) fun start same positioned => ?_
  rw [position_apply] at positioned
  cases positioned
  obtain ⟨position, unread⟩ := reader
  cases unread with
  | nil =>
      rw [OrderlyAt, bind_of_error (byte_nil position)]
      exact ⟨.refl _, rfl, Orderly.holdsIn_unexpectedEnd ⟨position, []⟩⟩
  | cons code rest =>
      have leads : Reader.Leads ⟨position, code :: rest⟩ ⟨position + 1, rest⟩ := ⟨[code], rfl, rfl⟩
      cases known : Opcode.ofCode? code with
      | none =>
          rw [OrderlyAt, bind_of_ok (byte_cons position code rest), known]
          refine ⟨leads, rfl, fun offset placed => ?_, rfl, ?_⟩
          · cases placed
            exact Reader.covers_position ⟨position, code :: rest⟩
          · simp [Reader.at?]
      | some opcode =>
          refine .bind (Orderly.byte _) fun value after read => ?_
          cases read
          rw [known]
          refine Orderly.bind (.pure opcode) (fun opcode => ?_) _
          exact .bind (Immediate.orderly_decode space _ fun _ => rfl) fun _ => .pure _

/-- Only an `else` can be stray. -/
theorem Scope.eq_elseOp_of_effect {scopes : List Scope} {op : Opcode}
    (stray : effect scopes op = .strayElse) :
    op = .elseOp := by
  unfold effect at stray
  split at stray
  · split at stray <;> cases stray
  · rfl
  all_goals cases stray

/-- An instruction stands where it begins. -/
theorem Instruction.at?_position_of_decode
    {space : IndexSpace}
    {instruction : Instruction}
    {reader after : Reader}
    (decoded : Instruction.decode space reader = .ok instruction after) :
    reader.at? reader.position = some instruction.opcode.code := by
  obtain ⟨-, spans⟩ := (reads_decode space _ _ _).mp decoded
  obtain ⟨coded, codeSpans, -⟩ := (Layout.spans_append _ _ _ _).mp spans
  obtain ⟨unread, -⟩ := (Layout.spans_bytes _ _ _).mp codeSpans
  simp [Reader.at?, unread]

/-- A sequence is left open at the end of the window, or has a stray `else` where
the instruction that is read begins. The induction is on the unread bytes. -/
theorem OpenSequence.orderly_resume (space : IndexSpace) (sequence : OpenSequence) :
    (OpenSequence.resume space sequence).Orderly .body := by
  intro reader
  induction size : reader.remaining using Nat.strong_induction_on
    generalizing sequence reader with
  | _ size inductionHypothesis =>
      subst size
      -- Whatever fails further on is at fault in the same window, as all windows end together.
      by_cases ended : reader.isEnd = true
      · refine .of_error (resume_of_end space sequence ended) (.refl reader)
          ⟨fun offset placed => ?_, rfl, (Reader.limit_of_isEnd ended).symm⟩
        cases placed
        exact reader.covers_position
      · have orderly := Instruction.orderly_decode space reader
        cases outcome : Instruction.decode space reader with
        | error failure after =>
            rw [OrderlyAt, resume_of_error sequence ended outcome]
            exact orderly.of_failure outcome
        | ok instruction after =>
            have leads := orderly.leads_of_ok outcome
            have resumed := resume_of_ok sequence outcome
            cases effect : Scope.effect sequence.scopes instruction.opcode with
            | within scopes =>
                have rest := inductionHypothesis after.remaining
                  (Instruction.remaining_lt_of_decode outcome)
                  ⟨scopes, instruction :: sequence.reversed⟩ after rfl
                rw [effect] at resumed
                exact .of_eq leads rest resumed
            | closesSequence =>
                rw [effect] at resumed
                exact .of_ok resumed leads
            | strayElse =>
                rw [effect] at resumed
                refine .of_error resumed leads ⟨fun offset placed => ?_, rfl, ?_⟩
                · cases placed
                  exact reader.covers_position
                · rw [Instruction.at?_position_of_decode outcome, Scope.eq_elseOp_of_effect effect]
                  rfl

/-- In a sequence, a missing end is placed at the end of the window and a stray `else`
at its own byte. -/
theorem Instruction.orderly_decodeSequence (space : IndexSpace) :
    (Instruction.decodeSequence space).Orderly .body :=
  OpenSequence.orderly_resume space ⟨[], []⟩

/-- A constant expression opens no block and leaves none open. -/
theorem ConstExpr.orderly_decodeInstruction {zone : Zone} (globals : UInt32) (code : UInt8) :
    (ConstExpr.decodeInstruction globals code).Orderly zone := by
  unfold ConstExpr.decodeInstruction
  split
  · exact .bind .i32 fun _ => .pure _
  · exact .bind .i64 fun _ => .pure _
  · exact .bind .f32 fun _ => .pure _
  · exact .bind .f64 fun _ => .pure _
  · exact .bind (.indexBelow _ _ fun _ => rfl) fun _ => .pure _
  · exact .fail _ rfl

/-- A constant expression is orderly, wherever it stands. -/
theorem ConstExpr.orderly_decode {zone : Zone} (globals : UInt32) :
    (ConstExpr.decode globals).Orderly zone :=
  .sized (.bind .byte fun _ => .bind (ConstExpr.orderly_decodeInstruction _ _) fun _ =>
    .bind .byte fun _ => .bind (.require _ _ rfl) fun _ => .pure _)

/-! ## Entries of sections -/

section Entries

variable {zone : Zone} (module : Module)

theorem ImportDesc.orderly_decode : (ImportDesc.decode module).Orderly zone := by
  refine .bind .byte fun kind => ?_
  split
  · exact .bind (.requireSome _ _ rfl) fun types => .bind .u32 fun index =>
      .bind (.require _ _ rfl) fun _ => .pure _
  · exact .bind TableType.orderly_decode fun _ => .pure _
  · exact .bind MemoryType.orderly_decode fun _ => .pure _
  · exact .bind GlobalType.orderly_decode fun _ => .pure _
  · exact .fail _ rfl

theorem Import.orderly_decode : (Import.decode module).Orderly zone :=
  .sized (.bind .name fun _ => .bind .name fun _ =>
    .bind (ImportDesc.orderly_decode module) fun _ => .pure _)

theorem Section.orderly_decodeTypeIndex : (Section.decodeTypeIndex module).Orderly zone :=
  .bind (.require _ _ rfl) fun _ => .indexBelow _ _ fun _ => rfl

theorem Global.orderly_decode : (Global.decode module).Orderly zone :=
  .sized (.bind GlobalType.orderly_decode fun _ =>
    .bind (ConstExpr.orderly_decode _) fun _ => .pure _)

theorem ExportDesc.orderly_decode : (ExportDesc.decode module).Orderly zone := by
  refine .bind .byte fun kind => .bind .u32 fun index => ?_
  split
  · exact .bind (.require _ _ rfl) fun _ => .bind (.require _ _ rfl) fun _ => .pure _
  · exact .bind (.require _ _ rfl) fun _ => .pure _
  · exact .bind (.require _ _ rfl) fun _ => .pure _
  · exact .bind (.require _ _ rfl) fun _ => .pure _
  · exact .fail _ rfl

theorem Export.orderly_decode : (Export.decode module).Orderly zone :=
  .sized (.bind .name fun _ => .bind (ExportDesc.orderly_decode module) fun _ => .pure _)

theorem ElementSegment.orderly_decode : (ElementSegment.decode module).Orderly zone := by
  refine .sized (.bind .u32 fun tableIndex => .bind (.require _ _ rfl) fun _ => ?_)
  refine .bind (ConstExpr.orderly_decode _) fun offset => ?_
  exact .bind (.counted (.indexBelow _ _ fun _ => rfl)) fun _ => .pure _

theorem DataSegment.orderly_decode : (DataSegment.decode module).Orderly zone := by
  refine .sized (.bind .u32 fun memoryIndex => .bind (.require _ _ rfl) fun _ => ?_)
  refine .bind (ConstExpr.orderly_decode _) fun offset => ?_
  exact .bind .u32 fun length => .bind (.bytes _) fun _ => .pure _

end Entries

/-! ## Function bodies -/

/-- Groups of locals are orderly, whatever has been counted so far. -/
theorem Body.orderly_decodeLocals
    (count total : Nat)
    (collected : List LocalGroup) :
    (Body.decodeLocals count total collected).Orderly .body := by
  induction count generalizing total collected with
  | zero => exact .pure _
  | succ count inductionHypothesis =>
      exact .bind LocalGroup.orderly_decode fun group =>
        .bind (.require _ _ rfl) fun _ => inductionHypothesis _ _

/-- The content of a body is orderly, its last byte included. -/
theorem Body.orderly_decodeContent (space : IndexSpace) (type : FuncType) :
    (Body.decodeContent space type).Orderly .body := by
  refine .bind .u32 fun count => .bind (Body.orderly_decodeLocals _ _ _) fun read => ?_
  exact .bind (Instruction.orderly_decodeSequence _) fun code =>
    .bind (.finish (.inr rfl)) fun _ => .pure _

end WebAssembly
