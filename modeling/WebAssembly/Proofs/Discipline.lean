import WebAssembly.Proofs.Orderly

/-!
# Sessions are disciplined

Whatever a session does, in whatever order and with whatever success, its readers
stay windows of the buffer. A step moves a reader on within its window, unless it
puts the current reader onto another one, and a window that is split off holds
just the bytes that the reader before it skips. Windows split off one reader are
therefore disjoint and in order, however many steps are in between.

Readers are identified by their slot in the stack, counted from the bottom, so
that a reader keeps its slot while others come and go above it.
-/

namespace WebAssembly

open Decode

/-! ## Readings -/

/-- Every reading moves the reader on within its window. -/
theorem Reading.orderly_decode (reading : Reading) : reading.decode.Orderly .body := by
  have item
      {α : Type}
      {decoder : Decode Reader α}
      (orderly : decoder.Orderly .body)
      (make : α → Item) :
      (decoder >>= fun value => pure (make value)).Orderly .body :=
    .bind orderly fun _ => .pure _
  cases reading with
  | isEnd => exact item .isEnd .flag
  | peek => exact item .peek .next
  | finish => exact item (.finish (.inr rfl)) fun _ => .nothing
  | byte => exact item .byte .byte
  | u32 => exact item .u32 .u32
  | i32 => exact item .i32 .i32
  | i64 => exact item .i64 .i64
  | f32 => exact item .f32 .f32
  | f64 => exact item .f64 .f64
  | bytes length => exact item (.bytes length) .bytes
  | string length => exact item (.string length) .string
  | valueType => exact item ValueType.orderly_decode .valueType
  | numberType => exact item ValueType.orderly_decodeNumber .valueType
  | funcType => exact item FuncType.orderly_decode .funcType
  | limits => exact item Limits.orderly_decode .limits
  | tableType => exact item TableType.orderly_decode .tableType
  | memoryType => exact item MemoryType.orderly_decode .memoryType
  | globalType => exact item GlobalType.orderly_decode .globalType
  | localGroup => exact item LocalGroup.orderly_decode .localGroup
  | constExpr globals => exact item (ConstExpr.orderly_decode globals) .constExpr
  | instruction space => exact item (Instruction.orderly_decode space) .instruction
  | instructions space => exact item (Instruction.orderly_decodeSequence space) .instructions

/-- What a decoder leaves behind is further on in the same window, also if it fails. -/
theorem Decode.Orderly.leads_attempt
    {zone : Zone}
    {decoder : Decode Reader α}
    (orderly : decoder.Orderly zone)
    (reader : Reader) :
    reader.Leads (attempt decoder reader).2 := by
  unfold attempt
  cases outcome : decoder reader with
  | ok value after => exact (orderly reader).leads_of_ok outcome
  | error failure after => exact ((orderly reader).of_failure outcome).1

namespace Reading

/-- The readings that do not consist of others. -/
def isPrimitive : Reading → Bool
  | .isEnd | .peek | .finish | .byte | .u32 | .i32 | .i64 | .f32 | .f64 | .bytes _
  | .string _ => true
  | _ => false

/-- What a primitive has read when it yields an item: the bytes that it returns, or
the whole group that spells an integer, and nothing else. -/
def HasRead (reader after : Reader) : Reading → Item → Prop
  | .isEnd, .flag value => value = reader.isEnd ∧ after = reader
  | .peek, .next value => value = reader.unread.head? ∧ after = reader
  | .finish, .nothing => reader.unread = [] ∧ after = reader
  | .byte, .byte value => reader.Passes [value] after
  | .u32, .u32 _ | .i32, .i32 _ | .i64, .i64 _ =>
      ∃ last, Numeral.groupEnd? reader.unread = some last ∧ after = reader.advance (last + 1)
  | .f32, .f32 bits => reader.Passes (Numeral.littleEndianBytes 4 bits.toNat) after
  | .f64, .f64 bits => reader.Passes (Numeral.littleEndianBytes 8 bits.toNat) after
  | .bytes length, .bytes list => list.length = length ∧ reader.Passes list after
  | .string length, .string text =>
      text.utf8ByteSize = length ∧ reader.Passes text.toByteArray.data.toList after
  | _, _ => False

/-- Where a primitive that fails leaves the reader: behind the bytes that form no
string, and else where it was. -/
def FailsTo (reader after : Reader) (cause : Cause) : Reading → Prop
  | .string length =>
      if cause = .invalidUtf8 reader.position then
        length ≤ reader.remaining ∧ after = reader.advance length
      else after = reader
  | _ => after = reader

end Reading

/-- A number that is spelled by a group takes up the group. -/
theorem Decode.exists_groupEnd?_of_number
    {read : List UInt8 → Except Numeral.Fault (α × Nat)}
    (groups : ∀ bytes value length, read bytes = .ok (value, length) →
      ∃ spelling rest, bytes = spelling ++ rest ∧ spelling.length = length ∧
        Numeral.IsGroup spelling)
    {value : α}
    {reader after : Reader}
    (decoded : number read reader = .ok value after) :
    ∃ last, Numeral.groupEnd? reader.unread = some last ∧ after = reader.advance (last + 1) := by
  obtain ⟨length, readable, rfl⟩ := (number_eq_ok_iff _ _ _ _).mp decoded
  obtain ⟨spelling, rest, unread, rfl, isGroup⟩ := groups _ _ _ readable
  have positive := isGroup.length_pos
  refine ⟨spelling.length - 1, (Numeral.groupEnd?_eq_some_iff _ _).mpr ⟨?_, ?_⟩, ?_⟩
  · rwa [unread, Nat.sub_add_cancel positive, List.take_left]
  · rw [unread, List.length_append]
    omega
  · rw [Nat.sub_add_cancel positive]

/-- A primitive that succeeds has read what its item says. -/
theorem Reading.hasRead_of_ok
    {reading : Reading}
    (primitive : reading.isPrimitive = true)
    {item : Item}
    {reader after : Reader}
    (decoded : reading.decode reader = .ok item after) :
    reading.HasRead reader after item := by
  cases reading with
  | isEnd =>
      cases decoded
      exact ⟨rfl, rfl⟩
  | peek =>
      cases decoded
      exact ⟨rfl, rfl⟩
  | finish =>
      obtain ⟨_, read, rfl⟩ := (bind_pure_eq_ok_iff _ _ _ _ _).mp decoded
      obtain ⟨used, rfl⟩ := (finish_eq_ok_iff _ _ _).mp read
      exact ⟨used, rfl⟩
  | byte =>
      obtain ⟨value, read, rfl⟩ := (bind_pure_eq_ok_iff _ _ _ _ _).mp decoded
      exact (Layout.spans_bytes _ _ _).mp ((byte_eq_ok_iff _ _ _).mp read)
  | u32 =>
      obtain ⟨value, read, rfl⟩ := (bind_pure_eq_ok_iff _ _ _ _ _).mp decoded
      refine exists_groupEnd?_of_number (fun bytes value length read => ?_) read
      obtain ⟨spelling, rest, unread, size, spells⟩ := (Numeral.u32_eq_ok_iff _ _ _).mp read
      exact ⟨spelling, rest, unread, size, spells.1⟩
  | i32 =>
      obtain ⟨value, read, rfl⟩ := (bind_pure_eq_ok_iff _ _ _ _ _).mp decoded
      refine exists_groupEnd?_of_number (fun bytes value length read => ?_) read
      obtain ⟨spelling, rest, unread, size, spells⟩ := (Numeral.i32_eq_ok_iff _ _ _).mp read
      exact ⟨spelling, rest, unread, size, spells.1⟩
  | i64 =>
      obtain ⟨value, read, rfl⟩ := (bind_pure_eq_ok_iff _ _ _ _ _).mp decoded
      refine exists_groupEnd?_of_number (fun bytes value length read => ?_) read
      obtain ⟨spelling, rest, unread, size, spells⟩ := (Numeral.i64_eq_ok_iff _ _ _).mp read
      exact ⟨spelling, rest, unread, size, spells.1⟩
  | f32 =>
      obtain ⟨value, read, rfl⟩ := (bind_pure_eq_ok_iff _ _ _ _ _).mp decoded
      exact (Layout.spans_bytes _ _ _).mp ((f32_eq_ok_iff _ _ _).mp read)
  | f64 =>
      obtain ⟨value, read, rfl⟩ := (bind_pure_eq_ok_iff _ _ _ _ _).mp decoded
      exact (Layout.spans_bytes _ _ _).mp ((f64_eq_ok_iff _ _ _).mp read)
  | bytes length =>
      obtain ⟨value, read, rfl⟩ := (bind_pure_eq_ok_iff _ _ _ _ _).mp decoded
      obtain ⟨size, spans⟩ := (bytes_eq_ok_iff _ _ _ _).mp read
      exact ⟨size, (Layout.spans_bytes _ _ _).mp spans⟩
  | string length =>
      obtain ⟨value, read, rfl⟩ := (bind_pure_eq_ok_iff _ _ _ _ _).mp decoded
      obtain ⟨size, spans⟩ := (string_eq_ok_iff _ _ _ _).mp read
      exact ⟨size, (Layout.spans_bytes _ _ _).mp spans⟩
  | _ => cases primitive

/-- A number that cannot be read leaves the reader where it was. -/
theorem Decode.eq_of_number_eq_error
    {read : List UInt8 → Except Numeral.Fault (α × Nat)}
    {failure : Failure}
    {reader after : Reader}
    (failed : number read reader = .error failure after) :
    after = reader := by
  obtain ⟨_, -, -, rfl⟩ := (number_eq_error_iff _ _ _ _).mp failed
  rfl

/-- Bytes that are not there leave the reader where it was. -/
theorem Decode.eq_of_bytes_eq_error
    {length : Nat}
    {failure : Failure}
    {reader after : Reader}
    (failed : bytes length reader = .error failure after) :
    failure = .ofCause (.unexpectedEnd reader.position) ∧ after = reader := by
  obtain available | short := le_or_gt length reader.remaining
  · rw [bytes_of_le length reader available] at failed
    cases failed
  · rw [bytes_of_lt length reader short] at failed
    cases failed
    exact ⟨rfl, rfl⟩

/-- Bytes that form no string are read, too few bytes are not. -/
theorem Decode.after_of_string_eq_error
    {length : Nat}
    {failure : Failure}
    {reader after : Reader}
    (failed : string length reader = .error failure after) :
    (failure = .ofCause (.invalidUtf8 reader.position) ∧ length ≤ reader.remaining ∧
        after = reader.advance length) ∨
      (failure = .ofCause (.unexpectedEnd reader.position) ∧ after = reader) := by
  unfold string at failed
  rw [bind_of_ok (position_apply reader)] at failed
  obtain failed | ⟨list, middle, read, failed⟩ := (bind_eq_error_iff _ _ _ _ _).mp failed
  · exact .inr (eq_of_bytes_eq_error failed)
  · obtain available | short := le_or_gt length reader.remaining
    · rw [bytes_of_le length reader available] at read
      cases read
      cases formed : String.fromUTF8? (reader.unread.take length).toByteArray with
      | some text =>
          simp only [formed] at failed
          cases failed
      | none =>
          simp only [formed] at failed
          cases failed
          exact .inl ⟨rfl, available, rfl⟩
    · rw [bytes_of_lt length reader short] at read
      cases read

/-- A primitive that fails leaves the reader as its cause tells. -/
theorem Reading.failsTo_of_error
    {reading : Reading}
    (primitive : reading.isPrimitive = true)
    {failure : Failure}
    {reader after : Reader}
    (failed : reading.decode reader = .error failure after) :
    reading.FailsTo reader after failure.cause := by
  cases reading with
  | isEnd => cases failed
  | peek => cases failed
  | finish =>
      have outcome := (bind_pure_eq_error_iff _ (fun _ => Item.nothing) _ _ _).mp failed
      rw [finish_apply] at outcome
      split at outcome <;> cases outcome
      rfl
  | byte =>
      obtain ⟨position, unread⟩ := reader
      cases unread with
      | nil =>
          cases failed
          rfl
      | cons value rest => cases failed
  | u32 => exact eq_of_number_eq_error ((bind_pure_eq_error_iff _ Item.u32 _ _ _).mp failed)
  | i32 => exact eq_of_number_eq_error ((bind_pure_eq_error_iff _ Item.i32 _ _ _).mp failed)
  | i64 => exact eq_of_number_eq_error ((bind_pure_eq_error_iff _ Item.i64 _ _ _).mp failed)
  | f32 => exact eq_of_number_eq_error ((bind_pure_eq_error_iff _ Item.f32 _ _ _).mp failed)
  | f64 => exact eq_of_number_eq_error ((bind_pure_eq_error_iff _ Item.f64 _ _ _).mp failed)
  | bytes length =>
      exact (eq_of_bytes_eq_error ((bind_pure_eq_error_iff _ Item.bytes _ _ _).mp failed)).2
  | string length =>
      obtain ⟨rfl, available, rfl⟩ | ⟨rfl, rfl⟩ :=
        after_of_string_eq_error ((bind_pure_eq_error_iff _ Item.string _ _ _).mp failed)
      · exact (if_pos rfl).mpr ⟨available, rfl⟩
      · rw [FailsTo, Failure.ofCause, if_neg nofun]
  | _ => cases primitive

/-! ## Sessions -/

namespace Session

/-- The session after some steps. -/
def after (session : Session) (steps : List Step) : Session :=
  steps.foldl (fun session step => (session.perform step).2) session

/-- The readers of a session, the current one first. -/
def stack (session : Session) : List Reader :=
  session.current :: session.outer

/-- The reader in a slot. The slots are counted from the bottom of the stack, so
that the current reader has the last one. -/
def slot? (session : Session) (slot : Nat) : Option Reader :=
  (session.outer.reverse ++ [session.current])[slot]?

/-- What a run reports of a step is what the step does after those before it. -/
theorem getElem?_run (session : Session) (steps : List Step) (index : Nat) :
    (session.run steps)[index]? =
      steps[index]?.map fun step => (session.after (steps.take index)).perform step := by
  induction steps generalizing session index with
  | nil => rfl
  | cons step steps inductionHypothesis =>
      cases index with
      | zero => rfl
      | succ index =>
          simp only [run, List.getElem?_cons_succ, inductionHypothesis, List.take_succ_cons]
          rfl

/-- All readers of a session are windows of its buffer. -/
def Sound (session : Session) : Prop :=
  ∀ reader ∈ session.stack, reader.position ≤ reader.limit ∧
    reader.limit ≤ session.buffer.length ∧
    reader = Reader.window session.buffer reader.position reader.limit

/-- The effect of a step on the readers of a session. A reader that is not put onto
another window keeps its end and does not go back; a primitive reads just what it
yields, and nothing if it fails, apart from bytes that form no string; a window that
is split off has the bytes that the reader before it skips. -/
structure Disciplined (session : Session) (step : Step) : Prop where
  sound : (session.perform step).2.Sound
  onward : ∀ slot before behind,
    session.slot? slot = some before → (session.perform step).2.slot? slot = some behind →
      (slot = session.outer.length → ∀ start stop, step ≠ .window start stop) →
        behind.limit = before.limit ∧ before.position ≤ behind.position
  reads : ∀ reading item, step = .read reading → reading.isPrimitive = true →
    (session.perform step).1 = .ok item →
      reading.HasRead session.current (session.perform step).2.current item
  fails : ∀ reading failure, step = .read reading → reading.isPrimitive = true →
    (session.perform step).1 = .error failure →
      reading.FailsTo session.current (session.perform step).2.current failure.cause
  splits : ∀ length, step = .split length →
    (∃ window parent, session.perform step =
        (.ok .nothing, { session with current := window, outer := parent :: session.outer }) ∧
      window.position = session.current.position ∧ window.remaining = length ∧
      session.current.Passes window.unread parent) ∨
    ∃ failure, session.perform step = (.error failure, session)

/-- A slot is filled by an outer reader or by the current one. -/
theorem slot?_eq_some_iff (session : Session) (slot : Nat) (reader : Reader) :
    session.slot? slot = some reader ↔
      (slot < session.outer.length ∧ session.outer.reverse[slot]? = some reader) ∨
        (slot = session.outer.length ∧ session.current = reader) := by
  rw [slot?]
  obtain below | same | above := Nat.lt_trichotomy slot session.outer.length
  · rw [List.getElem?_append_left (by simpa using below)]
    simp [below, Nat.ne_of_lt below]
  · simp [same]
  · have beyond : (session.outer.reverse ++ [session.current]).length ≤ slot := by
      simpa [Nat.succ_le_iff] using above
    simp [List.getElem?_eq_none beyond, Nat.not_lt_of_gt above, Nat.ne_of_gt above]

end Session

/-- A window of a buffer stays within it, wherever its bounds are put. -/
theorem Reader.within_window (buffer : List UInt8) (start stop : Nat) :
    (window buffer start stop).Within buffer := by
  refine ⟨buffer.take (min start (min stop buffer.length)), buffer.drop (min stop buffer.length),
    ?_, ?_⟩
  · have taken : buffer.take (min start (min stop buffer.length)) =
        (buffer.take (min stop buffer.length)).take (min start (min stop buffer.length)) := by
      rw [List.take_take, Nat.min_assoc, Nat.min_self]
    rw [window, taken, ← List.append_assoc, List.take_append_drop, List.take_append_drop]
  · simp only [window, List.length_take]
    omega

namespace Session

variable {session : Session}

/-- A session is sound if its readers are windows of its buffer. -/
theorem sound_of_within
    (inside : ∀ reader ∈ session.stack, reader.Within session.buffer) :
    session.Sound :=
  fun reader among => ⟨reader.position_le_limit, (inside reader among).limit_le,
    (inside reader among).eq_window⟩

/-- A window that is split off becomes the current reader, and what is left of its
parent is put aside. -/
theorem perform_split_of_ok
    {length : Nat}
    {window parent : Reader}
    (splits : Decode.split length session.current = .ok window parent) :
    session.perform (.split length) =
      (.ok .nothing, { session with current := window, outer := parent :: session.outer }) := by
  simp only [perform, splits]

/-- A window that is too long is refused, and the session stays as it was. -/
theorem perform_split_of_lt
    {length : Nat}
    (short : session.current.remaining < length) :
    session.perform (.split length) =
      (.error (.ofCause (.unexpectedEnd session.current.position)), session) := by
  simp only [perform, split_of_lt length _ short]

/-- No step changes the buffer, and every step leaves windows of it. -/
theorem perform_within
    (inside : ∀ reader ∈ session.stack, reader.Within session.buffer)
    (step : Step) :
    (session.perform step).2.buffer = session.buffer ∧
      ∀ reader ∈ (session.perform step).2.stack, reader.Within session.buffer := by
  obtain ⟨currentInside, outerInside⟩ := List.forall_mem_cons.mp inside
  cases step with
  | window start stop =>
      exact ⟨rfl, List.forall_mem_cons.mpr ⟨Reader.within_window _ _ _, outerInside⟩⟩
  | split length =>
      obtain available | short := le_or_gt length session.current.remaining
      · have splits := split_of_le length session.current available
        rw [perform_split_of_ok splits]
        have window := Reader.Holds.of_split (.refl session.current) splits
        have parent := Reader.Holds.of_leads (.of_advance available)
        exact ⟨rfl, List.forall_mem_cons.mpr ⟨window.within currentInside,
          List.forall_mem_cons.mpr ⟨parent.within currentInside, outerInside⟩⟩⟩
      · rw [perform_split_of_lt short]
        exact ⟨rfl, inside⟩
  | leave =>
      obtain ⟨buffer, current, outer⟩ := session
      cases outer with
      | nil => exact ⟨rfl, inside⟩
      | cons reader outer => exact ⟨rfl, outerInside⟩
  | read reading =>
      have leads := reading.orderly_decode.leads_attempt session.current
      exact ⟨rfl, List.forall_mem_cons.mpr
        ⟨(Reader.Holds.of_leads leads).within currentInside, outerInside⟩⟩

/-- A step moves every reader on within its window, unless it puts the current one
onto another. -/
theorem leads_of_perform
    {step : Step}
    {slot : Nat}
    {before behind : Reader}
    (here : session.slot? slot = some before)
    (there : (session.perform step).2.slot? slot = some behind)
    (kept : slot = session.outer.length → ∀ start stop, step ≠ .window start stop) :
    before.Leads behind := by
  -- Only the current reader is moved by a step; those in the slots below stay.
  cases step with
  | window start stop =>
      obtain ⟨below, here⟩ | ⟨rfl, -⟩ := (slot?_eq_some_iff _ _ _).mp here
      · obtain ⟨-, there⟩ | ⟨same, -⟩ := (slot?_eq_some_iff _ _ _).mp there
        · obtain rfl := Option.some.inj (here.symm.trans there)
          exact .refl _
        · exact absurd same (Nat.ne_of_lt below)
      · exact absurd rfl (kept rfl start stop)
  | split length =>
      obtain available | short := le_or_gt length session.current.remaining
      · rw [perform_split_of_ok (split_of_le length session.current available), slot?] at there
        obtain ⟨below, here⟩ | ⟨rfl, rfl⟩ := (slot?_eq_some_iff _ _ _).mp here
        · rw [List.reverse_cons, List.append_assoc,
            List.getElem?_append_left (by simpa using below), here] at there
          obtain rfl := Option.some.inj there
          exact .refl _
        · rw [List.reverse_cons, List.append_assoc,
            List.getElem?_append_right (by simp)] at there
          obtain rfl : _ = behind := by simpa using there
          exact .of_advance available
      · rw [perform_split_of_lt short, here] at there
        obtain rfl := Option.some.inj there
        exact .refl _
  | leave =>
      obtain ⟨buffer, current, outer⟩ := session
      cases outer with
      | nil =>
          obtain rfl := Option.some.inj (here.symm.trans there)
          exact .refl _
      | cons reader outer =>
          rw [slot?, List.reverse_cons] at here
          change (outer.reverse ++ [reader])[slot]? = some behind at there
          have inRange := (List.getElem?_eq_some_iff.mp there).1
          rw [List.getElem?_append_left inRange, there] at here
          obtain rfl := Option.some.inj here
          exact .refl _
  | read reading =>
      have onward := reading.orderly_decode.leads_attempt session.current
      obtain ⟨below, here⟩ | ⟨rfl, rfl⟩ := (slot?_eq_some_iff _ _ _).mp here
      · obtain ⟨-, there⟩ | ⟨same, -⟩ := (slot?_eq_some_iff _ _ _).mp there
        · obtain rfl := Option.some.inj (here.symm.trans there)
          exact .refl _
        · exact absurd same (Nat.ne_of_lt below)
      · obtain ⟨below, -⟩ | ⟨-, rfl⟩ := (slot?_eq_some_iff _ _ _).mp there
        · exact absurd below (Nat.lt_irrefl _)
        · exact onward

/-- Every step on windows of the buffer is disciplined. -/
theorem disciplined_of_within
    (inside : ∀ reader ∈ session.stack, reader.Within session.buffer)
    (step : Step) :
    session.Disciplined step where
  sound := by
    obtain ⟨sameBuffer, within⟩ := perform_within inside step
    exact sound_of_within (by rwa [sameBuffer])
  onward := by
    intro slot before behind here there kept
    have leads := leads_of_perform here there kept
    exact ⟨leads.limit_eq, leads.position_le⟩
  reads := by
    rintro reading item rfl primitive reported
    refine Reading.hasRead_of_ok primitive ?_
    simp only [perform, attempt] at reported ⊢
    cases outcome : reading.decode session.current with
    | ok value after =>
        rw [outcome] at reported
        cases reported
        rfl
    | error failure after =>
        rw [outcome] at reported
        cases reported
  fails := by
    rintro reading failure rfl primitive reported
    refine Reading.failsTo_of_error primitive ?_
    simp only [perform, attempt] at reported ⊢
    cases outcome : reading.decode session.current with
    | ok value after =>
        rw [outcome] at reported
        cases reported
    | error other after =>
        rw [outcome] at reported
        cases reported
        rfl
  splits := by
    rintro length rfl
    obtain available | short := le_or_gt length session.current.remaining
    · have splits := split_of_le length session.current available
      obtain ⟨position, size, passes⟩ := (split_eq_ok_iff _ _ _ _).mp splits
      exact .inl ⟨_, _, perform_split_of_ok splits, position, size, passes⟩
    · exact .inr ⟨_, perform_split_of_lt short⟩

/-! ## Windows of one reader -/

/-- Whether a step puts the reader in a slot onto another window or removes it. The
last reader is not removed. -/
def ends (session : Session) (slot : Nat) : Step → Bool
  | .window _ _ => session.outer.length == slot
  | .leave => session.outer.length == slot && slot != 0
  | _ => false

/-- The window that a step splits off the reader in a slot, if it does. -/
def splitOff (session : Session) (slot : Nat) : Step → List Reader
  | .split length =>
      if session.outer.length = slot then
        match Decode.split length session.current with
        | .ok window _ => [window]
        | .error _ _ => []
      else []
  | _ => []

/-- The windows that steps split off the reader in a slot, until it is put onto
another window or removed. -/
def windowsOff (slot : Nat) : Session → List Step → List Reader
  | _, [] => []
  | session, step :: rest =>
      if session.ends slot step then []
      else session.splitOff slot step ++ windowsOff slot (session.perform step).2 rest

/-- The slots that are filled are those up to the number of outer readers. -/
theorem exists_slot?_iff (session : Session) (slot : Nat) :
    (∃ reader, session.slot? slot = some reader) ↔ slot ≤ session.outer.length := by
  rw [slot?, ← Option.isSome_iff_exists, isSome_getElem?, List.length_append, List.length_reverse,
    List.length_singleton]
  exact Nat.lt_succ_iff

/-- A step that does not remove a reader leaves it in its slot. -/
theorem exists_slot?_perform
    {step : Step}
    {slot : Nat}
    {before : Reader}
    (here : session.slot? slot = some before)
    (goesOn : session.ends slot step = false) :
    ∃ behind, (session.perform step).2.slot? slot = some behind ∧ before.Leads behind := by
  have present := (session.exists_slot?_iff slot).mp ⟨before, here⟩
  have kept : slot = session.outer.length → ∀ start stop, step ≠ .window start stop := by
    rintro rfl start stop rfl
    simp [ends] at goesOn
  have stays : slot ≤ (session.perform step).2.outer.length := by
    cases step with
    | window start stop => exact present
    | split length =>
        obtain available | short := le_or_gt length session.current.remaining
        · rw [perform_split_of_ok (split_of_le length session.current available)]
          exact Nat.le_succ_of_le present
        · rwa [perform_split_of_lt short]
    | leave =>
        obtain ⟨buffer, current, outer⟩ := session
        cases outer with
        | nil => exact present
        | cons reader outer =>
            simp only [ends, List.length_cons, Bool.and_eq_false_iff, beq_eq_false_iff_ne,
              bne_eq_false_iff_eq] at goesOn
            simp only [List.length_cons] at present
            change slot ≤ outer.length
            omega
    | read reading => exact present
  obtain ⟨behind, there⟩ := (exists_slot?_iff _ _).mpr stays
  exact ⟨behind, there, leads_of_perform here there kept⟩

/-- No window is split off a reader that is not there. -/
theorem splitOff_of_absent
    {slot : Nat}
    (absent : session.slot? slot = none)
    (step : Step) :
    session.splitOff slot step = [] := by
  cases step with
  | split length =>
      refine if_neg ?_
      rintro rfl
      have here := (session.slot?_eq_some_iff session.outer.length _).mpr (.inr ⟨rfl, rfl⟩)
      rw [absent] at here
      cases here
  | _ => rfl

/-- A window that is split off is what the reader skips. -/
theorem splitOff_eq_singleton
    {step : Step}
    {slot : Nat}
    {reader behind window : Reader}
    (here : session.slot? slot = some reader)
    (there : (session.perform step).2.slot? slot = some behind)
    (among : window ∈ session.splitOff slot step) :
    session.splitOff slot step = [window] ∧ window.position = reader.position ∧
      window.limit = behind.position := by
  cases step with
  | split length =>
      rw [splitOff] at among ⊢
      split at among
      · rename_i same
        subst same
        obtain ⟨below, -⟩ | ⟨-, rfl⟩ := (slot?_eq_some_iff _ _ _).mp here
        · exact absurd below (Nat.lt_irrefl _)
        · obtain available | short := le_or_gt length session.current.remaining
          · have splits := split_of_le length session.current available
            rw [perform_split_of_ok splits, slot?, List.reverse_cons, List.append_assoc,
              List.getElem?_append_right (by simp)] at there
            obtain rfl : _ = behind := by simpa using there
            rw [splits] at among ⊢
            obtain rfl := List.mem_singleton.mp among
            refine ⟨by simp, rfl, ?_⟩
            simp [Reader.limit, Nat.min_eq_left available]
          · rw [split_of_lt length _ short] at among
            cases among
      · cases among
  | _ => cases among

/-- The windows that are split off one reader lie in its window, one behind the
other. The induction is on the steps; the reader moves on with each. -/
theorem windowsOff_inside (slot : Nat) (session : Session) (steps : List Step) :
    (session.windowsOff slot steps).Pairwise (fun first second =>
        first.limit ≤ second.position) ∧
      ∀ reader, session.slot? slot = some reader →
        ∀ window ∈ session.windowsOff slot steps,
          reader.position ≤ window.position ∧ window.limit ≤ reader.limit := by
  induction steps generalizing session with
  | nil => exact ⟨.nil, fun _ _ _ among => nomatch among⟩
  | cons step rest inductionHypothesis =>
      obtain ⟨ordered, inside⟩ := inductionHypothesis (session.perform step).2
      rw [windowsOff]
      cases goesOn : session.ends slot step with
      | true => exact ⟨.nil, fun _ _ _ among => nomatch among⟩
      | false =>
          rw [if_neg Bool.false_ne_true]
          cases here : session.slot? slot with
          | none =>
              rw [splitOff_of_absent here, List.nil_append]
              exact ⟨ordered, fun _ present => nomatch present⟩
          | some reader =>
              -- The reader in the slot only goes onward, so windows split off later lie behind
              -- this one.
              obtain ⟨behind, there, leads⟩ := exists_slot?_perform here goesOn
              have later := inside behind there
              have onward := leads.position_le
              have sameLimit := leads.limit_eq
              cases off : session.splitOff slot step with
              | nil =>
                  refine ⟨ordered, fun reader same window among => ?_⟩
                  cases same
                  obtain ⟨above, below⟩ := later window among
                  exact ⟨onward.trans above, by rwa [sameLimit] at below⟩
              | cons window windows =>
                  obtain ⟨single, position, limit⟩ :=
                    splitOff_eq_singleton here there (by rw [off]; exact List.mem_cons_self)
                  obtain rfl : windows = [] := by simpa [off] using single
                  rw [List.singleton_append]
                  refine ⟨.cons (fun other among => ?_) ordered, fun reader same other among => ?_⟩
                  · rw [limit]
                    exact (later other among).1
                  · cases same
                    obtain rfl | among := List.mem_cons.mp among
                    · have inside := behind.position_le_limit
                      exact ⟨position.ge, by omega⟩
                    · obtain ⟨above, below⟩ := later other among
                      exact ⟨onward.trans above, by rwa [sameLimit] at below⟩

/-- After any steps the readers are windows of the same buffer. -/
theorem after_within
    (inside : ∀ reader ∈ session.stack, reader.Within session.buffer)
    (steps : List Step) :
    (session.after steps).buffer = session.buffer ∧
      ∀ reader ∈ (session.after steps).stack, reader.Within session.buffer := by
  induction steps generalizing session with
  | nil => exact ⟨rfl, inside⟩
  | cons step steps inductionHypothesis =>
      obtain ⟨sameBuffer, within⟩ := perform_within inside step
      obtain ⟨same, all⟩ := inductionHypothesis (by rwa [sameBuffer])
      rw [sameBuffer] at same all
      exact ⟨same, all⟩

/-- A reader over a whole buffer is one over the window of all of it. -/
theorem ofBytes_eq_ofWindow (buffer : List UInt8) :
    ofBytes buffer = ofWindow buffer 0 buffer.length := by
  simp [ofBytes, ofWindow, Reader.ofBytes, Reader.window]

/-- At every point of every run, all readers are windows of the buffer, the next
step is disciplined, and the windows that are split off one reader from there on are
disjoint and in order. -/
theorem disciplined_of_run
    (buffer : List UInt8)
    (start stop : Nat)
    (earlier : List Step)
    (step : Step)
    (later : List Step) :
    let begun := ofWindow buffer start stop
    let session := begun.after earlier
    (begun.run (earlier ++ step :: later))[earlier.length]? = some (session.perform step) ∧
      session.buffer = buffer ∧ session.Sound ∧ session.Disciplined step ∧
      ∀ slot, (session.windowsOff slot (step :: later)).Pairwise fun first second =>
        first.limit ≤ second.position := by
  intro begun session
  have beginning : ∀ reader ∈ begun.stack, reader.Within begun.buffer :=
    List.forall_mem_cons.mpr ⟨Reader.within_window _ _ _, fun _ among => nomatch among⟩
  obtain ⟨sameBuffer, within⟩ := after_within beginning earlier
  have inside : ∀ reader ∈ session.stack, reader.Within session.buffer := by
    rwa [sameBuffer]
  refine ⟨?_, sameBuffer, sound_of_within inside, disciplined_of_within inside step,
    fun slot => (windowsOff_inside slot session (step :: later)).1⟩
  rw [getElem?_run, List.getElem?_append_right le_rfl, Nat.sub_self, List.take_left]
  rfl

end Session

end WebAssembly
