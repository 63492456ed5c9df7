import WebAssembly.Cursor
import WebAssembly.Proofs.Accord

/-!
# Cursors are read like their windows

A cursor has a whole buffer at hand. The reader of its window has only the unread
bytes of the window, and each operation does to the cursor what it does to that
reader. So cursors are in accord with readers, and two cursors that are about to read
the same bytes are read alike, whatever else is in their buffers.
-/

namespace WebAssembly

open Decode

/-! ## Readers further on -/

namespace Reader

/-- The reader of the same bytes some bytes further on. -/
def shift (distance : Nat) (reader : Reader) : Reader :=
  { reader with position := reader.position + distance }

@[simp] theorem position_shift (distance : Nat) (reader : Reader) :
    (reader.shift distance).position = reader.position + distance := rfl

/-- Advancing does not change the distance. -/
theorem advance_shift (count distance : Nat) (reader : Reader) :
    (reader.shift distance).advance count = (reader.advance count).shift distance := by
  simp only [advance, shift, Nat.add_right_comm]

theorem prefixWindow_shift (count distance : Nat) (reader : Reader) :
    (reader.shift distance).prefixWindow count =
      (reader.prefixWindow count).shift distance := rfl

/-- A reader and the reader of the same bytes further on. -/
def accord (distance : Nat) : Accord Reader Reader where
  distance
  Alike far near := far = near.shift distance
  position := by
    rintro _ near rfl
    rfl
  remaining := by
    rintro _ near rfl
    rfl
  isEnd := by
    rintro _ near rfl
    rfl
  peek := by
    rintro _ near rfl
    rfl
  byte := by
    rintro _ ⟨position, unread⟩ rfl
    cases unread with
    | nil => exact .error (.ofCause (.unexpectedEnd position)) rfl
    | cons value rest => exact .ok rfl (advance_shift 1 distance ⟨position, value :: rest⟩)
  number := by
    rintro α read _ near faithful rfl
    cases outcome : read near.unread with
    | ok pair =>
        obtain ⟨value, length⟩ := pair
        have moved : read (near.shift distance).unread = .ok (value, length) := outcome
        rw [number_of_ok outcome, number_of_ok moved]
        exact .ok rfl (advance_shift length distance near)
    | error fault =>
        have moved : read (near.shift distance).unread = .error fault := outcome
        rw [number_of_error outcome, number_of_error moved,
          position_shift, Numeral.Fault.at_add]
        exact .error (.ofCause (fault.at near.position)) rfl
  bytes := by
    rintro _ near length rfl
    obtain available | short := Nat.lt_or_ge near.remaining length |>.symm
    · have moved : length ≤ (near.shift distance).remaining := available
      rw [bytes_of_le length near available, bytes_of_le length _ moved]
      exact .ok rfl (advance_shift length distance near)
    · have moved : (near.shift distance).remaining < length := short
      rw [bytes_of_lt length near short, bytes_of_lt length _ moved]
      exact .error (.ofCause (.unexpectedEnd near.position)) rfl
  split := by
    rintro _ near length rfl
    obtain available | short := Nat.lt_or_ge near.remaining length |>.symm
    · have moved : length ≤ (near.shift distance).remaining := available
      rw [split_of_le length near available, split_of_le length _ moved]
      exact .ok (prefixWindow_shift length distance near) (advance_shift length distance near)
    · have moved : (near.shift distance).remaining < length := short
      rw [split_of_lt length near short, split_of_lt length _ moved]
      exact .error (.ofCause (.unexpectedEnd near.position)) rfl

end Reader

/-! ## Cursors and readers -/

namespace Cursor

/-- The unread bytes of the window. -/
def unread (cursor : Cursor) : List UInt8 := cursor.reachable.drop cursor.position

/-- The reader of the window, which has nothing else of the buffer. -/
def reader (cursor : Cursor) : Reader := ⟨cursor.position, cursor.unread⟩

/-- A cursor has not gone past the end of its window. -/
def Inside (cursor : Cursor) : Prop := cursor.position ≤ cursor.stop

variable {cursor : Cursor}

@[simp] theorem position_reader (cursor : Cursor) : cursor.reader.position = cursor.position := rfl

@[simp] theorem unread_reader (cursor : Cursor) : cursor.reader.unread = cursor.unread := rfl

@[simp] theorem length_unread (cursor : Cursor) : cursor.unread.length = cursor.remaining := by
  simp only [unread, reachable, List.length_drop, List.length_take_of_le cursor.bounded, remaining]

/-- As many bytes are unread as in the reader of the window. -/
theorem remaining_reader (cursor : Cursor) : cursor.reader.remaining = cursor.remaining :=
  cursor.length_unread

/-- The byte at which a cursor stands is the first one that is unread. -/
theorem unread_eq_cons (unended : ¬ cursor.isEnd) :
    cursor.unread = cursor.current unended :: (cursor.advance 1).unread := by
  have before : cursor.position < cursor.stop := by simpa [isEnd] using unended
  have inReach : cursor.position < cursor.reachable.length := by
    rwa [reachable, List.length_take_of_le cursor.bounded]
  rw [unread, List.drop_eq_getElem_cons inReach]
  simp [current, reachable, unread, advance]

/-- At the end of the window nothing is unread. -/
theorem unread_eq_nil (ended : cursor.isEnd) : cursor.unread = [] := by
  have behind : cursor.stop ≤ cursor.position := by simpa [isEnd] using ended
  rw [← List.length_eq_zero_iff, length_unread, remaining]
  exact Nat.sub_eq_zero_of_le behind

/-- A cursor is at its end as the reader of its window is. -/
theorem isEnd_reader (cursor : Cursor) : cursor.reader.isEnd = cursor.isEnd := by
  by_cases ended : cursor.isEnd
  · simp [Reader.isEnd, unread_eq_nil ended, ended]
  · simp [Reader.isEnd, unread_eq_cons ended, ended]

/-- The next byte of a cursor is that of the reader of its window. -/
theorem peek_reader (cursor : Cursor) : cursor.reader.unread.head? = cursor.peek := by
  by_cases ended : cursor.isEnd
  · simp [peek, unread_eq_nil ended, ended]
  · simp [peek, unread_eq_cons ended, ended]

/-- To advance a cursor is to advance the reader of its window. -/
theorem reader_advance (count : Nat) (cursor : Cursor) :
    (cursor.advance count).reader = cursor.reader.advance count := by
  simp [reader, Reader.advance, unread, reachable, advance, List.drop_drop]

/-- A cursor that advances within its window stays in it. -/
theorem Inside.advance (inside : cursor.Inside) {count : Nat}
    (available : count ≤ cursor.remaining) : (cursor.advance count).Inside := by
  simp only [Inside, remaining, Cursor.advance] at *
  omega

/-- A cursor over a window of a buffer has the bytes of the window. -/
theorem reader_new (buffer : List UInt8) (start stop : Nat) :
    (new buffer start stop).reader = Reader.window buffer start stop := rfl

/-- The reader of a window that lies in the buffer. -/
theorem reader_new_of_le
    {buffer : List UInt8}
    {start stop : Nat}
    (ordered : start ≤ stop)
    (within : stop ≤ buffer.length) :
    (new buffer start stop).reader = ⟨start, (buffer.take stop).drop start⟩ := by
  simp only [reader_new, Reader.window, Nat.min_eq_left within, Nat.min_eq_left ordered]

/-- A cursor over a whole buffer has all of its bytes. -/
theorem reader_ofBytes (buffer : List UInt8) : (ofBytes buffer).reader = Reader.ofBytes buffer := by
  rw [ofBytes, reader_new_of_le (Nat.zero_le _) (Nat.le_refl _), List.take_length, List.drop_zero]
  rfl

/-- The next bytes of the buffer are the next ones of the window as long as it has so
many. -/
theorem take_unread {count : Nat} (available : count ≤ cursor.remaining) :
    cursor.unread.take count = (cursor.buffer.drop cursor.position).take count := by
  have unreached : count ≤ cursor.stop - cursor.position := available
  rw [unread, reachable, List.drop_take, List.take_take, Nat.min_eq_left unreached]

/-- A cursor does not begin behind the end of its window. -/
theorem inside_new (buffer : List UInt8) (start stop : Nat) : (new buffer start stop).Inside :=
  Nat.min_le_right _ _

/-- A reader is the one of the window of a cursor. -/
def Tracks (cursor : Cursor) (reader : Reader) : Prop :=
  cursor.Inside ∧ reader = cursor.reader

/-! ## Each operation on a cursor -/

section Operations

variable {reader : Reader}

theorem Tracks.advance
    (tracks : cursor.Tracks reader)
    {count : Nat}
    (available : count ≤ cursor.remaining) :
    (cursor.advance count).Tracks (reader.advance count) :=
  ⟨tracks.1.advance available, by rw [reader_advance, tracks.2]⟩

/-- A cursor has as much left to read as the reader that it tracks. -/
theorem Tracks.remaining_eq (tracks : cursor.Tracks reader) :
    reader.remaining = cursor.remaining := by
  rw [tracks.2, remaining_reader]

/-- Reading a byte from a cursor is reading it from its window. -/
theorem agree_byte (tracks : cursor.Tracks reader) :
    Agree 0 Tracks Eq (Decode.byte cursor) (Decode.byte reader) := by
  obtain ⟨inside, rfl⟩ := tracks
  change Agree 0 Tracks Eq (byte cursor) (Decode.byte ⟨cursor.position, cursor.unread⟩)
  by_cases ended : cursor.isEnd
  · rw [unread_eq_nil ended, byte_nil, byte, dif_pos ended]
    exact .error_same ⟨inside, by rw [reader, unread_eq_nil ended]⟩
  · rw [unread_eq_cons ended, byte_cons, byte, dif_neg ended]
    have available : 1 ≤ cursor.remaining := by
      rw [← length_unread, unread_eq_cons ended]
      exact Nat.le_add_left 1 _
    exact .ok rfl ⟨inside.advance available, rfl⟩

/-- Reading a number from the buffer up to the end of the window is reading it from the
window. -/
theorem agree_number
    {read : List UInt8 → Except Numeral.Fault (α × Nat)}
    (faithful : Numeral.Faithful read)
    (tracks : cursor.Tracks reader) :
    Agree 0 Tracks Eq (Decode.number read cursor) (Decode.number read reader) := by
  change Agree 0 Tracks Eq (number read cursor) _
  have unread : reader.unread = cursor.reachable.drop cursor.position := by
    rw [tracks.2]
    rfl
  cases outcome : read reader.unread with
  | ok pair =>
      obtain ⟨value, length⟩ := pair
      have available : length ≤ cursor.remaining := by
        rw [← tracks.remaining_eq]
        exact faithful.length_le _ _ _ outcome
      rw [number_of_ok outcome]
      simp only [number, Numeral.readAt, ← unread, outcome, Except.mapError]
      exact .ok rfl (tracks.advance available)
  | error fault =>
      rw [number_of_error outcome]
      simp only [number, Numeral.readAt, ← unread, outcome, Except.mapError]
      rw [tracks.2]
      exact .error_same ⟨tracks.1, rfl⟩

/-- The bytes of the buffer at a cursor are those of its window. -/
theorem agree_bytes (length : Nat) (tracks : cursor.Tracks reader) :
    Agree 0 Tracks Eq (Decode.bytes length cursor) (Decode.bytes length reader) := by
  change Agree 0 Tracks Eq (bytes length cursor) _
  obtain short | available := Nat.lt_or_ge cursor.remaining length
  · rw [bytes_of_lt length reader (tracks.remaining_eq ▸ short), bytes, if_pos short, tracks.2]
    exact .error_same ⟨tracks.1, rfl⟩
  · rw [bytes_of_le length reader (tracks.remaining_eq ▸ available), bytes,
      if_neg (Nat.not_lt.mpr available)]
    refine .ok ?_ (tracks.advance available)
    rw [List.extract_eq_take_drop, Nat.add_sub_cancel_left, tracks.2, unread_reader,
      take_unread available]

/-- The cursor over the next bytes of the buffer has the window that is split off. -/
theorem agree_split (length : Nat) (tracks : cursor.Tracks reader) :
    Agree 0 Tracks Tracks (Decode.split length cursor) (Decode.split length reader) := by
  change Agree 0 Tracks Tracks (split length cursor) _
  obtain short | available := Nat.lt_or_ge cursor.remaining length
  · rw [split_of_lt length reader (tracks.remaining_eq ▸ short), split, if_pos short, tracks.2]
    exact .error_same ⟨tracks.1, rfl⟩
  · rw [split_of_le length reader (tracks.remaining_eq ▸ available), split,
      if_neg (Nat.not_lt.mpr available)]
    refine .ok ⟨inside_new _ _ _, ?_⟩ (tracks.advance available)
    have within : cursor.position + length ≤ cursor.buffer.length := by
      have inside : cursor.position ≤ cursor.stop := tracks.1
      have bounded := cursor.bounded
      simp only [remaining] at available
      omega
    rw [reader_new_of_le (Nat.le_add_right _ _) within, tracks.2, Reader.prefixWindow,
      unread_reader, take_unread available, List.drop_take, Nat.add_sub_cancel_left,
      position_reader]

end Operations

/-- Cursors and the readers of their windows. -/
def accord : Accord Cursor Reader where
  distance := 0
  Alike := Tracks
  position tracks := by rw [tracks.2]; rfl
  remaining tracks := tracks.remaining_eq.symm
  isEnd tracks := by
    rw [tracks.2]
    exact (isEnd_reader _).symm
  peek tracks := by
    rw [tracks.2]
    exact (peek_reader _).symm
  byte := agree_byte
  number := agree_number
  bytes := agree_bytes
  split := agree_split

/-! ## Cursors that are about to read the same -/

/-- One cursor has the same unread bytes as another, at positions greater by a
distance. -/
def Further (distance : Nat) (far near : Cursor) : Prop :=
  far.position = near.position + distance ∧ far.unread = near.unread

variable {distance : Nat}

/-- Cursors are further on from one another as the readers of their windows are. -/
theorem Further.of_tracks
    {far near : Cursor}
    {reader other : Reader}
    (farTracks : far.Tracks reader)
    (moved : reader = other.shift distance)
    (nearTracks : near.Tracks other) :
    far.Further distance near := by
  obtain ⟨-, rfl⟩ := nearTracks
  have same : far.reader = near.reader.shift distance := farTracks.2.symm.trans moved
  exact ⟨congrArg Reader.position same, congrArg Reader.unread same⟩

/-- The readers of their windows stand as the cursors do. -/
theorem Further.reader_eq {far near : Cursor} (further : far.Further distance near) :
    far.reader = near.reader.shift distance := by
  simp only [reader, Reader.shift, further.1, further.2]

/-- Results on two cursors agree if those on the readers of their windows do. -/
theorem agree_of_readers
    {far : EStateM.Result Failure Cursor α}
    {near : EStateM.Result Failure Cursor β}
    {farRead : EStateM.Result Failure Reader γ}
    {nearRead : EStateM.Result Failure Reader δ}
    {sameFar : α → γ → Prop}
    {sameRead : γ → δ → Prop}
    {sameNear : β → δ → Prop}
    {same : α → β → Prop}
    (farAgree : Agree 0 Tracks sameFar far farRead)
    (readAgree : Agree distance (fun here there => here = there.shift distance) sameRead
      farRead nearRead)
    (nearAgree : Agree 0 Tracks sameNear near nearRead)
    (chain : ∀ value read other counterpart, sameFar value read → sameRead read counterpart →
      sameNear other counterpart → same value other) :
    Agree distance (Further distance) same far near := by
  -- The result on the reader decides which of the two it is; the cursors follow.
  cases readAgree with
  | ok readSame moved =>
      cases farAgree with
      | ok farSame farTracks =>
          cases nearAgree with
          | ok nearSame nearTracks =>
              exact .ok (chain _ _ _ _ farSame readSame nearSame)
                (.of_tracks farTracks moved nearTracks)
  | error failure moved =>
      cases farAgree with
      | error _ farTracks =>
          cases nearAgree with
          | error _ nearTracks =>
              simp only [Failure.shift_zero]
              exact .error _ (.of_tracks farTracks moved nearTracks)

end Cursor

end WebAssembly
