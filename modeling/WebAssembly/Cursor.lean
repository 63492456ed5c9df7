import WebAssembly.Source

/-!
# Cursors

A cursor indexes a buffer. It reads from a window of the buffer, but it has the
whole buffer at hand: that nothing behind the window is read is up to each of its
operations.

A `Reader` holds the bytes of its window only. `WebAssembly.Proofs.Window` shows
that decoders do not tell a cursor from the reader of its window.
-/

namespace WebAssembly

/-- A position in a buffer and the end of a window that starts there. -/
structure Cursor where
  buffer : List UInt8
  position : Nat
  stop : Nat
  /-- The window ends with the buffer at the latest. -/
  bounded : stop ≤ buffer.length
  deriving DecidableEq

namespace Cursor

/-- A cursor over the bytes of a buffer from `start` to `stop`, neither of which lies
behind the end of the buffer. -/
def new (buffer : List UInt8) (start stop : Nat) : Cursor where
  buffer
  position := min start (min stop buffer.length)
  stop := min stop buffer.length
  bounded := Nat.min_le_right _ _

/-- A cursor over a whole buffer. -/
def ofBytes (buffer : List UInt8) : Cursor := new buffer 0 buffer.length

/-- The buffer up to the end of the window. -/
def reachable (cursor : Cursor) : List UInt8 := cursor.buffer.take cursor.stop

/-- How many bytes are unread. -/
def remaining (cursor : Cursor) : Nat := cursor.stop - cursor.position

/-- Whether all bytes have been read. -/
def isEnd (cursor : Cursor) : Bool := cursor.stop ≤ cursor.position

/-- Skip some of the unread bytes. -/
def advance (count : Nat) (cursor : Cursor) : Cursor :=
  { cursor with position := cursor.position + count }

/-- A cursor that is not at its end stands at a byte of the buffer. -/
theorem position_lt (cursor : Cursor) (unread : ¬ cursor.isEnd) :
    cursor.position < cursor.buffer.length := by
  have before : cursor.position < cursor.stop := by simpa [isEnd] using unread
  exact Nat.lt_of_lt_of_le before cursor.bounded

/-- The byte at which a cursor stands that is not at its end. -/
def current (cursor : Cursor) (unread : ¬ cursor.isEnd) : UInt8 :=
  cursor.buffer.get ⟨cursor.position, cursor.position_lt unread⟩

/-- The next byte, if the window has one. -/
def peek (cursor : Cursor) : Option UInt8 :=
  if ended : cursor.isEnd then none else some (cursor.current ended)

/-- Read one byte. -/
def byte : Decode Cursor UInt8 := fun cursor =>
  if ended : cursor.isEnd then
    .error (.ofCause (.unexpectedEnd cursor.position)) cursor
  else
    .ok (cursor.current ended) (cursor.advance 1)

/-- Read one number from the buffer up to the end of the window. -/
def number (read : List UInt8 → Except Numeral.Fault (α × Nat)) : Decode Cursor α := fun cursor =>
  match Numeral.readAt read cursor.reachable cursor.position with
  | .ok (value, length) => .ok value (cursor.advance length)
  | .error cause => .error (.ofCause cause) cursor

/-- Read some bytes. -/
def bytes (length : Nat) : Decode Cursor (List UInt8) := fun cursor =>
  if cursor.remaining < length then
    .error (.ofCause (.unexpectedEnd cursor.position)) cursor
  else
    .ok (cursor.buffer.extract cursor.position (cursor.position + length))
      (cursor.advance length)

/-- Split off a cursor over the next `length` bytes of the same buffer. -/
def split (length : Nat) : Decode Cursor Cursor := fun cursor =>
  if cursor.remaining < length then
    .error (.ofCause (.unexpectedEnd cursor.position)) cursor
  else
    .ok (new cursor.buffer cursor.position (cursor.position + length))
      (cursor.advance length)

instance : Source Cursor where
  position := position
  remaining := remaining
  isEnd := isEnd
  peek := peek
  byte := byte
  number := number
  bytes := bytes
  split := split

end Cursor

end WebAssembly
