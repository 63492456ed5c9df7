import WebAssembly.Source

/-!
# Readers

A reader is a position together with the bytes of its window that are still
unread. It holds nothing of the buffer outside its window, so whatever is
decoded through it depends on the bytes of the window alone, and on where the
window lies only through the positions it reports.
-/

namespace WebAssembly

/-- A position in the input and the unread bytes of a window that starts
there. -/
structure Reader where
  position : Nat
  unread : List UInt8
  deriving DecidableEq

namespace Reader

/-- A reader over the bytes of a buffer from `start` to `stop`. The window ends
with the buffer at the latest, and starts at its end at the latest. -/
def window (buffer : List UInt8) (start stop : Nat) : Reader :=
  let stop := min stop buffer.length
  let start := min start stop
  ⟨start, (buffer.take stop).drop start⟩

/-- A reader over a whole buffer. -/
def ofBytes (buffer : List UInt8) : Reader := ⟨0, buffer⟩

/-- How many bytes are unread. -/
def remaining (reader : Reader) : Nat := reader.unread.length

/-- Whether all bytes have been read. -/
def isEnd (reader : Reader) : Bool := reader.unread.isEmpty

/-- The position at which the window ends. -/
def limit (reader : Reader) : Nat := reader.position + reader.remaining

/-- Skip some of the unread bytes. -/
def advance (count : Nat) (reader : Reader) : Reader :=
  ⟨reader.position + count, reader.unread.drop count⟩

/-- The window of the next bytes. -/
def prefixWindow (count : Nat) (reader : Reader) : Reader :=
  ⟨reader.position, reader.unread.take count⟩

/-- Read one byte. -/
def byte : Decode Reader UInt8 := fun reader =>
  match reader.unread with
  | [] => .error (.ofCause (.unexpectedEnd reader.position)) reader
  | value :: rest => .ok value ⟨reader.position + 1, rest⟩

/-- Read one number. -/
def number (read : List UInt8 → Except Numeral.Fault (α × Nat)) : Decode Reader α := fun reader =>
  match read reader.unread with
  | .ok (value, length) => .ok value (reader.advance length)
  | .error fault => .error (.ofCause (fault.at reader.position)) reader

/-- Split off a window of the next `length` bytes. -/
def split (length : Nat) : Decode Reader Reader := fun reader =>
  let window := reader.prefixWindow length
  if window.remaining < length then
    .error (.ofCause (.unexpectedEnd reader.position)) reader
  else
    .ok window (reader.advance length)

/-- Read some bytes. -/
def bytes (length : Nat) : Decode Reader (List UInt8) :=
  return (← split length).unread

@[default_instance]
instance : Source Reader where
  position := position
  remaining := remaining
  isEnd := isEnd
  peek reader := reader.unread.head?
  byte := byte
  number := number
  bytes := bytes
  split := split

@[simp] theorem position_ofBytes (buffer : List UInt8) :
    (ofBytes buffer).position = 0 := rfl

@[simp] theorem unread_ofBytes (buffer : List UInt8) :
    (ofBytes buffer).unread = buffer := rfl

@[simp] theorem position_advance (count : Nat) (reader : Reader) :
    (reader.advance count).position = reader.position + count := rfl

@[simp] theorem unread_advance (count : Nat) (reader : Reader) :
    (reader.advance count).unread = reader.unread.drop count := rfl

@[simp] theorem remaining_advance (count : Nat) (reader : Reader) :
    (reader.advance count).remaining = reader.remaining - count := by
  simp [remaining]

@[simp] theorem position_prefixWindow (count : Nat) (reader : Reader) :
    (reader.prefixWindow count).position = reader.position := rfl

@[simp] theorem unread_prefixWindow (count : Nat) (reader : Reader) :
    (reader.prefixWindow count).unread = reader.unread.take count := rfl

@[simp] theorem remaining_prefixWindow (count : Nat) (reader : Reader) :
    (reader.prefixWindow count).remaining = min count reader.remaining := by
  simp [remaining]

/-- A window and the reader behind it hold the unread bytes between them. -/
theorem unread_prefixWindow_append (count : Nat) (reader : Reader) :
    (reader.prefixWindow count).unread ++ (reader.advance count).unread =
      reader.unread := by
  simp

/-- Reading within the window leaves its end in place. -/
theorem limit_advance
    (count : Nat)
    (reader : Reader)
    (available : count ≤ reader.remaining) :
    (reader.advance count).limit = reader.limit := by
  simp only [limit, position_advance, remaining_advance]
  omega

end Reader

end WebAssembly
