import WebAssembly.Reader

/-!
# Decoders

A decoder runs on a source and yields a value or a failure. Either way there is
a source afterwards: a failed decoder leaves it behind whatever it had already
read, while a primitive that fails leaves it unmoved.

The module holds the primitives, which read one byte, number, string or window,
and the combinators from which the decoders of the format are composed. The
equations at its end give the outcomes of the primitives on a reader.
-/

namespace WebAssembly

namespace Decode

variable {ρ : Type} [Source ρ]

/-- Fail without having read anything. -/
def fail (cause : Cause) : Decode ρ α :=
  throw (Failure.ofCause cause)

/-- The position of the source. -/
def position : Decode ρ Nat :=
  return Source.position (← get)

/-- How many bytes are unread. -/
def remaining : Decode ρ Nat :=
  return Source.remaining (← get)

/-- Whether all bytes have been read. -/
def isEnd : Decode ρ Bool :=
  return Source.isEnd (← get)

/-- The next byte, if there is one, without reading it. -/
def peek : Decode ρ (Option UInt8) :=
  return Source.peek (← get)

/-- Read one byte. -/
def byte : Decode ρ UInt8 := Source.byte

/-- Read one number. -/
def number (read : List UInt8 → Except Numeral.Fault (α × Nat)) : Decode ρ α :=
  Source.number read

/-- Read an unsigned integer of 32 bits. -/
def u32 : Decode ρ UInt32 := number Numeral.u32

/-- Read a signed integer of 32 bits. -/
def i32 : Decode ρ Int32 := number Numeral.i32

/-- Read a signed integer of 64 bits. -/
def i64 : Decode ρ Int64 := number Numeral.i64

/-- Read the bits of a 32-bit float. -/
def f32 : Decode ρ UInt32 := number Numeral.f32

/-- Read the bits of a 64-bit float. -/
def f64 : Decode ρ UInt64 := number Numeral.f64

/-- Split off a window of the next `length` bytes. -/
def split (length : Nat) : Decode ρ ρ :=
  Source.split length

/-- Read some bytes. -/
def bytes (length : Nat) : Decode ρ (List UInt8) :=
  Source.bytes length

/-- Read a string of `length` bytes of UTF-8. The bytes are read even if they
do not form a string. -/
def string (length : Nat) : Decode ρ String := do
  let start ← position
  match String.fromUTF8? (← bytes length).toByteArray with
  | some text => return text
  | none => fail (.invalidUtf8 start)

/-- Check that all bytes have been read. -/
def finish : Decode ρ Unit := do
  unless (← isEnd) do
    fail (.trailingBytes (← position) (← remaining))

/-- Check a condition. -/
def require (condition : Bool) (cause : Cause) : Decode ρ Unit :=
  unless condition do fail cause

/-- The value that there must be. -/
def requireSome (value : Option α) (cause : Cause) : Decode ρ α :=
  match value with
  | some value => return value
  | none => fail cause

/-- Read an index below a bound. -/
def indexBelow (bound : UInt32) (cause : UInt32 → Cause) : Decode ρ UInt32 := do
  let index ← u32
  require (index < bound) (cause index)
  return index

/-- Read a byte that must be zero. -/
def reservedByte : Decode ρ Unit := do
  let value ← byte
  require (value == 0) (.invalidReservedByte value)

/-- Run a decoder and put its failure into a context. -/
def inContext (context : Context) (decoder : Decode ρ α) : Decode ρ α := fun source =>
  match decoder source with
  | .ok value after => .ok value after
  | .error failure after => .error (failure.inContext context) after

/-- Run a decoder and give every failure one cause. -/
def failingWith (cause : Cause) (decoder : Decode ρ α) : Decode ρ α := fun source =>
  match decoder source with
  | .ok value after => .ok value after
  | .error _ after => .error (.ofCause cause) after

/-- Run a decoder on a window of its own; yields also what is left of the
window. -/
def withinRest (window : ρ) (decoder : Decode ρ α) : Decode ρ (α × ρ) := fun source =>
  match decoder window with
  | .ok value rest => .ok (value, rest) source
  | .error failure _ => .error failure source

/-- Run a decoder on a window of its own. -/
def within (window : ρ) (decoder : Decode ρ α) : Decode ρ α :=
  return (← withinRest window decoder).1

/-- The outcome of a decoder on a source, and the source afterwards. -/
def attempt (decoder : Decode ρ α) (source : ρ) : Except Failure α × ρ :=
  match decoder source with
  | .ok value after => (.ok value, after)
  | .error failure after => (.error failure, after)

/-- The outcome of a decoder on a source. -/
def outcome (decoder : Decode ρ α) (source : ρ) : Except Failure α :=
  (attempt decoder source).1

/-- Run a decoder and hand the number of bytes it read to its result. -/
def sized (decoder : Decode ρ (Nat → α)) : Decode ρ α := do
  let start ← position
  let build ← decoder
  return build ((← position) - start)

/-- Run a decoder `count` times, telling it the number of the round, and collect
the results behind those collected so far, which are in reverse. -/
def timesFrom (decoder : Nat → Decode ρ α) : (count round : Nat) → List α → Decode ρ (List α)
  | 0, _, collected => return collected.reverse
  | count + 1, round, collected => do
      let value ← decoder round
      timesFrom decoder count (round + 1) (value :: collected)

/-- Run a decoder `count` times, telling it the number of the round. -/
def times (count : UInt32) (decoder : Nat → Decode ρ α) : Decode ρ (List α) :=
  timesFrom decoder count.toNat 0 []

/-- Read a count and run a decoder that many times. -/
def counted (decoder : Decode ρ α) : Decode ρ (List α) := do
  times (← u32) fun _ => decoder

/-- Read a string behind its length. -/
def name : Decode ρ String := do
  string (← u32).toNat

/-- Repeat a step until it yields a result or the window ends, for at most
`rounds` rounds. -/
def stepFor
    (atEnd : σ → Decode ρ α)
    (step : σ → Decode ρ (σ ⊕ α)) :
    (rounds : Nat) → σ → Decode ρ α
  | 0, state => atEnd state
  | rounds + 1, state => do
      if (← isEnd) then atEnd state
      else
        match ← step state with
        | .inl next => stepFor atEnd step rounds next
        | .inr result => return result

/-- Repeat a step until it yields a result or the window ends. A step reads at
least one byte, so that there are at most as many rounds as unread bytes. -/
def stepUntilEnd
    (atEnd : σ → Decode ρ α)
    (step : σ → Decode ρ (σ ⊕ α))
    (state : σ) :
    Decode ρ α := do
  stepFor atEnd step (← remaining) state

section Sequences

variable {ρ : Type} {source after : ρ}

@[simp] theorem pure_apply (value : α) (source : ρ) :
    (pure value : Decode ρ α) source = .ok value source := rfl

/-- A sequence goes on with the value and the source of its first part. -/
theorem bind_of_ok
    {decoder : Decode ρ α}
    {next : α → Decode ρ β}
    {value : α}
    (succeeds : decoder source = .ok value after) :
    (decoder >>= next) source = next value after := by
  change EStateM.bind decoder next source = next value after
  simp only [EStateM.bind, succeeds]

/-- A sequence fails with its first part. -/
theorem bind_of_error
    {decoder : Decode ρ α}
    {next : α → Decode ρ β}
    {failure : Failure}
    (fails : decoder source = .error failure after) :
    (decoder >>= next) source = .error failure after := by
  change EStateM.bind decoder next source = .error failure after
  simp only [EStateM.bind, fails]

/-- A failure leaves the source where it was. -/
@[simp] theorem fail_apply (cause : Cause) (source : ρ) :
    (fail cause : Decode ρ α) source = .error (.ofCause cause) source := rfl

end Sequences

section Primitives

@[simp] theorem position_apply (reader : Reader) :
    position reader = .ok reader.position reader := rfl

@[simp] theorem remaining_apply (reader : Reader) :
    remaining reader = .ok reader.remaining reader := rfl

@[simp] theorem isEnd_apply (reader : Reader) :
    isEnd reader = .ok reader.isEnd reader := rfl

@[simp] theorem peek_apply (reader : Reader) :
    peek reader = .ok reader.unread.head? reader := rfl

@[simp] theorem byte_nil (position : Nat) :
    byte ⟨position, []⟩ =
      .error (.ofCause (.unexpectedEnd position)) ⟨position, []⟩ := rfl

@[simp] theorem byte_cons (position : Nat) (value : UInt8) (rest : List UInt8) :
    byte ⟨position, value :: rest⟩ = .ok value ⟨position + 1, rest⟩ := rfl

theorem number_of_ok
    {read : List UInt8 → Except Numeral.Fault (α × Nat)}
    {reader : Reader}
    {value : α}
    {length : Nat}
    (readable : read reader.unread = .ok (value, length)) :
    number read reader = .ok value (reader.advance length) := by
  simp only [number, Source.number, Reader.number, readable]

theorem number_of_error
    {read : List UInt8 → Except Numeral.Fault (α × Nat)}
    {reader : Reader}
    {fault : Numeral.Fault}
    (unreadable : read reader.unread = .error fault) :
    number read reader = .error (.ofCause (fault.at reader.position)) reader := by
  simp only [number, Source.number, Reader.number, unreadable]

theorem split_of_le
    (length : Nat)
    (reader : Reader)
    (available : length ≤ reader.remaining) :
    split length reader =
      .ok (reader.prefixWindow length) (reader.advance length) := by
  have filled : ¬ min length reader.remaining < length := by omega
  simp only [split, Source.split, Reader.split, Reader.remaining_prefixWindow, filled, if_false]

theorem split_of_lt
    (length : Nat)
    (reader : Reader)
    (short : reader.remaining < length) :
    split length reader =
      .error (.ofCause (.unexpectedEnd reader.position)) reader := by
  have unfilled : min length reader.remaining < length := by omega
  simp only [split, Source.split, Reader.split, Reader.remaining_prefixWindow, unfilled, if_true]

/-- The bytes of a reader are those of a window split off from it. -/
theorem bytes_eq (length : Nat) :
    (bytes length : Decode Reader (List UInt8)) = do return (← split length).unread := rfl

theorem bytes_of_le
    (length : Nat)
    (reader : Reader)
    (available : length ≤ reader.remaining) :
    bytes length reader =
      .ok (reader.unread.take length) (reader.advance length) := by
  rw [bytes_eq, bind_of_ok (split_of_le length reader available)]
  rfl

theorem bytes_of_lt
    (length : Nat)
    (reader : Reader)
    (short : reader.remaining < length) :
    bytes length reader =
      .error (.ofCause (.unexpectedEnd reader.position)) reader := by
  rw [bytes_eq, bind_of_error (split_of_lt length reader short)]

/-- A window is finished exactly if it is used up; otherwise the rest is
reported. -/
theorem finish_apply (reader : Reader) :
    finish reader =
      if reader.isEnd then .ok () reader
      else .error (.ofCause (.trailingBytes reader.position reader.remaining)) reader := by
  unfold finish
  rw [bind_of_ok (isEnd_apply reader)]
  cases atEnd : reader.isEnd <;> rfl

end Primitives

end Decode

end WebAssembly
