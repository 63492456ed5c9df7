import WebAssembly.Numeral

/-!
# Sources

A source stands somewhere in the input and has a window of bytes ahead of it. A
decoder learns nothing of the input but through the operations of its source. So
the decoders of the format are written once for all kinds of sources: for
readers, which hold the bytes of their window, and for cursors, which index a
buffer that goes on behind it.
-/

namespace WebAssembly

/-- A computation that reads from a source and may fail. Either way there is a
source afterwards. -/
abbrev Decode (ρ : Type) := EStateM Failure ρ

/-- What can be done with a source. -/
class Source (ρ : Type) where
  /-- Where the next byte stands in the input. -/
  position : ρ → Nat
  /-- How many bytes of the window are unread. -/
  remaining : ρ → Nat
  /-- Whether the window has been read. -/
  isEnd : ρ → Bool
  /-- The next byte of the window, if there is one. -/
  peek : ρ → Option UInt8
  /-- Read one byte. -/
  byte : Decode ρ UInt8
  /-- Read one number. -/
  number : (List UInt8 → Except Numeral.Fault (α × Nat)) → Decode ρ α
  /-- Read some bytes. -/
  bytes : Nat → Decode ρ (List UInt8)
  /-- Split off a source for the next bytes. -/
  split : Nat → Decode ρ ρ

end WebAssembly
