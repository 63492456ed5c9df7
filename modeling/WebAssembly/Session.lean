import WebAssembly.Frame

/-!
# Reading sessions

A session reads one buffer step by step. It keeps a stack of readers: splitting
off a window makes that window current, and leaving it returns to the reader it
was split off from. Every step reports a value or a failure, and the session
goes on with whatever reader the step has left behind.
-/

namespace WebAssembly

/-- What a step may read from the current reader. -/
inductive Reading
  | isEnd
  | peek
  | finish
  | byte
  | u32
  | i32
  | i64
  | f32
  | f64
  | bytes (length : Nat)
  | string (length : Nat)
  | valueType
  | numberType
  | funcType
  | limits
  | tableType
  | memoryType
  | globalType
  | localGroup
  | constExpr (globals : UInt32)
  | instruction (space : IndexSpace)
  | instructions (space : IndexSpace)
  deriving DecidableEq

/-- What a step may yield. -/
inductive Item
  | nothing
  | flag (value : Bool)
  | next (byte : Option UInt8)
  | byte (value : UInt8)
  | u32 (value : UInt32)
  | i32 (value : Int32)
  | i64 (value : Int64)
  | f32 (bits : UInt32)
  | f64 (bits : UInt64)
  | bytes (value : List UInt8)
  | string (value : String)
  | valueType (value : ValueType)
  | funcType (value : FuncType)
  | limits (value : Limits)
  | tableType (value : TableType)
  | memoryType (value : MemoryType)
  | globalType (value : GlobalType)
  | localGroup (value : LocalGroup)
  | constExpr (value : ConstExpr)
  | instruction (value : Instruction)
  | instructions (value : List Instruction)
  deriving DecidableEq

/-- The decoder that performs a reading. -/
def Reading.decode [Source ρ] : Reading → Decode ρ Item
  | .isEnd => return .flag (← Decode.isEnd)
  | .peek => return .next (← Decode.peek)
  | .finish => do
      Decode.finish
      return .nothing
  | .byte => return .byte (← Decode.byte)
  | .u32 => return .u32 (← Decode.u32)
  | .i32 => return .i32 (← Decode.i32)
  | .i64 => return .i64 (← Decode.i64)
  | .f32 => return .f32 (← Decode.f32)
  | .f64 => return .f64 (← Decode.f64)
  | .bytes length => return .bytes (← Decode.bytes length)
  | .string length => return .string (← Decode.string length)
  | .valueType => return .valueType (← ValueType.decode)
  | .numberType => return .valueType (← ValueType.decodeNumber)
  | .funcType => return .funcType (← FuncType.decode)
  | .limits => return .limits (← Limits.decode)
  | .tableType => return .tableType (← TableType.decode)
  | .memoryType => return .memoryType (← MemoryType.decode)
  | .globalType => return .globalType (← GlobalType.decode)
  | .localGroup => return .localGroup (← LocalGroup.decode)
  | .constExpr globals => return .constExpr (← ConstExpr.decode globals)
  | .instruction space => return .instruction (← Instruction.decode space)
  | .instructions space => return .instructions (← Instruction.decodeSequence space)

/-- One step of a session. -/
inductive Step
  /-- Put the current reader onto a window of the buffer. -/
  | window (start stop : Nat)
  /-- Split off a window and make it current. -/
  | split (length : Nat)
  /-- Return to the reader that the current one was split off from, if any. -/
  | leave
  /-- Read something from the current reader. -/
  | read (reading : Reading)
  deriving DecidableEq

/-- A buffer with a stack of readers. -/
structure Session where
  buffer : List UInt8
  current : Reader
  outer : List Reader
  deriving DecidableEq

namespace Session

/-- Begin with a reader over a whole buffer, which is its greatest window. -/
def ofBytes (buffer : List UInt8) : Session :=
  { buffer, current := Reader.ofBytes buffer, outer := [] }

/-- Begin with a reader over a window of a buffer. -/
def ofWindow (buffer : List UInt8) (start stop : Nat) : Session :=
  { buffer, current := Reader.window buffer start stop, outer := [] }

/-- Perform one step. -/
def perform (session : Session) : Step → Except Failure Item × Session
  | .window start stop =>
      (.ok .nothing, { session with current := Reader.window session.buffer start stop })
  | .split length =>
      match Decode.split length session.current with
      | .ok window after =>
          (.ok .nothing, { session with current := window, outer := after :: session.outer })
      | .error failure after => (.error failure, { session with current := after })
  | .leave =>
      match session.outer with
      | [] => (.ok .nothing, session)
      | reader :: outer => (.ok .nothing, { session with current := reader, outer })
  | .read reading =>
      let (report, after) := Decode.attempt reading.decode session.current
      (report, { session with current := after })

/-- Perform steps one after another. The result has the report of each step and
the session after it. -/
def run : Session → List Step → List (Except Failure Item × Session)
  | _, [] => []
  | session, step :: rest =>
      let result := session.perform step
      result :: run result.2 rest

end Session

end WebAssembly
