import WebAssembly.Hexadecimal
import WebAssembly.Module

/-!
# Failures

A failure is a cause together with the places it was met in, outermost first.
Offsets count bytes from the start of the whole input, so that they point at
the same byte from within any part of it.
-/

namespace WebAssembly

/-- What is wrong with an input. -/
inductive Cause
  | malformedVarint (offset : Nat)
  | integerOverflow (offset width : Nat)
  | unexpectedEnd (offset : Nat)
  | invalidMagicOrVersion
  | unknownSection (id : UInt8)
  | duplicateSection (id : UInt8)
  | sectionOutOfOrder (id : UInt8)
  | unknownTypeCode (code : UInt8)
  | unknownOpcode (code : UInt8) (offset : Nat)
  | unknownExternalKind (kind : UInt8)
  | invalidFuncForm (form : UInt8)
  | invalidReturnCount (count : UInt32)
  | invalidMutability (flag : UInt8)
  | invalidLimitsFlag (flag : UInt8)
  | invalidElemType (code : UInt8)
  | invalidBlockType (code : UInt8)
  | invalidConstExpr (code : UInt8)
  | invalidReservedByte (byte : UInt8)
  | missingTypeSection
  | missingFunctionSection
  | missingCodeSection
  | functionCountMismatch (declared bodies : Nat)
  | invalidFunctionIndex (index : UInt32)
  | invalidTypeIndex (index : UInt32)
  | invalidGlobalIndex (index : UInt32)
  | invalidTableIndex (index : UInt32)
  | invalidMemoryIndex (index : UInt32)
  | invalidLocalIndex (index : UInt32)
  | tooManyLocals (total : Nat)
  | unbalancedBlock (offset : Nat)
  | unexpectedElse (offset : Nat)
  | trailingBytes (offset count : Nat)
  | invalidUtf8 (offset : Nat)
  | customSectionEntries
  deriving DecidableEq

/-- The text of a cause. -/
def Cause.message : Cause → String
  | .malformedVarint offset => s!"malformed varint at offset {hexadecimal offset}"
  | .integerOverflow offset width =>
      s!"integer at offset {hexadecimal offset} does not fit in {width} bits"
  | .unexpectedEnd offset => s!"unexpected end of input at offset {hexadecimal offset}"
  | .invalidMagicOrVersion => "invalid binary magic or version"
  | .unknownSection id => s!"unknown section id: {id.toNat}"
  | .duplicateSection id => s!"section {id.toNat} appears more than once"
  | .sectionOutOfOrder id => s!"section {id.toNat} is out of order"
  | .unknownTypeCode code => s!"unknown type code: {hexByte code}"
  | .unknownOpcode code offset =>
      s!"unknown opcode {hexByte code} at offset {hexadecimal offset}"
  | .unknownExternalKind kind => s!"unknown external kind: {hexByte kind}"
  | .invalidFuncForm form => s!"invalid func type form: {hexByte form}"
  | .invalidReturnCount count =>
      s!"invalid return count: {count.toNat}, at most one result is allowed"
  | .invalidMutability flag => s!"invalid mutability flag: {hexByte flag}"
  | .invalidLimitsFlag flag => s!"invalid resizable limits flag: {hexByte flag}"
  | .invalidElemType code => s!"invalid table element type: {hexByte code}"
  | .invalidBlockType code => s!"invalid block type: {hexByte code}"
  | .invalidConstExpr code => s!"invalid init expr opcode: {hexByte code}"
  | .invalidReservedByte byte => s!"reserved byte must be zero, got {hexByte byte}"
  | .missingTypeSection => "type section is required but missing"
  | .missingFunctionSection => "function section is required but missing"
  | .missingCodeSection => "code section is required but missing"
  | .functionCountMismatch declared bodies =>
      s!"function section declares {declared} functions but code section has {bodies} bodies"
  | .invalidFunctionIndex index => s!"invalid function index: {index.toNat}"
  | .invalidTypeIndex index => s!"invalid type index: {index.toNat}"
  | .invalidGlobalIndex index => s!"invalid global index: {index.toNat}"
  | .invalidTableIndex index => s!"invalid table index: {index.toNat}"
  | .invalidMemoryIndex index => s!"invalid memory index: {index.toNat}"
  | .invalidLocalIndex index => s!"invalid local index: {index.toNat}"
  | .tooManyLocals total => s!"too many locals: {total}"
  | .unbalancedBlock offset =>
      s!"block opened without matching end before offset {hexadecimal offset}"
  | .unexpectedElse offset => s!"else without matching if at offset {hexadecimal offset}"
  | .trailingBytes offset count => s!"{count} unread bytes left at offset {hexadecimal offset}"
  | .invalidUtf8 offset => s!"invalid utf-8 string at offset {hexadecimal offset}"
  | .customSectionEntries => "custom sections carry no entries"

/-- Where a cause was met. -/
inductive Context
  | frame (offset : Nat)
  | decodeSection (id : SectionId)
  | decodeEntry (number : Nat)
  | decodeBody (function : UInt32)
  deriving DecidableEq

/-- The text of a context. -/
def Context.message : Context → String
  | .frame offset => s!"failed to frame section at offset {hexadecimal offset}"
  | .decodeSection id => s!"failed to decode {id.title} section"
  | .decodeEntry number => s!"failed to decode entry {number}"
  | .decodeBody function => s!"failed to decode body of function {function.toNat}"

/-- A cause within its contexts, outermost first. -/
structure Failure where
  contexts : List Context
  cause : Cause
  deriving DecidableEq

namespace Failure

/-- A cause that was met in no particular context. -/
def ofCause (cause : Cause) : Failure := ⟨[], cause⟩

/-- Put a failure into one more context. -/
def inContext (failure : Failure) (context : Context) : Failure :=
  { failure with contexts := context :: failure.contexts }

/-- The texts of a failure, from the outermost context to the cause. -/
def chain (failure : Failure) : List String :=
  failure.contexts.map Context.message ++ [failure.cause.message]

/-- A failure in one line. -/
def message (failure : Failure) : String :=
  ": ".intercalate failure.chain

@[simp] theorem contexts_ofCause (cause : Cause) : (ofCause cause).contexts = [] := rfl

@[simp] theorem chain_ofCause (cause : Cause) :
    (ofCause cause).chain = [cause.message] := rfl

@[simp] theorem contexts_inContext (failure : Failure) (context : Context) :
    (failure.inContext context).contexts = context :: failure.contexts := rfl

@[simp] theorem cause_inContext (failure : Failure) (context : Context) :
    (failure.inContext context).cause = failure.cause := rfl

@[simp] theorem chain_inContext (failure : Failure) (context : Context) :
    (failure.inContext context).chain = context.message :: failure.chain := rfl

end Failure

end WebAssembly
