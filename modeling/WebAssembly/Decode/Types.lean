import WebAssembly.Decode.Basic

/-!
# Decoding types

One decoder for each type of `WebAssembly.Types`, in the layout of the binary
format.
-/

namespace WebAssembly

open Decode

variable {ρ : Type} [Source ρ]

/-- Read any value type. -/
def ValueType.decode : Decode ρ ValueType := do
  let code ← byte
  requireSome (ofCode? code) (.unknownTypeCode code)

/-- Read a number type, the kind of type that params, results, locals and
globals may have. -/
def ValueType.decodeNumber : Decode ρ ValueType := do
  let code ← byte
  requireSome ((ofCode? code).filter isNumber) (.unknownTypeCode code)

/-- Read a function signature, which has at most one result. -/
def FuncType.decode : Decode ρ FuncType := sized do
  let form ← byte
  require (form == ValueType.func.code) (.invalidFuncForm form)
  let params ← counted ValueType.decodeNumber
  let count ← u32
  require (count ≤ 1) (.invalidReturnCount count)
  let results ← times count fun _ => ValueType.decodeNumber
  return fun size => { params, results, size }

/-- Read limits. The flag is judged only after the minimum has been read. -/
def Limits.decode : Decode ρ Limits := sized do
  let flag ← byte
  let min ← u32
  let max ←
    match flag with
    | 0x00 => pure none
    | 0x01 => some <$> u32
    | _ => fail (.invalidLimitsFlag flag)
  return fun size => { min, max, size }

/-- Read the type of a table. -/
def TableType.decode : Decode ρ TableType := sized do
  let code ← byte
  let elemType ← requireSome (ElemType.ofCode? code) (.invalidElemType code)
  let limits ← Limits.decode
  return fun size => { elemType, limits, size }

/-- Read the type of a memory, which consists of its limits. -/
def MemoryType.decode : Decode ρ MemoryType := do
  let limits ← Limits.decode
  return { limits, size := limits.size }

/-- Read the type of a global. -/
def GlobalType.decode : Decode ρ GlobalType := sized do
  let contentType ← ValueType.decodeNumber
  let flag ← byte
  let mutability ← requireSome (Mutability.ofCode? flag) (.invalidMutability flag)
  return fun size => { contentType, mutability, size }

/-- Read a run of locals of one type. -/
def LocalGroup.decode : Decode ρ LocalGroup := do
  let count ← u32
  let type ← ValueType.decodeNumber
  return { count, type }

end WebAssembly
