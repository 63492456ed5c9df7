import WebAssembly.Proofs.Counts
import WebAssembly.Proofs.Orderly

/-!
# How a section fails

Entries are decoded one after another. Where a section cannot be decoded there is
mostly a first entry that cannot, and the number in the context of the failure is
its number. In the code section such an entry fails in the window of its body, or
in the payload if there is no such window.

`Section.Faults` lists the ways in which a payload fails, with the window in which
the failure arises. Its cause is true there.
-/

namespace WebAssembly

open Decode

/-! ## Rounds -/

namespace Decode

/-- The rounds of a repeated decoder from one number up to another succeed one after
another. -/
inductive Succeeds (decoder : Nat → Decode Reader α) : Nat → Reader → Nat → Reader → Prop
  | none {round : Nat} {reader : Reader} : Succeeds decoder round reader round reader
  | more {round stop : Nat} {reader middle after : Reader} {value : α}
      (decoded : decoder round reader = .ok value middle)
      (rest : Succeeds decoder (round + 1) middle stop after) :
      Succeeds decoder round reader stop after

/-- The first round of a repeated decoder that fails has a number and begins at a
reader behind the earlier rounds. -/
def FailsFirst
    (decoder : Nat → Decode Reader α)
    (reader : Reader)
    (number : Nat)
    (start : Reader)
    (failure : Failure) : Prop :=
  Succeeds decoder 0 reader number start ∧
    ∃ after, decoder number start = .error failure after

section Rounds

variable {decoder : Nat → Decode Reader α} {reader after : Reader} {failure : Failure}

/-- Rounds that succeed lead onward. -/
theorem Succeeds.leads
    (onward : ∀ round reader value after, decoder round reader = .ok value after →
      reader.Leads after)
    {round stop : Nat}
    (succeeds : Succeeds decoder round reader stop after) :
    reader.Leads after := by
  induction succeeds with
  | none => exact .refl _
  | more decoded _ inductionHypothesis => exact (onward _ _ _ _ decoded).trans inductionHypothesis

/-- Rounds that read at least so many bytes each have read them. -/
theorem Succeeds.mul_le
    {least : Nat}
    (long : ∀ round reader value after, decoder round reader = .ok value after →
      least + after.remaining ≤ reader.remaining)
    {round stop : Nat}
    (succeeds : Succeeds decoder round reader stop after) :
    round ≤ stop ∧ (stop - round) * least + after.remaining ≤ reader.remaining := by
  induction succeeds with
  | none => simp
  | @more round stop reader middle after value decoded _ inductionHypothesis =>
      obtain ⟨ordered, restLong⟩ := inductionHypothesis
      have firstLong := long _ _ _ _ decoded
      have count : stop - round = (stop - (round + 1)) + 1 := by omega
      rw [count, Nat.succ_mul]
      omega

/-- Contexts have no part in rounds that succeed. -/
theorem Succeeds.of_inContext
    {contexts : Nat → Context}
    {round stop : Nat}
    (succeeds : Succeeds (fun number => inContext (contexts number) (decoder number)) round reader
      stop after) :
    Succeeds decoder round reader stop after := by
  induction succeeds with
  | none => exact .none
  | more decoded _ inductionHypothesis =>
      exact .more ((inContext_eq_ok_iff _ _ _ _ _).mp decoded) inductionHypothesis

/-- Rounds that fail do so in one of them, behind others that succeed. -/
theorem exists_of_timesFrom_error
    {count round : Nat}
    {collected : List α}
    (failed : timesFrom decoder count round collected reader = .error failure after) :
    ∃ number start, number < round + count ∧ Succeeds decoder round reader number start ∧
      decoder number start = .error failure after := by
  induction count generalizing round collected reader with
  | zero => cases failed
  | succ count inductionHypothesis =>
      rw [timesFrom] at failed
      cases outcome : decoder round reader with
      | error other middle =>
          rw [bind_of_error outcome] at failed
          cases failed
          exact ⟨round, reader, by omega, .none, outcome⟩
      | ok value middle =>
          rw [bind_of_ok outcome] at failed
          obtain ⟨number, start, few, succeeds, numberFailed⟩ := inductionHypothesis failed
          exact ⟨number, start, by omega, .more outcome succeeds, numberFailed⟩

/-- The items of a list are decoded like rounds with the numbers of the items. -/
theorem exists_of_mapM_zipIdx_error
    {function : β × Nat → Decode Reader α}
    {items : List β}
    {round : Nat}
    (same : ∀ index item, items[index]? = some item →
      function (item, round + index) = decoder (round + index))
    (failed : (items.zipIdx round).mapM function reader = .error failure after) :
    ∃ number start, number < round + items.length ∧ Succeeds decoder round reader number start ∧
      ∃ afterNumber, decoder number start = .error failure afterNumber := by
  induction items generalizing round reader with
  | nil => cases failed
  | cons item items inductionHypothesis =>
      have first : function (item, round) = decoder round := same 0 item rfl
      rw [List.zipIdx_cons, List.mapM_cons, first] at failed
      rw [List.length_cons]
      cases outcome : decoder round reader with
      | error other middle =>
          rw [bind_of_error outcome] at failed
          cases failed
          exact ⟨round, reader, by omega, .none, _, outcome⟩
      | ok value middle =>
          rw [bind_of_ok outcome] at failed
          cases rest : (items.zipIdx (round + 1)).mapM function middle with
          | ok values final =>
              rw [bind_of_ok rest] at failed
              cases failed
          | error other final =>
              rw [bind_of_error rest] at failed
              cases failed
              have restSame (index : Nat) (item : β) (present : items[index]? = some item) :
                  function (item, round + 1 + index) = decoder (round + 1 + index) := by
                have shifted := same (index + 1) item present
                rwa [Nat.add_comm index 1, ← Nat.add_assoc] at shifted
              obtain ⟨number, start, few, succeeds, numberFailed⟩ :=
                inductionHypothesis restSame rest
              exact ⟨number, start, by omega, .more outcome succeeds, numberFailed⟩

end Rounds

end Decode

/-! ## Windows that there may be -/

/-- What a decoder yields on a reader, unless it fails there. -/
def Decode.value? (decoder : Decode Reader α) (reader : Reader) : Option α :=
  (outcome decoder reader).toOption

namespace Decode

variable {decoder : Decode Reader α} {reader after : Reader}

theorem value?_of_ok {value : α} (decoded : decoder reader = .ok value after) :
    decoder.value? reader = some value := by
  rw [value?, (outcome_eq_ok_iff _ _ _).mpr ⟨after, decoded⟩]
  rfl

theorem value?_of_error {failure : Failure} (failed : decoder reader = .error failure after) :
    decoder.value? reader = none := by
  rw [value?, (outcome_eq_error_iff _ _ _).mpr ⟨after, failed⟩]
  rfl

theorem exists_of_value? {value : α} (present : decoder.value? reader = some value) :
    ∃ after, decoder reader = .ok value after := by
  cases outcome : decoder reader with
  | error failure after => simp [value?_of_error outcome] at present
  | ok other after =>
      rw [value?_of_ok outcome] at present
      cases present
      exact ⟨after, rfl⟩

end Decode

/-! ## Bodies -/

/-- Split off the window of a function body behind its size. -/
def Body.splitWindow : Decode Reader Reader := do
  split (← u32).toNat

/-- The window of the function body at a reader, unless the size is missing or too
large. -/
def Body.window? (reader : Reader) : Option Reader :=
  Body.splitWindow.value? reader

/-- The window of a body lies in what is left to read. -/
theorem Body.holds_of_window?
    {reader window : Reader}
    (splits : Body.window? reader = some window) :
    reader.Holds window := by
  obtain ⟨after, decoded⟩ := exists_of_value? splits
  obtain ⟨size, sized, sizeRead, decoded⟩ := (bind_eq_ok_iff _ _ _ _ _).mp decoded
  have orderly : u32.Orderly .payload := .u32
  exact .of_split ((orderly reader).leads_of_ok sizeRead) decoded

/-- A failure without contexts is its cause. -/
theorem Failure.eq_ofCause {failure : Failure} (plain : failure.contexts = []) :
    failure = .ofCause failure.cause := by
  cases failure
  cases plain
  rfl

/-- A body that is not decoded fails in its window, or has none. -/
theorem Body.exists_of_decode_error
    {space : IndexSpace}
    {type : FuncType}
    {reader after : Reader}
    {failure : Failure}
    (failed : Body.decode space type reader = .error failure after) :
    ∃ cause, failure = .ofCause cause ∧
      ((Body.window? reader = none ∧ cause.HoldsIn .payload reader) ∨
        ∃ window final, Body.window? reader = some window ∧
          Body.decodeContent space type window = .error failure final ∧
          cause.HoldsIn .body window) := by
  have sizeOrderly : u32.Orderly .payload := .u32
  simp only [decode, sized_eq_error_iff, bind_eq_error_iff, within_eq_error_iff, pure_ne_error,
    and_false, exists_false, or_false] at failed
  obtain failed | ⟨size, sized, sizeRead, failed | ⟨window, behind, splits, ⟨rest, failed⟩, -⟩⟩ :=
    failed
  · obtain ⟨-, plain, holds⟩ := (sizeOrderly reader).of_failure failed
    exact ⟨_, Failure.eq_ofCause plain, .inl ⟨value?_of_error (bind_of_error failed), holds⟩⟩
  · have leads := (sizeOrderly reader).leads_of_ok sizeRead
    obtain ⟨-, plain, holds⟩ := (Orderly.split size.toNat sized).of_failure failed
    exact ⟨_, Failure.eq_ofCause plain,
      .inl ⟨value?_of_error ((bind_of_ok sizeRead).trans failed), .of_leads leads holds⟩⟩
  · obtain ⟨-, plain, holds⟩ := (orderly_decodeContent space type window).of_failure failed
    exact ⟨_, Failure.eq_ofCause plain, .inr ⟨window, rest,
      value?_of_ok ((bind_of_ok sizeRead).trans splits), failed, holds⟩⟩

/-! ## Sections -/

/-- What spans a layout leads onward. -/
theorem Layout.Spans.leads
    {layout : Layout}
    {reader after : Reader}
    (spans : layout.Spans reader after) :
    reader.Leads after := by
  obtain ⟨list, -, passes⟩ := spans
  exact passes.leads

/-- The decoder of the function with a number among those that a module defines. -/
def Module.decodeFunc (module : Module) (number : Nat) : Decode Reader Func :=
  Func.decode module.indexSpace (Module.entries module.types)
    (module.importedFunctions + number.toUInt32)
    ((Module.entries module.functions).getD number 0)

namespace Section

/-- The first entry of a section that is not decoded has a number and begins at a
reader behind the earlier entries. -/
def FailsFirst
    (module : Module)
    (payload : Reader)
    (number : Nat)
    (start : Reader)
    (failure : Failure) :
    SectionId → Prop
  | .custom | .start => False
  | .types => Decode.FailsFirst (fun _ => FuncType.decode) payload number start failure
  | .imports => Decode.FailsFirst (fun _ => Import.decode module) payload number start failure
  | .functions =>
      Decode.FailsFirst (fun _ => Section.decodeTypeIndex module) payload number start failure
  | .tables => Decode.FailsFirst (fun _ => TableType.decode) payload number start failure
  | .memories => Decode.FailsFirst (fun _ => MemoryType.decode) payload number start failure
  | .globals => Decode.FailsFirst (fun _ => Global.decode module) payload number start failure
  | .exports => Decode.FailsFirst (fun _ => Export.decode module) payload number start failure
  | .elements =>
      Decode.FailsFirst (fun _ => ElementSegment.decode module) payload number start failure
  | .code => Decode.FailsFirst module.decodeFunc payload number start failure
  | .data => Decode.FailsFirst (fun _ => DataSegment.decode module) payload number start failure

/-- A failure in the body of the function with a number among those that a module
defines. -/
def bodyFailure (module : Module) (number : Nat) (cause : Cause) : Failure :=
  (Failure.ofCause cause).inContext
    (.decodeBody (module.importedFunctions + number.toUInt32))

@[simp] theorem contexts_bodyFailure (module : Module) (number : Nat) (cause : Cause) :
    (bodyFailure module number cause).contexts =
      [.decodeBody (module.importedFunctions + number.toUInt32)] := rfl

/-- The ways in which a section fails: apart from its entries, in an entry, in the
size of a body, or in a body. A failure in a body arises in the window of the body,
any other in the payload. -/
inductive Faults (module : Module) (id : SectionId) (payload : Reader) :
    Failure → Zone → Reader → Prop
  | apart {cause : Cause} : Faults module id payload (.ofCause cause) .payload payload
  | entry {number : Nat} {start : Reader} {cause : Cause}
      (notCode : id ≠ .code)
      (first : FailsFirst module payload number start (.ofCause cause) id) :
      Faults module id payload ((Failure.ofCause cause).inContext (.decodeEntry number)) .payload
        payload
  | size {number : Nat} {start : Reader} {cause : Cause}
      (isCode : id = .code)
      (first : FailsFirst module payload number start (bodyFailure module number cause) id)
      (unsplit : Body.window? start = none) :
      Faults module id payload (bodyFailure module number cause) .payload payload
  | body {number : Nat} {start window after : Reader} {cause : Cause} {type : FuncType}
      (isCode : id = .code)
      (first : FailsFirst module payload number start (bodyFailure module number cause) id)
      (splits : Body.window? start = some window)
      (failed : Body.decodeContent module.indexSpace type window =
        .error (.ofCause cause) after) :
      Faults module id payload (bodyFailure module number cause) .body window

section Failing

variable {module : Module} {count : UInt32} {payload after : Reader} {failure : Failure}

/-- Where entries are not all decoded, there is a first that is not. -/
theorem exists_of_decodeEntries_error
    {entry : Decode Reader α}
    (orderly : entry.Orderly .payload)
    (failed : decodeEntries count entry payload = .error failure after) :
    ∃ number start cause, Decode.FailsFirst (fun _ => entry) payload number start (.ofCause cause) ∧
      failure = (Failure.ofCause cause).inContext (.decodeEntry number) ∧
      cause.HoldsIn .payload payload := by
  obtain ⟨number, start, -, succeeds, numberFailed⟩ := exists_of_timesFrom_error failed
  have earlier : Succeeds (fun _ => entry) 0 payload number start := succeeds.of_inContext
  have leads := earlier.leads fun _ reader _ _ => (orderly reader).leads_of_ok
  obtain ⟨inner, entryFailed, rfl⟩ := (inContext_eq_error_iff _ _ _ _ _).mp numberFailed
  obtain ⟨-, plain, holds⟩ := (orderly start).of_failure entryFailed
  rw [Failure.eq_ofCause plain] at entryFailed ⊢
  exact ⟨number, start, _, ⟨earlier, _, entryFailed⟩, rfl, holds.of_leads leads⟩

/-- A function that is not decoded has no type or fails in its body. -/
theorem exists_of_decodeFunc_error
    {number : Nat}
    {start : Reader}
    (failed : module.decodeFunc number start = .error failure after) :
    (∃ index, failure = .ofCause (.invalidTypeIndex index)) ∨
      ∃ cause, failure = bodyFailure module number cause ∧
        ((Body.window? start = none ∧ cause.HoldsIn .payload start) ∨
          ∃ window final type, Body.window? start = some window ∧
            Body.decodeContent module.indexSpace type window = .error (.ofCause cause) final ∧
            cause.HoldsIn .body window) := by
  simp only [Module.decodeFunc, Func.decode, bind_eq_error_iff, requireSome_eq_error_iff,
    requireSome_eq_ok_iff, inContext_eq_error_iff, pure_ne_error, and_false, exists_false,
    or_false] at failed
  obtain ⟨-, rfl, -⟩ | ⟨type, _, ⟨-, rfl⟩, inner, failed, rfl⟩ := failed
  · exact .inl ⟨_, rfl⟩
  · obtain ⟨cause, rfl, fault⟩ := Body.exists_of_decode_error failed
    refine .inr ⟨cause, rfl, ?_⟩
    obtain unsplit | ⟨window, final, splits, failed, holds⟩ := fault
    · exact .inl unsplit
    · exact .inr ⟨window, final, type, splits, failed, holds⟩

/-- Functions that are decoded move the reader on, by two bytes or more. -/
theorem leads_of_decodeFunc
    (countable : module.Countable)
    (number : Nat)
    (reader : Reader)
    (function : Func)
    (after : Reader)
    (decoded : module.decodeFunc number reader = .ok function after) :
    reader.Leads after ∧ 2 + after.remaining ≤ reader.remaining := by
  obtain ⟨-, spans⟩ := (Func.reads_decode _ countable.params _ _ _ _ _).mp decoded
  obtain ⟨list, written, passes⟩ := spans
  have long := written.func_length
  have count := passes.remaining_eq
  exact ⟨passes.leads, by omega⟩

/-- A failure among the bodies is at fault in the window of one of them, or in front of
one. -/
theorem exists_faults_of_decodeCode
    (countable : module.Countable)
    (failed : decodeCode module count payload = .error failure after) :
    ∃ zone window, Faults module .code payload failure zone window ∧ payload.Holds window ∧
      failure.cause.HoldsIn zone window := by
  have whole : payload.Holds payload := .of_leads (.refl payload)
  have apart {cause : Cause} (unplaced : cause.offset? = none) :
      ∃ zone window, Faults module .code payload (.ofCause cause) zone window ∧
        payload.Holds window ∧ cause.HoldsIn zone window :=
    ⟨.payload, payload, .apart, whole, .of_unplaced unplaced⟩
  simp only [decodeCode, bind_eq_error_iff, requireSome_eq_error_iff, require_eq_error_iff,
    requireSome_eq_ok_iff, require_eq_ok_iff] at failed
  obtain ⟨-, rfl, -⟩ | ⟨types, _, ⟨hasTypes, rfl⟩, ⟨-, rfl, -⟩ |
    ⟨functions, _, ⟨hasFunctions, rfl⟩, ⟨-, rfl, -⟩ | ⟨_, _, ⟨-, rfl⟩, failed⟩⟩⟩ := failed
  · exact apart rfl
  · exact apart rfl
  · exact apart rfl
  -- The bodies are rounds that look up their own types, so a failure is one of a round.
  · have same (index : Nat) (typeIndex : UInt32) (present : functions[index]? = some typeIndex) :
        Func.decode module.indexSpace types
            (module.importedFunctions + (0 + index).toUInt32) typeIndex =
          module.decodeFunc (0 + index) := by
      rw [Module.decodeFunc, hasTypes, hasFunctions, Module.entries_some, Module.entries_some,
        Nat.zero_add, List.getD_eq_getElem?_getD, present, Option.getD_some]
    obtain ⟨number, start, -, succeeds, final, numberFailed⟩ :=
      exists_of_mapM_zipIdx_error same failed
    have leads := succeeds.leads fun round reader function after decoded =>
      (leads_of_decodeFunc countable round reader function after decoded).1
    have first : FailsFirst module payload number start failure .code :=
      ⟨succeeds, final, numberFailed⟩
    obtain ⟨index, rfl⟩ |
      ⟨cause, rfl, ⟨unsplit, holds⟩ | ⟨window, _, type, splits, failed, holds⟩⟩ :=
      exists_of_decodeFunc_error numberFailed
    · exact apart rfl
    · exact ⟨_, _, .size rfl first unsplit, whole, holds.of_leads leads⟩
    · have inside : payload.Holds window := by
        obtain ⟨front, back, unread, position⟩ := Body.holds_of_window? splits
        obtain ⟨list, passed, moved⟩ := leads
        refine ⟨list ++ front, back, by simp [passed, unread], ?_⟩
        rw [position, moved, List.length_append, Nat.add_assoc]
      exact ⟨_, _, .body rfl first splits failed, inside, holds⟩

/-- A section of entries fails in one of them. -/
theorem exists_faults_of_decodeEntries
    {entry : Decode Reader α}
    (orderly : entry.Orderly .payload)
    (make : List α → Section)
    {id : SectionId}
    (notCode : id ≠ .code)
    (first : ∀ number start failure,
      Decode.FailsFirst (fun _ => entry) payload number start failure →
        FailsFirst module payload number start failure id)
    (failed : (decodeEntries count entry >>= fun list => pure (make list)) payload =
      .error failure after) :
    ∃ zone window, Faults module id payload failure zone window ∧ payload.Holds window ∧
      failure.cause.HoldsIn zone window := by
  obtain ⟨number, start, cause, fails, rfl, holds⟩ :=
    exists_of_decodeEntries_error orderly ((bind_pure_eq_error_iff _ _ _ _ _).mp failed)
  exact ⟨_, _, .entry notCode (first _ _ _ fails), .of_leads (.refl payload), holds⟩

/-- Whatever section fails, its failure is placed in its payload. -/
theorem exists_faults_of_decodeContent
    (countable : module.Countable)
    {id : SectionId}
    (failed : decodeContent module count id payload = .error failure after) :
    ∃ zone window, Faults module id payload failure zone window ∧ payload.Holds window ∧
      failure.cause.HoldsIn zone window := by
  have whole : payload.Holds payload := .of_leads (.refl payload)
  cases id with
  | custom =>
      cases failed
      exact ⟨_, _, .apart, whole, .of_unplaced rfl⟩
  | types =>
      exact exists_faults_of_decodeEntries FuncType.orderly_decode .types nofun
        (fun _ _ _ first => first) failed
  | imports =>
      exact exists_faults_of_decodeEntries (Import.orderly_decode module) .imports nofun
        (fun _ _ _ first => first) failed
  | functions =>
      exact exists_faults_of_decodeEntries (orderly_decodeTypeIndex module) .functions nofun
        (fun _ _ _ first => first) failed
  | tables =>
      exact exists_faults_of_decodeEntries TableType.orderly_decode .tables nofun
        (fun _ _ _ first => first) failed
  | memories =>
      exact exists_faults_of_decodeEntries MemoryType.orderly_decode .memories nofun
        (fun _ _ _ first => first) failed
  | globals =>
      exact exists_faults_of_decodeEntries (Global.orderly_decode module) .globals nofun
        (fun _ _ _ first => first) failed
  | exports =>
      exact exists_faults_of_decodeEntries (Export.orderly_decode module) .exports nofun
        (fun _ _ _ first => first) failed
  | start =>
      obtain ⟨-, rfl, -⟩ := (require_eq_error_iff _ _ _ _ _).mp
        ((bind_pure_eq_error_iff _ (fun _ => Section.start count) _ _ _).mp failed)
      exact ⟨_, _, .apart, whole, .of_unplaced rfl⟩
  | elements =>
      exact exists_faults_of_decodeEntries (ElementSegment.orderly_decode module) .elements nofun
        (fun _ _ _ first => first) failed
  | code =>
      exact exists_faults_of_decodeCode countable ((bind_pure_eq_error_iff _ _ _ _ _).mp failed)
  | data =>
      exact exists_faults_of_decodeEntries (DataSegment.orderly_decode module) .data nofun
        (fun _ _ _ first => first) failed

/-- A section fails in one of the ways that there are, in a window where the cause is
true. -/
theorem exists_faults_of_decode
    (countable : module.Countable)
    {id : SectionId}
    (failed : decode module id count payload = .error failure after) :
    ∃ zone window, Faults module id payload failure zone window ∧ payload.Holds window ∧
      failure.cause.HoldsIn zone window := by
  simp only [decode, bind_eq_error_iff, pure_ne_error, and_false, exists_false, or_false] at failed
  obtain failed | ⟨content, middle, decoded, failed⟩ := failed
  · exact exists_faults_of_decodeContent countable failed
  · obtain ⟨-, -, -, spans⟩ := (decodeContent_eq_ok_iff countable _ _ _ _ _).mp decoded
    have orderly : finish.Orderly .payload := .finish (.inl rfl)
    obtain ⟨-, plain, holds⟩ := (orderly middle).of_failure failed
    rw [Failure.eq_ofCause plain]
    exact ⟨_, _, .apart, .of_leads (.refl payload), holds.of_leads spans.leads⟩

end Failing

end Section

end WebAssembly
