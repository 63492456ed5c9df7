import WebAssembly.Proofs.Instruction
import WebAssembly.Proofs.Bracketing

/-!
# Decoding a sequence of instructions

The decoder of a sequence follows the open scopes in a stack. It accepts exactly
the bracketed sequences behind which their `end` stands, and where it fails for
want of an `end` or because of a stray `else` it says so.
-/

namespace WebAssembly

open Decode
open Layout (spans_append)

theorem Instruction.spans_of_absent
    {op : Opcode}
    (noImmediate : op.immediateKind = .absent)
    (reader after : Reader) :
    (layout ⟨op, .absent⟩).Spans reader after ↔ reader.Passes [op.code] after := by
  simp [layout, noImmediate, Immediate.layout]

/-- An opcode without immediate is an instruction by itself. -/
theorem Instruction.decode_of_absent
    (space : IndexSpace)
    {op : Opcode}
    (noImmediate : op.immediateKind = .absent)
    {reader after : Reader}
    (passes : reader.Passes [op.code] after) :
    decode space reader = .ok ⟨op, .absent⟩ after := by
  refine (reads_decode space _ _ _).mpr ⟨?_, (spans_of_absent noImmediate _ _).mpr passes⟩
  rw [Admissible, noImmediate]
  exact ⟨.inl rfl, trivial⟩

/-- The only instruction with an opcode that takes no immediate. -/
theorem Instruction.eq_of_absent
    {bounds : IndexBounds}
    {instruction : Instruction}
    (noImmediate : instruction.opcode.immediateKind = .absent)
    (admissible : instruction.Admissible bounds) :
    instruction = ⟨instruction.opcode, .absent⟩ := by
  obtain ⟨op, immediate⟩ := instruction
  obtain ⟨suits, -⟩ := admissible
  rw [noImmediate] at suits
  cases immediate with
  | absent => rfl
  | _ => cases suits

/-- Each instruction takes some bytes. -/
theorem Instruction.remaining_lt_of_decode
    {space : IndexSpace}
    {instruction : Instruction}
    {reader after : Reader}
    (decoded : decode space reader = .ok instruction after) :
    after.remaining < reader.remaining := by
  obtain ⟨-, spans⟩ := (reads_decode space _ _ _).mp decoded
  obtain ⟨coded, codeSpans, ⟨list, -, passes⟩⟩ := (spans_append _ _ _ _).mp spans
  have codeRead := ((Layout.spans_bytes _ _ _).mp codeSpans).remaining_eq
  have immediateRead := passes.remaining_eq
  rw [List.length_singleton] at codeRead
  omega

namespace OpenSequence

theorem step_of_error
    {space : IndexSpace}
    {reader after : Reader}
    {failure : Failure}
    (sequence : OpenSequence)
    (fails : Instruction.decode space reader = .error failure after) :
    step space sequence reader = .error failure after := by
  unfold step
  rw [bind_of_ok (position_apply reader), bind_of_error fails]

/-- An instruction that can be decoded is judged by its effect on the scopes. -/
theorem step_of_ok
    {space : IndexSpace}
    {instruction : Instruction}
    {reader after : Reader}
    (sequence : OpenSequence)
    (decoded : Instruction.decode space reader = .ok instruction after) :
    step space sequence reader =
      match Scope.effect sequence.scopes instruction.opcode with
      | .within scopes => .ok (.inl ⟨scopes, instruction :: sequence.reversed⟩) after
      | .closesSequence => .ok (.inr sequence.reversed.reverse) after
      | .strayElse => .error (.ofCause (.unexpectedElse reader.position)) after := by
  unfold step
  rw [bind_of_ok (position_apply reader), bind_of_ok decoded]
  cases Scope.effect sequence.scopes instruction.opcode <;> rfl

/-- Every step through a sequence takes some bytes. -/
theorem progresses (space : IndexSpace) : Progresses (step space) := by
  intro sequence reader next after stepped
  cases outcome : Instruction.decode space reader with
  | error failure afterFailure => simp [step_of_error sequence outcome] at stepped
  | ok instruction behind =>
      have shorter := Instruction.remaining_lt_of_decode outcome
      rw [step_of_ok sequence outcome] at stepped
      split at stepped
      · cases stepped
        exact shorter
      · cases stepped
      · cases stepped

/-- Read the rest of a sequence that is in the middle of being read. -/
def resume (space : IndexSpace) : OpenSequence → Decode Reader (List Instruction) :=
  stepUntilEnd (fun _ => do fail (.unbalancedBlock (← position))) (step space)

/-- At the end of the window, the end of a block is missing. -/
theorem resume_of_end
    (space : IndexSpace)
    (sequence : OpenSequence)
    {reader : Reader}
    (ended : reader.isEnd = true) :
    resume space sequence reader =
      .error (.ofCause (.unbalancedBlock reader.position)) reader := by
  unfold resume
  rw [stepUntilEnd_apply (progresses space), if_pos ended, bind_of_ok (position_apply reader),
    fail_apply]

/-- An instruction that cannot be decoded fails the sequence. -/
theorem resume_of_error
    {space : IndexSpace}
    {reader after : Reader}
    {failure : Failure}
    (sequence : OpenSequence)
    (unread : ¬ reader.isEnd = true)
    (fails : Instruction.decode space reader = .error failure after) :
    resume space sequence reader = .error failure after := by
  unfold resume
  rw [stepUntilEnd_apply (progresses space), if_neg unread, step_of_error sequence fails]

/-- Reading goes on behind an instruction as its effect on the scopes demands. -/
theorem resume_of_ok
    {space : IndexSpace}
    {instruction : Instruction}
    {reader after : Reader}
    (sequence : OpenSequence)
    (decoded : Instruction.decode space reader = .ok instruction after) :
    resume space sequence reader =
      match Scope.effect sequence.scopes instruction.opcode with
      | .within scopes => resume space ⟨scopes, instruction :: sequence.reversed⟩ after
      | .closesSequence => .ok sequence.reversed.reverse after
      | .strayElse => .error (.ofCause (.unexpectedElse reader.position)) after := by
  have unread :=
    Reader.not_isEnd_of_remaining_lt (Instruction.remaining_lt_of_decode decoded)
  unfold resume
  rw [stepUntilEnd_apply (progresses space), if_neg unread,
    step_of_ok sequence decoded]
  cases Scope.effect sequence.scopes instruction.opcode <;> rfl

/-- Instructions whose scopes can be followed are read one after another. -/
theorem resume_append
    {space : IndexSpace}
    {code : List Instruction}
    {scopes last : List Scope}
    {reader after : Reader}
    (reversed : List Instruction)
    (admissible : ∀ instruction ∈ code, instruction.Admissible space.bounds)
    (spans : (Layout.all (code.map Instruction.layout)).Spans reader after)
    (followed : Scope.afterAll scopes (code.map Instruction.opcode) = some last) :
    resume space ⟨scopes, reversed⟩ reader =
      resume space ⟨last, code.reverse ++ reversed⟩ after := by
  induction code generalizing scopes reversed reader with
  | nil =>
      cases followed
      simp only [List.map_nil, Layout.all_nil, Layout.spans_bytes, Reader.passes_nil] at spans
      subst spans
      rfl
  | cons instruction code inductionHypothesis =>
      obtain ⟨middle, firstSpans, restSpans⟩ := (spans_append _ _ _ _).mp spans
      obtain ⟨firstAdmissible, restAdmissible⟩ := List.forall_mem_cons.mp admissible
      obtain ⟨next, goesOn, restFollowed⟩ := Scope.within_of_afterAll_cons followed
      have decoded := (Instruction.reads_decode space _ _ _).mpr ⟨firstAdmissible, firstSpans⟩
      simp only [resume_of_ok _ decoded, goesOn,
        inductionHypothesis (instruction :: reversed) restAdmissible restSpans restFollowed,
        List.reverse_cons, List.append_assoc, List.singleton_append]

/-- Whatever the decoder yields is the rest of a sequence that closes the open
scopes, and its `end`. -/
theorem spans_of_resume
    {space : IndexSpace}
    {scopes : List Scope}
    {reversed result : List Instruction}
    {reader after : Reader}
    (resumed : resume space ⟨scopes, reversed⟩ reader = .ok result after) :
    ∃ code, result = reversed.reverse ++ code ∧
      (∀ instruction ∈ code, instruction.Admissible space.bounds) ∧
      (Instruction.sequenceLayout code).Spans reader after ∧
      Scope.afterAll scopes (code.map Instruction.opcode) = some [] := by
  -- Each instruction takes some bytes, so the rest is a shorter window under its own scopes.
  induction size : reader.remaining using Nat.strong_induction_on
    generalizing scopes reversed reader with
  | _ size inductionHypothesis =>
      by_cases ended : reader.isEnd = true
      · simp [resume_of_end space _ ended] at resumed
      cases outcome : Instruction.decode space reader with
      | error failure behind => simp [resume_of_error _ ended outcome] at resumed
      | ok instruction behind =>
          have shorter := Instruction.remaining_lt_of_decode outcome
          obtain ⟨admissible, spans⟩ := (Instruction.reads_decode space _ _ _).mp outcome
          rw [resume_of_ok _ outcome] at resumed
          cases passed : Scope.effect scopes instruction.opcode with
          | within next =>
              simp only [passed] at resumed
              obtain ⟨code, rfl, codeAdmissible, codeSpans, followed⟩ :=
                inductionHypothesis behind.remaining (size ▸ shorter) resumed rfl
              refine ⟨instruction :: code, by simp, ?_, ?_, ?_⟩
              · exact List.forall_mem_cons.mpr ⟨admissible, codeAdmissible⟩
              · obtain ⟨middle, bodySpans, endSpans⟩ := (spans_append _ _ _ _).mp codeSpans
                exact (spans_append _ _ _ _).mpr
                  ⟨middle, (spans_append _ _ _ _).mpr ⟨behind, spans, bodySpans⟩, endSpans⟩
              · rw [List.map_cons, Scope.afterAll_cons_of_within passed, followed]
          | closesSequence =>
              obtain ⟨rfl, isEnd⟩ := Scope.eq_endOp_of_closesSequence passed
              simp only [passed, EStateM.Result.ok.injEq] at resumed
              obtain ⟨rfl, rfl⟩ := resumed
              have noImmediate : instruction.opcode.immediateKind = .absent := by rw [isEnd]; rfl
              rw [Instruction.eq_of_absent noImmediate admissible,
                Instruction.spans_of_absent noImmediate, isEnd] at spans
              refine ⟨[], by simp, by simp, ?_, rfl⟩
              exact (spans_append _ _ _ _).mpr ⟨reader, by simp, by simpa using spans⟩
          | strayElse => simp [passed] at resumed

end OpenSequence

namespace Instruction

/-- The opcodes of instructions. -/
def opcodes (code : List Instruction) : List Opcode :=
  code.map opcode

/-- Some bytes are the encodings of instructions that respect the bounds. -/
def Spelled (bounds : IndexBounds) (code : List Instruction) (list : List UInt8) : Prop :=
  (∀ instruction ∈ code, instruction.Admissible bounds) ∧
    (Layout.all (code.map layout)).Written list

/-- Some bytes are the encodings of a bracketed sequence of instructions and of
the `end` behind it. -/
def IsBody (bounds : IndexBounds) (code : List Instruction) (list : List UInt8) : Prop :=
  ∃ front, list = front ++ [Opcode.endOp.code] ∧ Spelled bounds code front ∧
    Bracketed (opcodes code)

open OpenSequence

section Spelled

variable {space : IndexSpace} {code : List Instruction} {list : List UInt8}

/-- What goes on reading behind some instructions decides the outcome. -/
theorem decodeSequence_eq_resume
    {scopes : List Scope}
    {reader after : Reader}
    (spelled : Spelled space.bounds code list)
    (followed : Scope.afterAll [] (opcodes code) = some scopes)
    (passes : reader.Passes list after) :
    decodeSequence space reader = resume space ⟨scopes, code.reverse⟩ after := by
  rw [show decodeSequence space = resume space ⟨[], []⟩ from rfl,
    resume_append [] spelled.1 ⟨list, spelled.2, passes⟩ followed, List.append_nil]

/-- Instructions that use up the window leave some scope open. -/
theorem decodeSequence_of_spelled
    {position : Nat}
    (spelled : Spelled space.bounds code list)
    (viable : Viable (opcodes code)) :
    decodeSequence space ⟨position, list⟩ =
      .error (.ofCause (.unbalancedBlock (position + list.length)))
        ⟨position + list.length, []⟩ := by
  obtain ⟨scopes, followed⟩ := (viable_iff _).mp viable
  have passes : Reader.Passes ⟨position, list⟩ list ⟨position + list.length, []⟩ :=
    ⟨by simp, rfl⟩
  rw [decodeSequence_eq_resume spelled followed passes, resume_of_end _ _ rfl]

/-- An opcode of a block whose type is missing cannot be read. -/
theorem decode_of_opener
    {opener : Opcode}
    (takesType : opener.immediateKind = .blockType)
    (position : Nat) :
    decode space ⟨position, [opener.code]⟩ =
      .error (.ofCause (.unbalancedBlock (position + 1))) ⟨position + 1, []⟩ := by
  have immediate : Immediate.decode space opener.immediateKind ⟨position + 1, []⟩ =
      .error (.ofCause (.unbalancedBlock (position + 1))) ⟨position + 1, []⟩ := by
    rw [takesType]
    exact bind_of_error (BlockType.decode_nil _)
  have known : requireSome (Opcode.ofCode? opener.code) (.unknownOpcode opener.code position)
      (Reader.mk (position + 1) []) = .ok opener (Reader.mk (position + 1) []) := by
    simp
  unfold decode
  rw [bind_of_ok (position_apply _), bind_of_ok (byte_cons _ _ _), bind_of_ok known,
    bind_of_error immediate]

/-- So do instructions before an opcode that ends the window before the type of
its block. -/
theorem decodeSequence_of_opener
    {position : Nat}
    {opener : Opcode}
    (spelled : Spelled space.bounds code list)
    (viable : Viable (opcodes code))
    (takesType : opener.immediateKind = .blockType) :
    decodeSequence space ⟨position, list ++ [opener.code]⟩ =
      .error (.ofCause (.unbalancedBlock (position + list.length + 1)))
        ⟨position + list.length + 1, []⟩ := by
  obtain ⟨scopes, followed⟩ := (viable_iff _).mp viable
  have passes : Reader.Passes ⟨position, list ++ [opener.code]⟩ list
      ⟨position + list.length, [opener.code]⟩ :=
    ⟨rfl, rfl⟩
  rw [decodeSequence_eq_resume spelled followed passes,
    resume_of_error _ (by simp [Reader.isEnd]) (decode_of_opener takesType _)]

/-- An `else` that no continuation could follow is stray. -/
theorem decodeSequence_of_strayElse
    {position : Nat}
    {rest : List UInt8}
    (spelled : Spelled space.bounds code list)
    (viable : Viable (opcodes code))
    (stray : ¬ Viable (opcodes code ++ [.elseOp])) :
    decodeSequence space ⟨position, list ++ Opcode.elseOp.code :: rest⟩ =
      .error (.ofCause (.unexpectedElse (position + list.length)))
        ⟨position + list.length + 1, rest⟩ := by
  obtain ⟨scopes, followed⟩ := (viable_iff _).mp viable
  have strayEffect : Scope.effect scopes .elseOp = .strayElse := by
    obtain _ | ⟨_ | _, outer⟩ := scopes
    · rfl
    · rfl
    · refine absurd ((viable_iff _).mpr ⟨.plain :: outer, ?_⟩) stray
      rw [Scope.afterAll_append, followed]
      rfl
  have decoded : decode space ⟨position + list.length, Opcode.elseOp.code :: rest⟩ =
      .ok ⟨.elseOp, .absent⟩ ⟨position + list.length + 1, rest⟩ :=
    decode_of_absent space rfl ⟨rfl, rfl⟩
  have passes : Reader.Passes ⟨position, list ++ Opcode.elseOp.code :: rest⟩ list
      ⟨position + list.length, Opcode.elseOp.code :: rest⟩ :=
    ⟨rfl, rfl⟩
  rw [decodeSequence_eq_resume spelled followed passes, resume_of_ok _ decoded]
  simp only [strayEffect]

end Spelled

/-- Code is decoded exactly from the encodings of its instructions, which must be
bracketed, and the `end` behind them. -/
theorem decodeSequence_eq_ok_iff
    (space : IndexSpace)
    (code : List Instruction)
    (reader after : Reader) :
    decodeSequence space reader = .ok code after ↔
      ∃ list, reader.Passes list after ∧ IsBody space.bounds code list := by
  constructor
  · intro resumed
    obtain ⟨code, rfl, admissible, spans, followed⟩ := spans_of_resume resumed
    obtain ⟨middle, ⟨list, written, passes⟩, endSpans⟩ := (spans_append _ _ _ _).mp spans
    rw [Layout.spans_bytes] at endSpans
    exact ⟨_, (Reader.passes_append _ _ _ _).mpr ⟨middle, passes, endSpans⟩, list, rfl,
      ⟨admissible, written⟩, (bracketed_iff _).mpr followed⟩
  · rintro ⟨_, passes, list, rfl, spelled, bracketed⟩
    obtain ⟨middle, codePasses, endPasses⟩ := (Reader.passes_append _ _ _ _).mp passes
    rw [decodeSequence_eq_resume spelled (bracketed.afterAll_eq []) codePasses,
      resume_of_ok _ (decode_of_absent space rfl endPasses)]
    simp

/-- A sequence is read from its layout if its instructions are admissible and bracketed.
-/
theorem reads_decodeSequence (space : IndexSpace) :
    (decodeSequence space).Reads sequenceLayout fun code =>
      (∀ instruction ∈ code, instruction.Admissible space.bounds) ∧
        Bracketed (opcodes code) := by
  intro code reader after
  rw [decodeSequence_eq_ok_iff]
  constructor
  · rintro ⟨_, passes, list, rfl, ⟨admissible, written⟩, bracketed⟩
    exact ⟨⟨admissible, bracketed⟩, _, (Layout.written_append _ _ _).mpr
      ⟨list, _, rfl, written, (Layout.written_bytes _ _).mpr rfl⟩, passes⟩
  · rintro ⟨⟨admissible, bracketed⟩, list, written, passes⟩
    obtain ⟨front, closing, rfl, frontWritten, closingWritten⟩ :=
      (Layout.written_append _ _ _).mp written
    obtain rfl := (Layout.written_bytes _ _).mp closingWritten
    exact ⟨_, passes, front, rfl, ⟨admissible, frontWritten⟩, bracketed⟩

/-- The decoder of sequences accepts exactly the bodies, each of which is
determined by the input. If the window ends before the `end` of a sequence, or
before the type of a block, a block is unbalanced at the end of the window. An
`else` that cannot follow the instructions before it is unexpected. -/
theorem decodeSequence_spec (space : IndexSpace) (reader : Reader) :
    (∀ code after, decodeSequence space reader = .ok code after ↔
      ∃ list, reader.Passes list after ∧ IsBody space.bounds code list) ∧
    (∀ code other list otherList after otherAfter,
      reader.Passes list after → IsBody space.bounds code list →
      reader.Passes otherList otherAfter → IsBody space.bounds other otherList →
        code = other ∧ after = otherAfter) ∧
    ∀ code list, Spelled space.bounds code list → Viable (opcodes code) →
      (reader.unread = list →
        outcome (decodeSequence space) reader =
          .error (.ofCause (.unbalancedBlock reader.limit))) ∧
      (∀ opener : Opcode, opener = .block ∨ opener = .loop ∨ opener = .ifOp →
        reader.unread = list ++ [opener.code] →
          outcome (decodeSequence space) reader =
            .error (.ofCause (.unbalancedBlock reader.limit))) ∧
      ∀ rest, reader.unread = list ++ Opcode.elseOp.code :: rest →
        ¬ Viable (opcodes code ++ [.elseOp]) →
          outcome (decodeSequence space) reader =
            .error (.ofCause (.unexpectedElse (reader.position + list.length))) := by
  refine ⟨fun code after => decodeSequence_eq_ok_iff space code reader after, ?_, ?_⟩
  · intro code other list otherList after otherAfter passes isBody otherPasses otherIsBody
    have decoded := (decodeSequence_eq_ok_iff space _ _ _).mpr ⟨list, passes, isBody⟩
    have otherDecoded :=
      (decodeSequence_eq_ok_iff space _ _ _).mpr ⟨otherList, otherPasses, otherIsBody⟩
    rw [decoded, EStateM.Result.ok.injEq] at otherDecoded
    exact otherDecoded
  · intro code list spelled viable
    obtain ⟨position, unread⟩ := reader
    refine ⟨?_, ?_, ?_⟩
    · rintro rfl
      simp only [outcome, attempt, decodeSequence_of_spelled spelled viable, Reader.limit,
        Reader.remaining]
    · rintro opener opens rfl
      have takesType : opener.immediateKind = .blockType := by
        obtain rfl | rfl | rfl := opens <;> rfl
      simp only [outcome, attempt, decodeSequence_of_opener spelled viable takesType,
        Reader.limit, Reader.remaining, List.length_append, List.length_singleton, Nat.add_assoc]
    · rintro rest rfl stray
      simp only [outcome, attempt, decodeSequence_of_strayElse spelled viable stray]

/-- A conditional with a padded index in it, a sequence without its `end`, and
an `else` outside of any conditional. -/
theorem decodeSequence_conditional :
    let space : IndexSpace := { types := 0, functions := 0, globals := 0, locals := 1 }
    decodeSequence space ⟨7, [0x04, 0x40, 0x20, 0x80, 0x00, 0x05, 0x0B, 0x0B, 0xFF]⟩ =
        .ok [⟨.ifOp, .block .empty⟩, ⟨.localGet, .localIndex 0⟩, ⟨.elseOp, .absent⟩,
          ⟨.endOp, .absent⟩] ⟨15, [0xFF]⟩ ∧
      outcome (decodeSequence space) ⟨7, [0x01]⟩ =
        .error (.ofCause (.unbalancedBlock 8)) ∧
      outcome (decodeSequence space) ⟨7, [0x01, 0x02]⟩ =
        .error (.ofCause (.unbalancedBlock 9)) ∧
      outcome (decodeSequence space) ⟨7, [0x01, 0x05]⟩ =
        .error (.ofCause (.unexpectedElse 8)) := by
  intro space
  have zero : Numeral.SpellsUnsigned 0 [0x80, 0x00] :=
    ⟨by simp [Numeral.IsGroup], by decide, by decide⟩
  have body : IsBody space.bounds
      [⟨.ifOp, .block .empty⟩, ⟨.localGet, .localIndex 0⟩, ⟨.elseOp, .absent⟩, ⟨.endOp, .absent⟩]
      [0x04, 0x40, 0x20, 0x80, 0x00, 0x05, 0x0B, 0x0B] := by
    refine ⟨[0x04, 0x40, 0x20, 0x80, 0x00, 0x05, 0x0B], rfl, ⟨?_, ?_⟩, ?_⟩
    · have getter : Admissible space.bounds ⟨.localGet, .localIndex 0⟩ :=
        ⟨rfl, show (0 : UInt32).toNat < 1 by decide⟩
      simp only [List.forall_mem_cons, List.not_mem_nil, false_implies, implies_true, and_true]
      exact ⟨⟨rfl, trivial⟩, getter, ⟨.inl rfl, trivial⟩, .inl rfl, trivial⟩
    · have writes := Layout.Writes.beside
        (.beside (.bytes [0x04]) (.bytes [0x40]))
        (.beside (.beside (.bytes [0x20]) (.leb128 (by decide) zero))
          (.beside (.beside (.bytes [0x05]) (.bytes []))
            (.beside (.beside (.bytes [0x0B]) (.bytes [])) (.bytes []))))
      exact ⟨_, writes⟩
    · have getter : Bracketed [.localGet] := .plain ⟨rfl, by decide⟩ .nil
      have conditional := Bracketed.alternative getter .nil .nil
      exact conditional
  have nop : Spelled space.bounds [⟨.nop, .absent⟩] [0x01] := by
    refine ⟨List.forall_mem_singleton.mpr ⟨.inl rfl, trivial⟩, ?_⟩
    have writes := Layout.Writes.beside (.beside (.bytes [0x01]) (.bytes [])) (.bytes [])
    exact ⟨_, writes⟩
  have viable : Viable [.nop] := ⟨[], .plain ⟨rfl, by decide⟩ .nil⟩
  have stray : ¬ Viable [.nop, .elseOp] := by
    rw [viable_iff]
    rintro ⟨scopes, followed⟩
    cases followed
  refine ⟨?_, ?_, ?_, ?_⟩
  · exact ((decodeSequence_spec space _).1 _ _).mpr ⟨_, ⟨rfl, rfl⟩, body⟩
  · exact ((decodeSequence_spec space _).2.2 _ _ nop viable).1 rfl
  · exact ((decodeSequence_spec space _).2.2 _ _ nop viable).2.1 .block (.inl rfl) rfl
  · exact ((decodeSequence_spec space _).2.2 _ _ nop viable).2.2 [] rfl stray

end Instruction

end WebAssembly
