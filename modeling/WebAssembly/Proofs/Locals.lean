import WebAssembly.Proofs.Faults

/-!
# The cap on locals

A function may have `Body.maxLocals` params and locals together. The decoder adds the
counts of the groups to the number of params and compares the sum behind each group.
Only a group can therefore be refused, and the sum is refused exactly if it exceeds
the cap behind some group. A function without groups is not refused for its locals,
however many params it has.

The sum is also what the code is checked against. It is handed on as a word, which
holds it.
-/

namespace WebAssembly

open Decode
open Layout (spans_append)

/-! ## Decoders that refuse no locals -/

/-- Whether a cause is that a function has too many locals. -/
def Cause.isTooManyLocals : Cause → Bool
  | .tooManyLocals _ => true
  | _ => false

namespace Decode

/-- A decoder fails for other reasons than too many locals. -/
def Uncapped (decoder : Decode Reader α) : Prop :=
  ∀ reader failure after, decoder reader = .error failure after →
    failure.cause.isTooManyLocals = false

namespace Uncapped

/-- Such a decoder never refuses locals. -/
theorem not_refuses
    {decoder : Decode Reader α}
    (uncapped : decoder.Uncapped)
    {reader after : Reader}
    {failure : Failure}
    (failed : decoder reader = .error failure after)
    {sum : Nat} :
    failure.cause ≠ .tooManyLocals sum := by
  intro refuses
  have other := uncapped reader failure after failed
  rw [refuses] at other
  cases other

theorem pure (value : α) : (Pure.pure value : Decode Reader α).Uncapped := nofun

/-- If the parts of a sequence do not count locals, neither does the sequence. The
lemmas that follow say so of the other primitives and combinators. -/
theorem bind
    {decoder : Decode Reader α}
    {next : α → Decode Reader β}
    (first : decoder.Uncapped)
    (rest : ∀ value, (next value).Uncapped) :
    (decoder >>= next).Uncapped := by
  intro reader failure after failed
  obtain failed | ⟨value, middle, -, failed⟩ := (bind_eq_error_iff _ _ _ _ _).mp failed
  · exact first _ _ _ failed
  · exact rest value _ _ _ failed

theorem fail {cause : Cause} (other : cause.isTooManyLocals = false) :
    (Decode.fail cause : Decode Reader α).Uncapped := by
  intro reader failure after failed
  cases failed
  exact other

theorem require (condition : Bool) {cause : Cause} (other : cause.isTooManyLocals = false) :
    (Decode.require condition cause).Uncapped := by
  cases condition with
  | true => exact .pure ()
  | false => exact .fail other

theorem requireSome (value : Option α) {cause : Cause} (other : cause.isTooManyLocals = false) :
    (Decode.requireSome value cause).Uncapped := by
  cases value with
  | some value => exact .pure value
  | none => exact .fail other

theorem position : position.Uncapped := nofun

theorem remaining : remaining.Uncapped := nofun

theorem isEnd : isEnd.Uncapped := nofun

theorem peek : peek.Uncapped := nofun

theorem byte : byte.Uncapped := by
  rintro ⟨position, unread⟩ failure after failed
  cases unread with
  | nil =>
      cases failed
      rfl
  | cons value rest => cases failed

/-- No number is refused for being too many locals. -/
theorem number (read : List UInt8 → Except Numeral.Fault (α × Nat)) : (number read).Uncapped := by
  intro reader failure after failed
  obtain ⟨fault, -, rfl, -⟩ := (number_eq_error_iff _ _ _ _).mp failed
  cases fault <;> rfl

theorem split (length : Nat) : (split length).Uncapped := by
  intro reader failure after failed
  obtain available | short := le_or_gt length reader.remaining
  · rw [split_of_le length reader available] at failed
    cases failed
  · rw [split_of_lt length reader short] at failed
    cases failed
    rfl

theorem finish : finish.Uncapped := by
  intro reader failure after failed
  rw [finish_apply] at failed
  split at failed
  · cases failed
  · cases failed
    rfl

theorem indexBelow
    (bound : UInt32)
    {cause : UInt32 → Cause}
    (other : ∀ index, (cause index).isTooManyLocals = false) :
    (indexBelow bound cause).Uncapped :=
  .bind (.number _) fun index => .bind (.require _ (other index)) fun _ => .pure index

theorem reservedByte : reservedByte.Uncapped :=
  .bind byte fun _ => .require _ rfl

/-- Rounds do not count what they collect. -/
theorem timesFrom
    {decoder : Nat → Decode Reader α}
    (uncapped : ∀ round, (decoder round).Uncapped)
    (count round : Nat)
    (collected : List α) :
    (timesFrom decoder count round collected).Uncapped := by
  induction count generalizing round collected with
  | zero => exact .pure _
  | succ count inductionHypothesis =>
      exact .bind (uncapped round) fun value => inductionHypothesis (round + 1) _

theorem counted {decoder : Decode Reader α} (uncapped : decoder.Uncapped) :
    (counted decoder).Uncapped :=
  .bind (.number _) fun _ => .timesFrom (fun _ => uncapped) _ _ _

/-- A loop counts no locals if its steps count none. -/
theorem stepFor
    {atEnd : σ → Decode Reader α}
    {step : σ → Decode Reader (σ ⊕ α)}
    (ends : ∀ state, (atEnd state).Uncapped)
    (steps : ∀ state, (step state).Uncapped)
    (rounds : Nat)
    (state : σ) :
    (stepFor atEnd step rounds state).Uncapped := by
  induction rounds generalizing state with
  | zero => exact ends state
  | succ rounds inductionHypothesis =>
      refine .bind isEnd fun ended => ?_
      split
      · exact ends state
      · refine .bind (steps state) fun outcome => ?_
        cases outcome with
        | inl next => exact inductionHypothesis next
        | inr result => exact .pure result

end Uncapped

end Decode

theorem LocalGroup.uncapped_decode : LocalGroup.decode.Uncapped :=
  .bind (.number _) fun _ =>
    .bind (.bind .byte fun _ => .requireSome _ rfl) fun _ => .pure _

theorem BlockType.uncapped_decode : BlockType.decode.Uncapped := by
  have taken {type : BlockType} : Decode.Uncapped (do let _ ← Decode.byte; return type) :=
    .bind .byte fun _ => .pure _
  refine .bind .peek fun next => ?_
  split
  · exact .bind .position fun _ => .fail rfl
  · exact taken
  · split
    · exact taken
    · exact .fail rfl

/-- No immediate is refused for too many locals, whatever its kind. -/
theorem Immediate.uncapped_decode (space : IndexSpace) (kind : ImmediateKind) :
    (Immediate.decode space kind).Uncapped := by
  cases kind with
  | absent => exact .pure _
  | blockType => exact .bind BlockType.uncapped_decode fun _ => .pure _
  | branchDepth => exact .bind (.number _) fun _ => .pure _
  | branchTable =>
      exact .bind (.counted (.number _)) fun _ => .bind (.number _) fun _ => .pure _
  | functionIndex => exact .bind (.indexBelow _ fun _ => rfl) fun _ => .pure _
  | callIndirect =>
      exact .bind (.indexBelow _ fun _ => rfl) fun _ => .bind .reservedByte fun _ => .pure _
  | localIndex => exact .bind (.indexBelow _ fun _ => rfl) fun _ => .pure _
  | globalIndex => exact .bind (.indexBelow _ fun _ => rfl) fun _ => .pure _
  | memoryArg =>
      exact .bind (.bind (.number _) fun _ => .bind (.number _) fun _ => .pure _) fun _ => .pure _
  | memoryReserved => exact .bind .reservedByte fun _ => .pure _
  | i32 => exact .bind (.number _) fun _ => .pure _
  | i64 => exact .bind (.number _) fun _ => .pure _
  | f32 => exact .bind (.number _) fun _ => .pure _
  | f64 => exact .bind (.number _) fun _ => .pure _

/-- An instruction is not refused for too many locals. -/
theorem Instruction.uncapped_decode (space : IndexSpace) :
    (Instruction.decode space).Uncapped :=
  .bind .position fun _ => .bind .byte fun _ => .bind (.requireSome _ rfl) fun _ =>
    .bind (Immediate.uncapped_decode space _) fun _ => .pure _

/-- A step through a sequence refuses no locals. -/
theorem OpenSequence.uncapped_step (space : IndexSpace) (sequence : OpenSequence) :
    (OpenSequence.step space sequence).Uncapped := by
  refine .bind .position fun _ => .bind (Instruction.uncapped_decode space) fun instruction => ?_
  split
  · exact .pure _
  · exact .pure _
  · exact .fail rfl

/-- The code behind the locals refuses none of them. -/
theorem Instruction.uncapped_decodeSequence (space : IndexSpace) :
    (Instruction.decodeSequence space).Uncapped :=
  .bind .remaining fun _ =>
    .stepFor (fun _ => .bind .position fun _ => .fail rfl) (OpenSequence.uncapped_step space) _ _

/-! ## How locals are refused -/

/-- Behind some groups that keep to the cap comes one, among `count` in all, with which
the sum that began with `total` exceeds the cap. -/
structure LocalGroup.Exceed
    (count total sum : Nat)
    (reader : Reader)
    (groups : List LocalGroup)
    (last : LocalGroup) :
    Prop where
  fewer : groups.length < count
  numbers : ∀ group ∈ groups ++ [last], group.type.isNumber = true
  spans : ∃ after, (Layout.all ((groups ++ [last]).map LocalGroup.layout)).Spans reader after
  fits : groups = [] ∨ total + LocalGroup.total groups ≤ Body.maxLocals
  same : sum = total + LocalGroup.total (groups ++ [last])
  exceeds : Body.maxLocals < sum

section Exceed

variable {count total sum : Nat} {reader : Reader} {last : LocalGroup}

/-- The first group exceeds the cap. -/
theorem LocalGroup.exceed_nil_iff :
    Exceed (count + 1) total sum reader [] last ↔
      (∃ after, last.type.isNumber = true ∧ last.layout.Spans reader after) ∧
        sum = total + last.count.toNat ∧ Body.maxLocals < sum := by
  have same : (Layout.all ([last].map layout)) = last.layout ++ Layout.bytes [] := rfl
  constructor
  · rintro ⟨-, numbers, ⟨after, spans⟩, -, sameSum, exceeds⟩
    rw [List.nil_append, same] at spans
    obtain ⟨middle, lastSpans, -⟩ := (spans_append _ _ _ _).mp spans
    exact ⟨⟨middle, numbers last (by simp), lastSpans⟩, by simpa using sameSum, exceeds⟩
  · rintro ⟨⟨after, number, lastSpans⟩, sameSum, exceeds⟩
    refine ⟨Nat.succ_pos _, by simpa using number, ⟨after, ?_⟩, .inl rfl, by simpa using sameSum,
      exceeds⟩
    rw [List.nil_append, same]
    exact (spans_append _ _ _ _).mpr ⟨after, lastSpans, by simp⟩

/-- The first group keeps to the cap, and a later one exceeds it. -/
theorem LocalGroup.exceed_cons_iff {group : LocalGroup} {groups : List LocalGroup} :
    Exceed (count + 1) total sum reader (group :: groups) last ↔
      ∃ middle, (group.type.isNumber = true ∧ group.layout.Spans reader middle) ∧
        total + group.count.toNat ≤ Body.maxLocals ∧
        Exceed count (total + group.count.toNat) sum middle groups last := by
  constructor
  · rintro ⟨fewer, numbers, ⟨after, spans⟩, fits, sameSum, exceeds⟩
    obtain ⟨middle, groupSpans, restSpans⟩ := (spans_append _ _ _ _).mp spans
    obtain ⟨number, numbers⟩ := List.forall_mem_cons.mp numbers
    have fits := fits.resolve_left (List.cons_ne_nil _ _)
    rw [total_cons] at fits
    rw [List.cons_append, total_cons] at sameSum
    exact ⟨middle, ⟨number, groupSpans⟩, by omega, Nat.lt_of_succ_lt_succ fewer, numbers,
      ⟨after, restSpans⟩, .inr (by omega), by omega, exceeds⟩
  · rintro ⟨middle, ⟨number, groupSpans⟩, groupFits, fewer, numbers, ⟨after, restSpans⟩, fits,
      sameSum, exceeds⟩
    refine ⟨Nat.succ_lt_succ fewer, List.forall_mem_cons.mpr ⟨number, numbers⟩,
      ⟨after, (spans_append _ _ _ _).mpr ⟨middle, groupSpans, restSpans⟩⟩, .inr ?_, ?_, exceeds⟩
    · obtain rfl | fits := fits
      · simpa using groupFits
      · rw [total_cons]
        omega
    · rw [List.cons_append, total_cons]
      omega

end Exceed

/-- Locals are refused exactly if a group exceeds the cap. The sum that is reported is
that of the params and of the groups up to this one. -/
theorem Body.decodeLocals_refuses_iff
    (count total sum : Nat)
    (collected : List LocalGroup)
    (reader : Reader) :
    (∃ failure after, decodeLocals count total collected reader = .error failure after ∧
        failure.cause = .tooManyLocals sum) ↔
      ∃ groups last, LocalGroup.Exceed count total sum reader groups last := by
  -- Each group moves its own count into the sum, so the sum is any at each round.
  induction count generalizing total collected reader with
  | zero =>
      constructor
      · rintro ⟨_, _, failed, -⟩
        cases failed
      · rintro ⟨groups, last, exceed⟩
        exact absurd exceed.fewer (Nat.not_lt_zero _)
  | succ count inductionHypothesis =>
      simp only [decodeLocals, bind_eq_error_iff, LocalGroup.reads_decode _ _ _,
        require_eq_error_iff, require_eq_ok_iff, decide_eq_false_iff_not, decide_eq_true_eq]
      constructor
      · rintro ⟨failure, after, failed | ⟨group, middle, groupRead, ⟨exceeds, rfl, rfl⟩ |
          ⟨_, _, ⟨fits, rfl⟩, failed⟩⟩, refuses⟩
        · exact absurd refuses (LocalGroup.uncapped_decode.not_refuses failed)
        · cases refuses
          exact ⟨[], group, LocalGroup.exceed_nil_iff.mpr
            ⟨⟨_, groupRead⟩, rfl, Nat.lt_of_not_le exceeds⟩⟩
        · obtain ⟨groups, last, exceed⟩ := (inductionHypothesis _ _ _).mp ⟨_, _, failed, refuses⟩
          exact ⟨group :: groups, last,
            LocalGroup.exceed_cons_iff.mpr ⟨_, groupRead, fits, exceed⟩⟩
      · rintro ⟨_ | ⟨group, groups⟩, last, exceed⟩
        · obtain ⟨⟨after, lastRead⟩, rfl, exceeds⟩ := LocalGroup.exceed_nil_iff.mp exceed
          exact ⟨_, _, .inr ⟨last, after, lastRead, .inl ⟨Nat.not_le_of_gt exceeds, rfl, rfl⟩⟩, rfl⟩
        · obtain ⟨middle, groupRead, fits, exceed⟩ := LocalGroup.exceed_cons_iff.mp exceed
          obtain ⟨failure, after, failed, refuses⟩ :=
            (inductionHypothesis _ (group :: collected) _).mpr ⟨groups, last, exceed⟩
          exact ⟨failure, after, .inr ⟨group, middle, groupRead, .inr ⟨(), _, ⟨fits, rfl⟩, failed⟩⟩,
            refuses⟩

namespace Body

/-- The content of a body is refused for its locals exactly if a group exceeds the cap. -/
theorem decodeContent_refuses_iff
    (space : IndexSpace)
    (type : FuncType)
    (sum : Nat)
    (reader : Reader) :
    (∃ failure after, decodeContent space type reader = .error failure after ∧
        failure.cause = .tooManyLocals sum) ↔
      ∃ count counted groups last, u32 reader = .ok count counted ∧
        LocalGroup.Exceed count.toNat type.params.length sum counted groups last := by
  simp only [decodeContent, bind_eq_error_iff, pure_ne_error, and_false, exists_false, or_false]
  constructor
  · rintro ⟨failure, after, failed | ⟨count, counted, countRead, failed |
      ⟨⟨locals, total⟩, grouped, -, failed | ⟨code, behind, -, failed⟩⟩⟩, refuses⟩
    · exact absurd refuses ((Uncapped.number _).not_refuses failed)
    · obtain ⟨groups, last, exceed⟩ :=
        (decodeLocals_refuses_iff _ _ _ _ _).mp ⟨_, _, failed, refuses⟩
      exact ⟨count, counted, groups, last, countRead, exceed⟩
    · exact absurd refuses ((Instruction.uncapped_decodeSequence _).not_refuses failed)
    · exact absurd refuses (Uncapped.finish.not_refuses failed)
  · rintro ⟨count, counted, groups, last, countRead, exceed⟩
    obtain ⟨failure, after, failed, refuses⟩ :=
      (decodeLocals_refuses_iff _ _ _ [] _).mpr ⟨groups, last, exceed⟩
    exact ⟨failure, after, .inr ⟨count, counted, countRead, .inl failed⟩, refuses⟩

/-- A body is refused for its locals exactly if its content is. -/
theorem decode_refuses_iff
    (space : IndexSpace)
    (type : FuncType)
    (sum : Nat)
    (reader : Reader) :
    (∃ failure after, decode space type reader = .error failure after ∧
        failure.cause = .tooManyLocals sum) ↔
      ∃ window count counted groups last, window? reader = some window ∧
        u32 window = .ok count counted ∧
        LocalGroup.Exceed count.toNat type.params.length sum counted groups last := by
  have content (window : Reader) := decodeContent_refuses_iff space type sum window
  simp only [decode, sized_eq_error_iff, bind_eq_error_iff, within_eq_error_iff, pure_ne_error,
    and_false, exists_false, or_false]
  constructor
  · rintro ⟨failure, after, failed | ⟨size, sized, sizeRead, failed |
      ⟨window, behind, splits, ⟨rest, failed⟩, -⟩⟩, refuses⟩
    · exact absurd refuses ((Uncapped.number _).not_refuses failed)
    · exact absurd refuses ((Uncapped.split _).not_refuses failed)
    · obtain ⟨count, counted, groups, last, exceed⟩ := (content window).mp ⟨_, _, failed, refuses⟩
      exact ⟨window, count, counted, groups, last,
        value?_of_ok ((bind_of_ok sizeRead).trans splits), exceed⟩
  · rintro ⟨window, count, counted, groups, last, splits, exceed⟩
    obtain ⟨behind, splitRead⟩ := exists_of_value? splits
    obtain ⟨size, sized, sizeRead, splitRead⟩ := (bind_eq_ok_iff _ _ _ _ _).mp splitRead
    obtain ⟨failure, rest, failed, refuses⟩ :=
      (content window).mpr ⟨count, counted, groups, last, exceed⟩
    exact ⟨failure, _, .inr ⟨size, sized, sizeRead, .inr ⟨window, behind, splitRead, ⟨rest, failed⟩,
      rfl⟩⟩, refuses⟩

/-! ## The bound on locals -/

/-- Behind its locals the content of a body goes on with the code, in which as many
locals may be referred to as there are params and locals. -/
theorem decodeContent_of_locals
    (space : IndexSpace)
    {type : FuncType}
    (countable : type.params.length < 2 ^ 32)
    {reader counted grouped : Reader}
    {count : UInt32}
    {locals : List LocalGroup}
    {total : Nat}
    (countRead : u32 reader = .ok count counted)
    (localsRead : decodeLocals count.toNat type.params.length [] counted =
      .ok (locals, total) grouped) :
    ∃ bound : UInt32, bound.toNat = type.params.length + LocalGroup.total locals ∧
      decodeContent space type reader =
        (do
          let code ← Instruction.decodeSequence { space with locals := bound }
          finish
          return (locals, code)) grouped := by
  obtain ⟨groups, same, -, -, few, -⟩ := (decodeLocals_eq_ok_iff _ _ _ _ _ _).mp localsRead
  obtain ⟨rfl, rfl⟩ := Prod.mk.inj same
  refine ⟨_, UInt32.toNat_ofNat_of_lt' ?_, ?_⟩
  · obtain rfl | few := few
    · simpa using countable
    · simp only [maxLocals] at few
      simp only [UInt32.size]
      omega
  · rw [decodeContent, bind_of_ok countRead, bind_of_ok localsRead]

end Body

namespace Module

/-- The format cannot count more types, or more params of one, than fit a word. -/
theorem countable_of_ofBytes
    {format : HeaderFormat}
    {input : List UInt8}
    {module : Module}
    (decoded : ofBytes format input = .ok module) :
    module.Countable := by
  obtain ⟨frame, -, assembled⟩ := (Except.bind_eq_ok_iff _ _ _).mp decoded
  obtain ⟨folded, -⟩ := (ofFrame_eq_ok_iff frame module).mp assembled
  exact (countable_bare _ _).foldlM_extend folded

/-- The cap holds of the params and locals of a decoded function exactly if it has a
group of locals or its params alone keep it. A body is refused for its locals exactly if
a group exceeds the cap, with the sum up to this group. What the code is checked against
is the sum of all. -/
theorem locals_capped
    (format : HeaderFormat)
    (input : List UInt8)
    (space : IndexSpace)
    (type : FuncType)
    (reader : Reader) :
    (∀ module : Module, ofBytes format input = .ok module →
      ∀ function ∈ entries module.code,
        function.type.params.length < 2 ^ 32 ∧
        (function.type.params.length + LocalGroup.total function.body.locals ≤ 50000 ↔
          function.body.locals ≠ [] ∨ function.type.params.length ≤ 50000)) ∧
    (∀ sum : Nat,
      (∃ failure after, Body.decode space type reader = .error failure after ∧
          failure.cause = .tooManyLocals sum) ↔
        ∃ window count counted groups last, Body.window? reader = some window ∧
          u32 window = .ok count counted ∧
          LocalGroup.Exceed count.toNat type.params.length sum counted groups last) ∧
    ∀ (counted grouped : Reader) (count : UInt32) (locals : List LocalGroup) (total : Nat),
      type.params.length < 2 ^ 32 →
      u32 reader = .ok count counted →
      Body.decodeLocals count.toNat type.params.length [] counted = .ok (locals, total) grouped →
      ∃ bound : UInt32, bound.toNat = type.params.length + LocalGroup.total locals ∧
        Body.decodeContent space type reader =
          (do
            let code ← Instruction.decodeSequence { space with locals := bound }
            finish
            return (locals, code)) grouped := by
  refine ⟨?_, fun sum => Body.decode_refuses_iff space type sum reader, ?_⟩
  · intro module decoded function isCode
    obtain ⟨_, _, -, -, -, -, -, closed⟩ := (ofBytes_eq_ok_iff _ _ _).mp decoded
    obtain ⟨_, _, valid⟩ := closed.valid_of_mem_code isCode
    have known := List.mem_of_getElem? valid.sameType
    refine ⟨(countable_of_ofBytes decoded).params _ known, ?_⟩
    constructor
    · intro capped
      exact .inr (Nat.le_of_add_right_le capped)
    · rintro (grouped | few)
      · exact valid.body.few.resolve_left grouped
      · obtain none | capped := valid.body.few
        · rw [none]
          exact few
        · exact capped
  · intro counted grouped count locals total countable countRead localsRead
    exact Body.decodeContent_of_locals space countable countRead localsRead

/-- A function of two params with a group of three locals. -/
theorem locals_capped_of_group :
    let input := Header.magicBytes ++ Header.versionBytes ++
      [1, 6, 1, 0x60, 2, 0x7F, 0x7F, 0, 3, 2, 1, 0, 10, 8, 1, 6, 1, 3, 0x7E, 0x20, 4, 0x0B]
    let type : FuncType := ⟨[.i32, .i32], [], 5⟩
    let function : Func :=
      ⟨0, 0, type, ⟨6, [⟨3, .i64⟩], [⟨.localGet, .localIndex 4⟩], 7⟩⟩
    let module : Module :=
      { magic := "\x00asm"
        version := 1
        types := some [type]
        functions := some [0]
        code := some [function] }
    let window : Reader := ⟨33, [1, 3, 0x7E, 0x20, 4, 0x0B]⟩
    let grouped : Reader := ⟨36, [0x20, 4, 0x0B]⟩
    ofBytes .compact input = .ok module ∧
      type.params.length + LocalGroup.total function.body.locals ≤ 50000 ∧
      ∃ bound : UInt32, bound.toNat = 5 ∧
        Body.decodeContent module.indexSpace type window =
          (do
            let code ← Instruction.decodeSequence { module.indexSpace with locals := bound }
            finish
            return (function.body.locals, code)) grouped := by
  intro input type function module window grouped
  have decoded : ofBytes .compact input = .ok module := by decide +kernel
  obtain ⟨capped, -, bounded⟩ := locals_capped .compact input module.indexSpace type window
  have whenGrouped := (capped module decoded function (List.mem_singleton.mpr rfl)).2
  exact ⟨decoded, whenGrouped.mpr (.inl (List.cons_ne_nil _ _)), bounded
    ⟨34, [3, 0x7E, 0x20, 4, 0x0B]⟩ grouped 1 function.body.locals 5 (by decide) rfl rfl⟩

end Module

/-! ## Many params -/

section ManyParams

open Numeral

/-- One byte after another. -/
theorem Layout.writes_replicate (byte : UInt8) (count : Nat) :
    (all (List.replicate count (.bytes [byte]))).Writes [] (List.replicate count byte) := by
  induction count with
  | zero => exact .bytes []
  | succ count inductionHypothesis => exact .beside (.bytes [byte]) inductionHypothesis

/-- Zero is spelled by a single byte. -/
theorem Numeral.spellsUnsigned_zero : SpellsUnsigned 0 [0] :=
  ⟨by simp [IsGroup], by decide, by decide⟩

/-- A signature of many params of one type. -/
theorem FuncType.writes_replicate
    {count size : Nat}
    {spelling : List UInt8}
    (fits : count < 2 ^ 32)
    (spells : SpellsUnsigned count spelling)
    (exact : spelling.length + count + 2 = size) :
    (layout ⟨List.replicate count .i32, [], size⟩).Writes
      [.unsigned spelling, .unsigned [0]]
      ([0x60] ++ ((spelling ++ List.replicate count 0x7F) ++ [0])) := by
  have params : (Layout.counted ((List.replicate count ValueType.i32).map ValueType.layout)).Writes
      [.unsigned spelling] (spelling ++ List.replicate count 0x7F) := by
    rw [Layout.counted, List.map_replicate, List.length_replicate]
    exact .beside (.leb128 fits spells) (Layout.writes_replicate 0x7F count)
  have results : (Layout.counted []).Writes [.unsigned [0]] [0] :=
    .beside (.leb128 (by decide) spellsUnsigned_zero) (.bytes [])
  refine .measured ?_ (.beside (.bytes [0x60]) (.beside params results))
  simp only [List.length_append, List.length_singleton, List.length_replicate]
  omega

/-- A signature with one param more than a function may have locals. -/
def FuncType.crowded : FuncType := ⟨List.replicate 50001 .i32, [], 50006⟩

/-- A function with this signature and without locals. -/
def Func.crowded : Func := ⟨0, 0, .crowded, ⟨2, [], [], 3⟩⟩

namespace Module

/-- The module of this function. -/
def crowded : Module where
  magic := "\x00asm"
  version := 1
  types := some [.crowded]
  functions := some [0]
  code := some [.crowded]

/-- The module is closed, so what is written of it is decoded. -/
theorem closed_crowded : crowded.Closed where
  types := by
    refine List.forall_mem_singleton.mpr ⟨?_, List.forall_mem_nil _, Nat.zero_le 1⟩
    intro param among
    rw [List.eq_of_mem_replicate among]
    rfl
  imports := List.forall_mem_nil _
  functions := List.forall_mem_singleton.mpr (show (0 : UInt32) < 1 by decide)
  globals := List.forall_mem_nil _
  exports := List.forall_mem_nil _
  start := nofun
  elements := List.forall_mem_nil _
  data := List.forall_mem_nil _
  hasCode := fun _ => rfl
  code := by
    rintro _ ⟨⟩
    refine ⟨rfl, rfl, rfl, ?_⟩
    rintro (_ | position) typeIndex function indexAt functionAt
    · cases indexAt
      cases functionAt
      exact ⟨rfl, rfl, rfl, List.forall_mem_nil _, .inl rfl, List.forall_mem_nil _, .nil⟩
    · cases indexAt

/-- The binary of this module. -/
def crowdedBytes : List UInt8 :=
  Header.magicBytes ++ Header.versionBytes ++
    ([1, 0xD7, 0x86, 0x03, 1, 0x60, 0xD1, 0x86, 0x03] ++
      (List.replicate 50001 0x7F ++ [0, 3, 2, 1, 0, 10, 4, 1, 2, 0, 0x0B]))

/-- The binary has been written by the layout of the module. -/
theorem written_crowded : (crowded.layout .leb128).Written crowdedBytes := by
  have one : SpellsUnsigned 1 [1] := ⟨by simp [IsGroup], by decide, by decide⟩
  have two : SpellsUnsigned 2 [2] := ⟨by simp [IsGroup], by decide, by decide⟩
  have four : SpellsUnsigned 4 [4] := ⟨by simp [IsGroup], by decide, by decide⟩
  have params : SpellsUnsigned 50001 [0xD1, 0x86, 0x03] :=
    ⟨by simp [IsGroup], by decide, by decide⟩
  have size : SpellsUnsigned 50007 [0xD7, 0x86, 0x03] :=
    ⟨by simp [IsGroup], by decide, by decide⟩
  let content (count : Nat) : List UInt8 :=
    [1] ++ (([0x60] ++ (([0xD1, 0x86, 0x03] ++ List.replicate count 0x7F) ++ [0])) ++ [])
  have length (count : Nat) : (content count).length = count + 6 := by
    simp only [content, List.length_append, List.length_replicate, List.length_cons,
      List.length_nil]
    omega
  have types := Layout.Writes.beside (.bytes [1])
    (@Layout.Writes.sized .leb128 _ _ _ _ (content 50001)
      (.leb128 (by rw [length]; decide) (by rw [length]; exact size))
      (.beside (.leb128 (by decide) one)
        (.beside (@FuncType.writes_replicate _ 50006 _ (by decide) params (by simp)) (.bytes []))))
  have functions := Layout.Writes.beside (.bytes [3])
    (@Layout.Writes.sized .leb128 _ _ _ _ [1, 0] (.leb128 (by decide) two)
      (.beside (.leb128 (by decide) one)
        (.beside (.leb128 (by decide) spellsUnsigned_zero) (.bytes []))))
  have code := Layout.Writes.beside (.bytes [10])
    (@Layout.Writes.sized .leb128 _ _ _ _ [1, 2, 0, 0x0B] (.leb128 (by decide) four)
      (.beside (.leb128 (by decide) one) (.beside
        (.measured rfl (@Layout.Writes.sized .leb128 _ _ _ _ [0, 0x0B] (.leb128 (by decide) two)
          (.measured rfl (.beside (.beside (.leb128 (by decide) spellsUnsigned_zero) (.bytes []))
            (.beside (.bytes []) (.bytes [0x0B]))))))
        (.bytes []))))
  have writes := Layout.Writes.beside (.bytes (Header.magicBytes ++ Header.versionBytes))
    (.beside types (.beside functions (.beside code (.bytes []))))
  have same : crowdedBytes = Header.magicBytes ++ Header.versionBytes ++
      ([1] ++ ([0xD7, 0x86, 0x03] ++ content 50001) ++
        ([3] ++ ([2] ++ [1, 0]) ++ ([10] ++ ([4] ++ [1, 2, 0, 0x0B]) ++ []))) := by
    simp only [crowdedBytes, content, List.append_assoc, List.cons_append, List.nil_append,
      List.append_nil]
  rw [same]
  exact ⟨_, writes⟩

/-- A function with more params than the cap is decoded if it has no group of locals.
Its body is refused as soon as it has one, even of no locals. -/
theorem ofBytes_of_crowded :
    ofBytes .leb128 crowdedBytes = .ok crowded ∧ .crowded ∈ entries crowded.code ∧
      50000 < Func.crowded.type.params.length + LocalGroup.total Func.crowded.body.locals ∧
      ∃ failure after,
        Body.decode crowded.indexSpace .crowded ⟨0, [4, 1, 0, 0x7F, 0x0B]⟩ =
            .error failure after ∧
          failure.cause = .tooManyLocals 50001 := by
  have params : FuncType.crowded.params.length = 50001 := List.length_replicate
  have many : 50000 < FuncType.crowded.params.length := by
    rw [params]
    decide
  have read : LocalGroup.decode ⟨2, [0, 0x7F, 0x0B]⟩ = .ok ⟨0, .i32⟩ ⟨4, [0x0B]⟩ := rfl
  have exceeds : LocalGroup.Exceed 1 50001 50001 ⟨2, [0, 0x7F, 0x0B]⟩ [] ⟨0, .i32⟩ :=
    LocalGroup.exceed_nil_iff.mpr
      ⟨⟨_, (LocalGroup.reads_decode _ _ _).mp read⟩, rfl, by decide⟩
  refine ⟨ofBytes_of_written rfl rfl closed_crowded written_crowded, List.mem_singleton.mpr rfl,
    Nat.lt_add_right _ many, ?_⟩
  refine (Body.decode_refuses_iff _ _ _ _).mpr
    ⟨⟨1, [1, 0, 0x7F, 0x0B]⟩, 1, ⟨2, [0, 0x7F, 0x0B]⟩, [], ⟨0, .i32⟩, rfl, rfl, ?_⟩
  rw [params]
  exact exceeds

end Module

end ManyParams

end WebAssembly
