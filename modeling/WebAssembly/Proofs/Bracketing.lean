import WebAssembly.Instruction

/-!
# Bracketed sequences of opcodes

The grammar of instruction sequences, `Bracketed`, and the scopes that
`Scope.effect` follows through a sequence, `Scope.afterAll`. A sequence is
bracketed exactly if it leaves no scope open, and begins a bracketed sequence
exactly if its scopes can be followed to its end.
-/

namespace WebAssembly

/-- An opcode that neither opens, divides nor closes a scope. -/
def Opcode.IsPlain (op : Opcode) : Prop :=
  op.opensBlock = false ∧ op ≠ .endOp

/-- The opcodes that are not plain. -/
theorem Opcode.isPlain_or (op : Opcode) :
    op.IsPlain ∨ (op = .block ∨ op = .loop) ∨ op = .ifOp ∨ op = .elseOp ∨ op = .endOp := by
  cases op with
  | block => exact .inr (.inl (.inl rfl))
  | loop => exact .inr (.inl (.inr rfl))
  | ifOp => exact .inr (.inr (.inl rfl))
  | elseOp => exact .inr (.inr (.inr (.inl rfl)))
  | endOp => exact .inr (.inr (.inr (.inr rfl)))
  | _ => exact .inl ⟨rfl, nofun⟩

/-- The sequences of items, where an item is a plain opcode, a `block` or `loop`
with its `end`, or an `if` with its `end` and possibly an `else`. -/
inductive Bracketed : List Opcode → Prop
  | nil : Bracketed []
  | plain {op : Opcode} {rest : List Opcode}
      (isPlain : op.IsPlain)
      (restBracketed : Bracketed rest) :
      Bracketed (op :: rest)
  | block {op : Opcode} {body rest : List Opcode}
      (opens : op = .block ∨ op = .loop)
      (bodyBracketed : Bracketed body)
      (restBracketed : Bracketed rest) :
      Bracketed (op :: (body ++ .endOp :: rest))
  | conditional {body rest : List Opcode}
      (bodyBracketed : Bracketed body)
      (restBracketed : Bracketed rest) :
      Bracketed (.ifOp :: (body ++ .endOp :: rest))
  | alternative {body other rest : List Opcode}
      (bodyBracketed : Bracketed body)
      (otherBracketed : Bracketed other)
      (restBracketed : Bracketed rest) :
      Bracketed (.ifOp :: (body ++ .elseOp :: (other ++ .endOp :: rest)))

/-- A sequence that some continuation makes bracketed. -/
def Viable (ops : List Opcode) : Prop :=
  ∃ rest, Bracketed (ops ++ rest)

namespace Scope

/-- A plain opcode leaves the scopes as they are. -/
theorem effect_of_isPlain {op : Opcode} (isPlain : op.IsPlain) (scopes : List Scope) :
    effect scopes op = .within scopes := by
  obtain ⟨opensNothing, notEnd⟩ := isPlain
  cases op <;> first | rfl | exact absurd rfl notEnd | cases opensNothing

/-- A block or a loop opens a scope that takes no alternative. -/
theorem effect_of_opens {op : Opcode} (opens : op = .block ∨ op = .loop) (scopes : List Scope) :
    effect scopes op = .within (.plain :: scopes) := by
  obtain rfl | rfl := opens <;> rfl

/-- Only an end with no scope left closes the sequence. -/
theorem eq_endOp_of_closesSequence
    {scopes : List Scope}
    {op : Opcode}
    (closes : effect scopes op = .closesSequence) :
    scopes = [] ∧ op = .endOp := by
  obtain isPlain | opens | rfl | rfl | rfl := op.isPlain_or
  · simp [effect_of_isPlain isPlain] at closes
  · simp [effect_of_opens opens] at closes
  · cases closes
  · obtain _ | ⟨_ | _, outer⟩ := scopes <;> cases closes
  · cases scopes with
    | nil => exact ⟨rfl, rfl⟩
    | cons scope outer => cases closes

/-- The scopes behind a sequence of opcodes, unless it closes the whole sequence
or has a stray `else`. -/
def afterAll : List Scope → List Opcode → Option (List Scope)
  | scopes, [] => some scopes
  | scopes, op :: ops =>
      match effect scopes op with
      | .within next => afterAll next ops
      | .closesSequence | .strayElse => none

@[simp] theorem afterAll_nil (scopes : List Scope) : afterAll scopes [] = some scopes := rfl

/-- An opcode within the sequence is followed by the rest under its scopes. -/
theorem afterAll_cons_of_within
    {scopes next : List Scope}
    {op : Opcode}
    (goesOn : effect scopes op = .within next)
    (ops : List Opcode) :
    afterAll scopes (op :: ops) = afterAll next ops := by
  simp only [afterAll, goesOn]

/-- Scopes can be followed behind an opcode only if it leaves the sequence
open. -/
theorem within_of_afterAll_cons
    {scopes last : List Scope}
    {op : Opcode}
    {ops : List Opcode}
    (followed : afterAll scopes (op :: ops) = some last) :
    ∃ next, effect scopes op = .within next ∧ afterAll next ops = some last := by
  cases passed : effect scopes op with
  | within next =>
      rw [afterAll_cons_of_within passed] at followed
      exact ⟨next, rfl, followed⟩
  | closesSequence => simp [afterAll, passed] at followed
  | strayElse => simp [afterAll, passed] at followed

/-- The scopes behind two runs of opcodes are those behind the second one, begun where
the first has ended. -/
theorem afterAll_append (scopes : List Scope) (ops rest : List Opcode) :
    afterAll scopes (ops ++ rest) = (afterAll scopes ops).bind (afterAll · rest) := by
  induction ops generalizing scopes with
  | nil => rfl
  | cons op ops inductionHypothesis =>
      cases passed : effect scopes op with
      | within next =>
          rw [List.cons_append, afterAll_cons_of_within passed, afterAll_cons_of_within passed,
            inductionHypothesis]
      | closesSequence => simp [afterAll, passed]
      | strayElse => simp [afterAll, passed]

/-- Any open scopes can be closed. -/
theorem afterAll_replicate_endOp (scopes : List Scope) :
    afterAll scopes (List.replicate scopes.length .endOp) = some [] := by
  induction scopes with
  | nil => rfl
  | cons scope outer inductionHypothesis =>
      rw [List.length_cons, List.replicate_succ,
        afterAll_cons_of_within (effect_endOp_cons scope outer), inductionHypothesis]

/-- What may follow within open scopes, innermost first: each of them is closed
after bracketed sequences, a conditional one possibly after its `else`. -/
inductive Closes : List Scope → List Opcode → Prop
  | outermost {body : List Opcode} (bodyBracketed : Bracketed body) : Closes [] body
  | close {scope : Scope} {outer : List Scope} {body ops : List Opcode}
      (bodyBracketed : Bracketed body)
      (opsClose : Closes outer ops) :
      Closes (scope :: outer) (body ++ .endOp :: ops)
  | divide {outer : List Scope} {body other ops : List Opcode}
      (bodyBracketed : Bracketed body)
      (otherBracketed : Bracketed other)
      (opsClose : Closes outer ops) :
      Closes (.conditional :: outer) (body ++ .elseOp :: (other ++ .endOp :: ops))

/-- An item may stand before what closes the open scopes. -/
theorem Closes.prepend
    {item : List Opcode}
    (isItem : ∀ rest, Bracketed rest → Bracketed (item ++ rest))
    {scopes : List Scope}
    {ops : List Opcode}
    (closes : Closes scopes ops) :
    Closes scopes (item ++ ops) := by
  cases closes with
  | outermost bodyBracketed => exact .outermost (isItem _ bodyBracketed)
  | close bodyBracketed opsClose =>
      rw [← List.append_assoc]
      exact .close (isItem _ bodyBracketed) opsClose
  | divide bodyBracketed otherBracketed opsClose =>
      rw [← List.append_assoc]
      exact .divide (isItem _ bodyBracketed) otherBracketed opsClose

/-- An opcode that leads from one list of open scopes to another may stand before
what closes the latter. -/
theorem Closes.cons
    {scopes next : List Scope}
    {op : Opcode}
    {ops : List Opcode}
    (goesOn : effect scopes op = .within next)
    (closes : Closes next ops) :
    Closes scopes (op :: ops) := by
  obtain isPlain | opens | rfl | rfl | rfl := op.isPlain_or
  · rw [effect_of_isPlain isPlain, Effect.within.injEq] at goesOn
    subst goesOn
    have isItem (rest : List Opcode) (restBracketed : Bracketed rest) : Bracketed ([op] ++ rest) :=
      .plain isPlain restBracketed
    exact closes.prepend isItem
  · rw [effect_of_opens opens, Effect.within.injEq] at goesOn
    subst goesOn
    cases closes with
    | @close _ _ body ops bodyBracketed opsClose =>
        have isItem (rest : List Opcode) (restBracketed : Bracketed rest) :
            Bracketed (op :: (body ++ [.endOp]) ++ rest) := by
          simpa using Bracketed.block opens bodyBracketed restBracketed
        simpa using opsClose.prepend isItem
  · cases goesOn
    -- The scope of an `if` is closed at once or divided by an `else` first.
    cases closes with
    | @close _ _ body ops bodyBracketed opsClose =>
        have isItem (rest : List Opcode) (restBracketed : Bracketed rest) :
            Bracketed (.ifOp :: (body ++ [.endOp]) ++ rest) := by
          simpa using Bracketed.conditional bodyBracketed restBracketed
        simpa using opsClose.prepend isItem
    | @divide _ body other ops bodyBracketed otherBracketed opsClose =>
        have isItem (rest : List Opcode) (restBracketed : Bracketed rest) :
            Bracketed (.ifOp :: (body ++ .elseOp :: (other ++ [.endOp])) ++ rest) := by
          simpa using Bracketed.alternative bodyBracketed otherBracketed restBracketed
        simpa using opsClose.prepend isItem
  · obtain _ | ⟨_ | _, outer⟩ := scopes
    · cases goesOn
    · cases goesOn
    · cases goesOn
      cases closes with
      | close bodyBracketed opsClose =>
          have divided := Closes.divide .nil bodyBracketed opsClose
          exact divided
  · cases scopes with
    | nil => cases goesOn
    | cons scope outer =>
        cases goesOn
        have closed : Closes (scope :: next) ([] ++ .endOp :: ops) := .close .nil closes
        exact closed

/-- Opcodes that leave no scope open close all scopes that were open. -/
theorem closes_of_afterAll
    {scopes : List Scope}
    {ops : List Opcode}
    (followed : afterAll scopes ops = some []) :
    Closes scopes ops := by
  induction ops generalizing scopes with
  | nil =>
      cases followed
      exact .outermost .nil
  | cons op ops inductionHypothesis =>
      obtain ⟨next, goesOn, rest⟩ := within_of_afterAll_cons followed
      exact (inductionHypothesis rest).cons goesOn

end Scope

namespace Bracketed

open Scope

/-- A bracketed sequence leaves the scopes around it as they are. -/
theorem afterAll_eq {ops : List Opcode} (bracketed : Bracketed ops) (scopes : List Scope) :
    afterAll scopes ops = some scopes := by
  induction bracketed generalizing scopes with
  | nil => rfl
  | plain isPlain _ restHypothesis =>
      rw [afterAll_cons_of_within (effect_of_isPlain isPlain scopes), restHypothesis]
  | block opens _ _ bodyHypothesis restHypothesis =>
      rw [afterAll_cons_of_within (effect_of_opens opens scopes), afterAll_append, bodyHypothesis,
        Option.bind_some, afterAll_cons_of_within (effect_endOp_cons _ _), restHypothesis]
  | conditional _ _ bodyHypothesis restHypothesis =>
      rw [afterAll_cons_of_within (effect_ifOp scopes), afterAll_append, bodyHypothesis,
        Option.bind_some, afterAll_cons_of_within (effect_endOp_cons _ _), restHypothesis]
  | alternative _ _ _ bodyHypothesis otherHypothesis restHypothesis =>
      rw [afterAll_cons_of_within (effect_ifOp scopes), afterAll_append, bodyHypothesis,
        Option.bind_some, afterAll_cons_of_within (effect_elseOp_conditional _), afterAll_append,
        otherHypothesis, Option.bind_some, afterAll_cons_of_within (effect_endOp_cons _ _),
        restHypothesis]

end Bracketed

/-- Opcodes are bracketed exactly if they leave no scope open and close none but their
own. -/
theorem bracketed_iff (ops : List Opcode) :
    Bracketed ops ↔ Scope.afterAll [] ops = some [] := by
  constructor
  · intro bracketed
    exact bracketed.afterAll_eq []
  · intro followed
    cases Scope.closes_of_afterAll followed with
    | outermost bodyBracketed => exact bodyBracketed

/-- A sequence is viable exactly if its scopes can be followed to its end. -/
theorem viable_iff (ops : List Opcode) :
    Viable ops ↔ ∃ scopes, Scope.afterAll [] ops = some scopes := by
  simp only [Viable, bracketed_iff, Scope.afterAll_append, Option.bind_eq_some_iff]
  constructor
  · rintro ⟨rest, scopes, followed, -⟩
    exact ⟨scopes, followed⟩
  · rintro ⟨scopes, followed⟩
    exact ⟨_, scopes, followed, Scope.afterAll_replicate_endOp scopes⟩

end WebAssembly
