import WebAssembly.Proofs.Form
import Mathlib.Algebra.Ring.Int.Defs

/-!
# Balanced parentheses

The tokens of a form are balanced: no closing parenthesis comes before its opening
one, and none is left open. The tokens of a list stand in one pair of parentheses,
so that the text behind the first of them is not at depth zero again before the
last.
-/

namespace WebAssembly

namespace Token

/-! ## Depth -/

/-- How much deeper in parentheses a text is behind a token. -/
def deepens : Token → Int
  | .opening => 1
  | .closing => -1
  | .word _ => 0
  | .literal _ => 0

/-- How deep in parentheses a text is behind some tokens. -/
def depth (tokens : List Token) : Int := (tokens.map deepens).sum

@[simp] theorem depth_nil : depth [] = 0 := rfl

@[simp] theorem depth_cons (token : Token) (tokens : List Token) :
    depth (token :: tokens) = token.deepens + depth tokens := by
  rw [depth, List.map_cons, List.sum_cons, depth]

@[simp] theorem depth_append (first second : List Token) :
    depth (first ++ second) = depth first + depth second := by
  rw [depth, List.map_append, List.sum_append, depth, depth]

/-- Every closing parenthesis has its opening one before it, and every opening one its
closing one behind it. -/
structure Balanced (tokens : List Token) : Prop where
  nonneg : ∀ front, front <+: tokens → 0 ≤ depth front
  level : depth tokens = 0

theorem balanced_nil : Balanced [] where
  nonneg front isFront := by
    rw [List.prefix_nil.mp isFront]
    exact Int.le_refl 0
  level := rfl

/-- A token that neither opens nor closes is balanced. -/
theorem balanced_singleton {token : Token} (flat : token.deepens = 0) : Balanced [token] where
  nonneg front isFront := by
    obtain rfl | ⟨rest, rfl, isRest⟩ := List.prefix_cons_iff.mp isFront
    · exact Int.le_refl 0
    · rw [List.prefix_nil.mp isRest, depth_cons, flat]
      exact Int.le_refl 0
  level := by rw [depth_cons, flat, depth_nil, Int.add_zero]

/-- The first tokens of two lists end within the first list or within the second. -/
theorem prefix_or_exists_of_prefix_append
    {front first second : List Token}
    (isFront : front <+: first ++ second) :
    front <+: first ∨ ∃ rest, rest <+: second ∧ front = first ++ rest := by
  obtain within | ⟨rest, rfl⟩ :=
    List.prefix_or_prefix_of_prefix isFront (List.prefix_append first second)
  · exact .inl within
  · exact .inr ⟨rest, (List.prefix_append_right_inj first).mp isFront, rfl⟩

/-- Balanced tokens side by side are balanced. -/
theorem Balanced.append
    {first second : List Token}
    (balanced : Balanced first)
    (others : Balanced second) :
    Balanced (first ++ second) where
  nonneg front isFront := by
    obtain within | ⟨rest, isRest, rfl⟩ := prefix_or_exists_of_prefix_append isFront
    · exact balanced.nonneg front within
    · rw [depth_append, balanced.level, Int.zero_add]
      exact others.nonneg rest isRest
  level := by rw [depth_append, balanced.level, others.level, Int.add_zero]

/-- Within a pair of parentheses around balanced tokens, the depth is not zero. -/
theorem Balanced.depth_pos
    {tokens front : List Token}
    (balanced : Balanced tokens)
    (isFront : front <+: .opening :: (tokens ++ [.closing]))
    (nonempty : front ≠ [])
    (proper : front ≠ .opening :: (tokens ++ [.closing])) :
    0 < depth front := by
  obtain rfl | ⟨rest, rfl, isRest⟩ := List.prefix_cons_iff.mp isFront
  · exact absurd rfl nonempty
  obtain rfl | within := List.prefix_concat_iff.mp isRest
  · exact absurd rfl proper
  · have nonneg := balanced.nonneg rest within
    rw [depth_cons, deepens]
    omega

/-- Balanced tokens in parentheses are balanced, as they never get below the outer one.
-/
theorem Balanced.enclose {tokens : List Token} (balanced : Balanced tokens) :
    Balanced (.opening :: (tokens ++ [.closing])) := by
  have level : depth (.opening :: (tokens ++ [.closing])) = 0 := by
    simp [deepens, balanced.level]
  refine ⟨fun front isFront => ?_, level⟩
  by_cases nonempty : front = []
  · exact Int.le_of_eq (by rw [nonempty, depth_nil])
  by_cases whole : front = .opening :: (tokens ++ [.closing])
  · exact Int.le_of_eq (by rw [whole, level])
  · exact Int.le_of_lt (balanced.depth_pos isFront nonempty whole)

end Token

namespace Form

open Token (Balanced balanced_nil balanced_singleton)

mutual

/-- The tokens of a form are balanced: each closing parenthesis has its own opening one.
-/
theorem balanced_tokens (form : Form) : Balanced form.tokens := by
  match form with
  | .word text => exact balanced_singleton rfl
  | .literal content => exact balanced_singleton rfl
  | .list items => exact (balanced_tokensAll items).enclose

theorem balanced_tokensAll (forms : List Form) : Balanced (tokensAll forms) := by
  match forms with
  | [] => exact balanced_nil
  | form :: rest => exact (balanced_tokens form).append (balanced_tokensAll rest)

end

end Form

/-! ## Texts in parentheses -/

namespace Token

/-- How deep in parentheses a text is behind some characters. Parentheses in literals
do not count. -/
def depthBehind (chars : List Char) : Int := depth (run .between chars).1

/-- A text stands in one pair of parentheses: it begins with one and ends with the
other, leaves no literal open, and gets back to depth zero at its end and not before. -/
structure Enclosed (text : String) : Prop where
  opens : text.toList.head? = some '('
  closes : text.toList.getLast? = some ')'
  finished : (run .between text.toList).2 = .between
  level : depthBehind text.toList = 0
  deep : ∀ front back, text.toList = front ++ back → front ≠ [] → back ≠ [] →
    0 < depthBehind front

/-- A closing parenthesis ends a text that leaves no literal open. It stands outside
literals then. -/
theorem step_closing
    {mode : Mode}
    {last : List Token}
    (finished : finish (step mode ')').2 = some last) :
    (step mode ')').1 ≠ [] ∧ (step mode ')').2 = .between := by
  cases mode with
  | between => exact ⟨List.cons_ne_nil _ _, rfl⟩
  | word reversed => exact ⟨List.cons_ne_nil _ _, rfl⟩
  | literal reversed => cases finished
  | escape reversed => cases finished

/-- The last character is read in the mode that those before it leave. -/
theorem run_concat (mode : Mode) (chars : List Char) (char : Char) :
    run mode (chars ++ [char]) =
      ((run mode chars).1 ++ (step (run mode chars).2 char).1,
        (step (run mode chars).2 char).2) := by
  rw [run_append, run_cons, run, List.append_nil]

/-- Characters of which the last is a closing parenthesis complete a token, unless they
leave a literal open. -/
theorem run_of_closing
    {mode : Mode}
    {chars : List Char}
    (closes : chars.getLast? = some ')')
    {last : List Token}
    (finished : finish (run mode chars).2 = some last) :
    (run mode chars).1 ≠ [] ∧ (run mode chars).2 = .between := by
  obtain ⟨front, rfl⟩ := List.getLast?_eq_some_iff.mp closes
  rw [run_concat] at finished ⊢
  obtain ⟨completes, between⟩ := step_closing finished
  exact ⟨List.append_ne_nil_of_right_ne_nil _ completes, between⟩

/-- The last character of a text behind which a parenthesis is put is this parenthesis.
-/
theorem getLast?_append_closing (text : String) :
    (text ++ ")").toList.getLast? = some ')' := by
  rw [String.toList_append]
  exact List.getLast?_concat

/-- A text in parentheses that is scanned to the tokens of a list has no other
parentheses at depth zero. -/
theorem enclosed_of_ofText
    {text : String}
    {items : List Form}
    (scanned : ofText text = some (Form.list items).tokens)
    (opens : text.toList.head? = some '(')
    (closes : text.toList.getLast? = some ')') :
    Enclosed text := by
  obtain ⟨last, finished, same⟩ := Option.map_eq_some_iff.mp scanned
  have ended := (run_of_closing closes finished).2
  have tokens : (run .between text.toList).1 = (Form.list items).tokens := by
    rw [ended] at finished
    cases finished
    rwa [List.append_nil] at same
  refine ⟨opens, closes, ended, ?_, fun front back parts someFront someBack => ?_⟩
  · rw [depthBehind, tokens]
    exact (Form.balanced_tokens _).level
  -- the tokens of the front are neither none nor all, as the text begins and ends with
  -- a token of its own
  have split := run_append .between front back
  rw [← parts] at split
  refine (Form.balanced_tokensAll items).depth_pos ?_ ?_ ?_
  · rw [← Form.tokens, ← tokens, split]
    exact List.prefix_append _ _
  · obtain ⟨first, rest, rfl⟩ := List.exists_cons_of_ne_nil someFront
    rw [parts, List.cons_append, List.head?_cons, Option.some.injEq] at opens
    subst opens
    exact List.cons_ne_nil _ _
  · rw [← Form.tokens, ← tokens, split]
    intro all
    rw [parts, List.getLast?_append_of_ne_nil _ someBack] at closes
    have atEnd : finish (run (run .between front).2 back).2 = some last := by
      rw [← finished, split]
    exact (run_of_closing closes atEnd).1 (List.self_eq_append_right.mp all)

/-- A text stands for a form: it stands in one pair of parentheses and is scanned to
the tokens of the form. -/
structure Shows (text : String) (form : Form) : Prop where
  enclosed : Enclosed text
  scanned : ofText text = some form.tokens

/-- A text that shows a form is read as this form. -/
theorem Shows.read {text : String} {form : Form} (shows : Shows text form) :
    Form.read text = some form :=
  Form.read_of_ofText shows.scanned

end Token

namespace Form

/-- Whether a form is a list. -/
def isList : Form → Bool
  | .list _ => true
  | _ => false

/-- A list whose words are proper is shown by its own text. -/
theorem shows_render {form : Form} (isList : form.isList = true) (proper : form.Proper) :
    Token.Shows form.render form := by
  have scanned := ofText_render form proper
  cases form with
  | word text => cases isList
  | literal content => cases isList
  | list items =>
      exact ⟨Token.enclosed_of_ofText scanned (by simp [render])
        (Token.getLast?_append_closing _), scanned⟩

end Form

end WebAssembly
