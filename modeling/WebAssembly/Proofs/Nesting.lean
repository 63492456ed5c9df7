import WebAssembly.Proofs.Module
import WebAssembly.Proofs.Printed

/-!
# Printing the trees of a function

The instructions of a function form trees: a block, a loop or a conditional encloses
other instructions up to its `end`. The lines of a function are made by a loop over
the flat sequence, which follows the depth in a counter. They are the lines that a
recursion over the trees makes, whatever the depth of the trees.

Two facts carry this. The loop passes the instructions of a tree and is back at the
depth that it came from, `codeLines_flatten`. The depth of the loop is that of the
sequence and one more for each open scope, `depthBehind_of_afterAll`.
-/

namespace WebAssembly

/-- An instruction with the instructions that it encloses. -/
inductive InstructionTree
  | plain (instruction : Instruction) (isPlain : instruction.opcode.IsPlain)
  | block (opener : Instruction) (body : List InstructionTree) (closer : Instruction)
      (opens : opener.opcode = .block ∨ opener.opcode = .loop)
      (closes : closer.opcode = .endOp)
  | conditional (opener : Instruction) (body : List InstructionTree) (closer : Instruction)
      (opens : opener.opcode = .ifOp)
      (closes : closer.opcode = .endOp)
  | alternative (opener : Instruction) (body : List InstructionTree) (divider : Instruction)
      (other : List InstructionTree) (closer : Instruction)
      (opens : opener.opcode = .ifOp)
      (divides : divider.opcode = .elseOp)
      (closes : closer.opcode = .endOp)

namespace InstructionTree

mutual

/-- The instructions of a tree in a flat sequence. -/
def flatten : InstructionTree → List Instruction
  | .plain instruction _ => [instruction]
  | .block opener body closer _ _ => opener :: (flattenAll body ++ [closer])
  | .conditional opener body closer _ _ => opener :: (flattenAll body ++ [closer])
  | .alternative opener body divider other closer _ _ _ =>
      opener :: (flattenAll body ++ divider :: (flattenAll other ++ [closer]))

/-- The instructions of trees, one tree after another. -/
def flattenAll : List InstructionTree → List Instruction
  | [] => []
  | tree :: rest => tree.flatten ++ flattenAll rest

end

mutual

/-- The instructions of a tree with their depths. What a tree encloses is one deeper
than the tree. -/
def placed (depth : Nat) : InstructionTree → List (Nat × Instruction)
  | .plain instruction _ => [(depth, instruction)]
  | .block opener body closer _ _ =>
      (depth, opener) :: (placedAll (depth + 1) body ++ [(depth, closer)])
  | .conditional opener body closer _ _ =>
      (depth, opener) :: (placedAll (depth + 1) body ++ [(depth, closer)])
  | .alternative opener body divider other closer _ _ _ =>
      (depth, opener) :: (placedAll (depth + 1) body ++
        (depth, divider) :: (placedAll (depth + 1) other ++ [(depth, closer)]))

/-- The instructions of trees with their depths. -/
def placedAll (depth : Nat) : List InstructionTree → List (Nat × Instruction)
  | [] => []
  | tree :: rest => tree.placed depth ++ placedAll depth rest

end

/-! ## Trees of a sequence -/

mutual

/-- A tree may stand before a bracketed sequence. -/
theorem bracketed_flatten
    (tree : InstructionTree)
    {rest : List Opcode}
    (restBracketed : Bracketed rest) :
    Bracketed (Instruction.opcodes tree.flatten ++ rest) := by
  match tree with
  | .plain instruction isPlain =>
      exact .plain isPlain restBracketed
  | .block opener body closer opens closes =>
      have bracketed := Bracketed.block opens (bracketed_flattenAll body) restBracketed
      simpa [flatten, Instruction.opcodes, closes] using bracketed
  | .conditional opener body closer opens closes =>
      have bracketed := Bracketed.conditional (bracketed_flattenAll body) restBracketed
      simpa [flatten, Instruction.opcodes, opens, closes] using bracketed
  | .alternative opener body divider other closer opens divides closes =>
      have bracketed := Bracketed.alternative (bracketed_flattenAll body)
        (bracketed_flattenAll other) restBracketed
      simpa [flatten, Instruction.opcodes, opens, divides, closes] using bracketed

/-- The opcodes of several trees are bracketed one tree after another. -/
theorem bracketed_flattenAll (trees : List InstructionTree) :
    Bracketed (Instruction.opcodes (flattenAll trees)) := by
  match trees with
  | [] => exact .nil
  | tree :: rest =>
      have bracketed := bracketed_flatten tree (bracketed_flattenAll rest)
      simpa [flattenAll, Instruction.opcodes] using bracketed

end

/-- What stands in front of an instruction and behind it. -/
theorem exists_of_opcodes_append_cons
    {code : List Instruction}
    {before behind : List Opcode}
    {op : Opcode}
    (spelled : Instruction.opcodes code = before ++ op :: behind) :
    ∃ front instruction back, code = front ++ instruction :: back ∧
      Instruction.opcodes front = before ∧ instruction.opcode = op ∧
      Instruction.opcodes back = behind := by
  obtain ⟨front, others, rfl, sameFront, sameOthers⟩ := List.map_eq_append_iff.mp spelled
  obtain ⟨instruction, back, rfl, isOp, sameBack⟩ := List.map_eq_cons_iff.mp sameOthers
  exact ⟨front, instruction, back, rfl, sameFront, isOp, sameBack⟩

/-- Instructions whose opcodes are bracketed form trees. -/
theorem exists_flattenAll_of_bracketed
    {ops : List Opcode}
    (bracketed : Bracketed ops)
    {code : List Instruction}
    (spelled : Instruction.opcodes code = ops) :
    ∃ trees, flattenAll trees = code := by
  -- The opcodes are split as they are bracketed, and the instructions with them.
  induction bracketed generalizing code with
  | nil =>
      obtain rfl := List.map_eq_nil_iff.mp spelled
      exact ⟨[], rfl⟩
  | plain isPlain _ restTrees =>
      obtain ⟨instruction, rest, rfl, rfl, sameRest⟩ := List.map_eq_cons_iff.mp spelled
      obtain ⟨trees, rfl⟩ := restTrees sameRest
      exact ⟨.plain instruction isPlain :: trees, rfl⟩
  | block opens _ _ bodyTrees restTrees =>
      obtain ⟨opener, behind, rfl, rfl, sameBehind⟩ := List.map_eq_cons_iff.mp spelled
      obtain ⟨body, closer, rest, rfl, sameBody, closes, sameRest⟩ :=
        exists_of_opcodes_append_cons sameBehind
      obtain ⟨body, rfl⟩ := bodyTrees sameBody
      obtain ⟨trees, rfl⟩ := restTrees sameRest
      exact ⟨.block opener body closer opens closes :: trees, by simp [flattenAll, flatten]⟩
  | conditional _ _ bodyTrees restTrees =>
      obtain ⟨opener, behind, rfl, opens, sameBehind⟩ := List.map_eq_cons_iff.mp spelled
      obtain ⟨body, closer, rest, rfl, sameBody, closes, sameRest⟩ :=
        exists_of_opcodes_append_cons sameBehind
      obtain ⟨body, rfl⟩ := bodyTrees sameBody
      obtain ⟨trees, rfl⟩ := restTrees sameRest
      exact ⟨.conditional opener body closer opens closes :: trees, by simp [flattenAll, flatten]⟩
  | alternative _ _ _ bodyTrees otherTrees restTrees =>
      obtain ⟨opener, behind, rfl, opens, sameBehind⟩ := List.map_eq_cons_iff.mp spelled
      obtain ⟨body, divider, divided, rfl, sameBody, divides, sameDivided⟩ :=
        exists_of_opcodes_append_cons sameBehind
      obtain ⟨other, closer, rest, rfl, sameOther, closes, sameRest⟩ :=
        exists_of_opcodes_append_cons sameDivided
      obtain ⟨body, rfl⟩ := bodyTrees sameBody
      obtain ⟨other, rfl⟩ := otherTrees sameOther
      obtain ⟨trees, rfl⟩ := restTrees sameRest
      exact ⟨.alternative opener body divider other closer opens divides closes :: trees,
        by simp [flattenAll, flatten]⟩

/-- Some instructions form trees exactly if they are bracketed. -/
theorem exists_flattenAll_iff (code : List Instruction) :
    (∃ trees, flattenAll trees = code) ↔ Bracketed (Instruction.opcodes code) := by
  constructor
  · rintro ⟨trees, rfl⟩
    exact bracketed_flattenAll trees
  · intro bracketed
    exact exists_flattenAll_of_bracketed bracketed rfl

end InstructionTree

/-! ## The loop -/

namespace Opcode

variable {op : Opcode} {base depth : Nat}

/-- A plain opcode stands at the depth of its sequence and leaves it. -/
theorem place_of_isPlain (isPlain : op.IsPlain) : op.place base depth = (depth, depth) := by
  obtain ⟨opensNothing, notEnd⟩ := isPlain
  unfold place
  split
  · cases opensNothing
  · exact absurd rfl notEnd
  · rw [opensNothing, if_neg Bool.false_ne_true]

/-- A block or a loop begins a deeper sequence. -/
theorem place_of_opens (opens : op = .block ∨ op = .loop) :
    op.place base depth = (depth, depth + 1) := by
  obtain rfl | rfl := opens <;> rfl

/-- An `if` begins a deeper sequence. -/
theorem place_ifOp : place base depth .ifOp = (depth, depth + 1) := rfl

/-- An `else` stands at the depth of its `if`. -/
theorem place_elseOp : place base (depth + 1) .elseOp = (depth, depth + 1) := rfl

/-- An `end` stands as deep as its opener if the loop is deeper than it began. -/
theorem place_endOp (above : base < depth + 1) :
    place base (depth + 1) .endOp = (depth, depth) :=
  if_pos above

/-- An opcode that leaves the sequence open moves the depth as it does the number of
open scopes. -/
theorem place_of_within
    {scopes next : List Scope}
    (goesOn : Scope.effect scopes op = .within next) :
    (op.place base (base + scopes.length)).2 = base + next.length := by
  obtain isPlain | opens | rfl | rfl | rfl := op.isPlain_or
  · rw [Scope.effect_of_isPlain isPlain, Scope.Effect.within.injEq] at goesOn
    rw [place_of_isPlain isPlain, goesOn]
  · rw [Scope.effect_of_opens opens, Scope.Effect.within.injEq] at goesOn
    rw [place_of_opens opens, ← goesOn, List.length_cons, Nat.add_assoc]
  · cases goesOn
    rw [place_ifOp, List.length_cons, Nat.add_assoc]
  · obtain _ | ⟨_ | _, outer⟩ := scopes
    · cases goesOn
    · cases goesOn
    · cases goesOn
      rfl
  · cases scopes with
    | nil => cases goesOn
    | cons scope outer =>
        cases goesOn
        have above : base < base + next.length + 1 := by omega
        rw [List.length_cons, ← Nat.add_assoc, place_endOp above]

end Opcode

/-- The depth of the loop behind some instructions. -/
def depthBehind (base : Nat) : (depth : Nat) → List Instruction → Nat
  | depth, [] => depth
  | depth, instruction :: rest => depthBehind base (instruction.opcode.place base depth).2 rest

section Loop

variable (params base depth : Nat)

/-- An instruction is written at its place, and the loop goes on at the depth behind
it. -/
theorem codeLines_cons
    {instruction : Instruction}
    {here next : Nat}
    (place : instruction.opcode.place base depth = (here, next))
    (rest : List Instruction)
    (earlier : List Line) :
    codeLines params base depth (instruction :: rest) earlier =
      codeLines params base next rest (⟨here, instruction.text params⟩ :: earlier) := by
  rw [codeLines, place]

/-- Between two instructions the loop is at the depth behind the first ones. -/
theorem codeLines_append (first second : List Instruction) (earlier : List Line) :
    codeLines params base depth (first ++ second) earlier =
      codeLines params base (depthBehind base depth first) second
        (codeLines params base depth first earlier).reverse := by
  induction first generalizing depth earlier with
  | nil => rw [List.nil_append, codeLines, List.reverse_reverse, depthBehind]
  | cons instruction rest inductionHypothesis =>
      have place : instruction.opcode.place base depth =
          ((instruction.opcode.place base depth).1, (instruction.opcode.place base depth).2) :=
        rfl
      rw [List.cons_append, codeLines_cons _ _ _ place, inductionHypothesis,
        codeLines_cons _ _ _ place, depthBehind]

/-- The loop is as deep as there are open scopes. -/
theorem depthBehind_of_afterAll
    {scopes last : List Scope}
    {code : List Instruction}
    (followed : Scope.afterAll scopes (Instruction.opcodes code) = some last) :
    depthBehind base (base + scopes.length) code = base + last.length := by
  induction code generalizing scopes with
  | nil =>
      cases followed
      rfl
  | cons instruction rest inductionHypothesis =>
      obtain ⟨next, goesOn, restFollowed⟩ := Scope.within_of_afterAll_cons followed
      rw [depthBehind, Opcode.place_of_within goesOn, inductionHypothesis restFollowed]

/-- At each `end` in a bracketed sequence the loop is deeper than it began. -/
theorem lt_depthBehind
    {before behind : List Instruction}
    {closer : Instruction}
    (bracketed : Bracketed (Instruction.opcodes (before ++ closer :: behind)))
    (closes : closer.opcode = .endOp) :
    base < depthBehind base base before := by
  rw [bracketed_iff, Instruction.opcodes, List.map_append, Scope.afterAll_append,
    Option.bind_eq_some_iff] at bracketed
  obtain ⟨scopes, followed, rest⟩ := bracketed
  obtain ⟨next, goesOn, -⟩ := Scope.within_of_afterAll_cons rest
  have reached : depthBehind base base before = base + scopes.length :=
    depthBehind_of_afterAll base followed
  rw [closes] at goesOn
  -- An `end` goes on only from inside a scope.
  cases scopes with
  | nil => cases goesOn
  | cons scope outer =>
      rw [reached, List.length_cons]
      omega

/-- An instruction on a line of its own. -/
def Instruction.line (placed : Nat × Instruction) : Line :=
  ⟨placed.1, placed.2.text params⟩

end Loop

namespace InstructionTree

variable (params : Nat) {base : Nat}

/-- Trees between an opener and the instruction that leaves their scope are written one
deeper. -/
theorem codeLines_enclosed
    {depth next : Nat}
    {opener leaver : Instruction}
    {body : List InstructionTree}
    (opens : opener.opcode.place base depth = (depth, depth + 1))
    (leaves : leaver.opcode.place base (depth + 1) = (depth, next))
    (inside : ∀ rest earlier,
      codeLines params base (depth + 1) (flattenAll body ++ rest) earlier =
        codeLines params base (depth + 1) rest
          (((placedAll (depth + 1) body).map (Instruction.line params)).reverse ++ earlier))
    (rest : List Instruction)
    (earlier : List Line) :
    codeLines params base depth (opener :: (flattenAll body ++ leaver :: rest)) earlier =
      codeLines params base next rest
        ((((depth, opener) :: (placedAll (depth + 1) body ++ [(depth, leaver)])).map
          (Instruction.line params)).reverse ++ earlier) := by
  rw [codeLines_cons _ _ _ opens, inside, codeLines_cons _ _ _ leaves]
  simp [Instruction.line]

mutual

/-- The loop writes a tree like the recursion, and goes on at the depth that it came
from. -/
theorem codeLines_flatten
    (tree : InstructionTree)
    {depth : Nat}
    (above : base ≤ depth)
    (rest : List Instruction)
    (earlier : List Line) :
    codeLines params base depth (tree.flatten ++ rest) earlier =
      codeLines params base depth rest
        (((tree.placed depth).map (Instruction.line params)).reverse ++ earlier) := by
  -- An `end` only lowers the depth above the base, where every inner sequence is.
  have deeper : base ≤ depth + 1 := Nat.le_succ_of_le above
  have place_closer {closer : Instruction} (closes : closer.opcode = .endOp) :
      closer.opcode.place base (depth + 1) = (depth, depth) := by
    rw [closes]
    exact Opcode.place_endOp (Nat.lt_succ_of_le above)
  match tree with
  | .plain instruction isPlain =>
      exact codeLines_cons params base depth (Opcode.place_of_isPlain isPlain) rest earlier
  | .block opener body closer opens closes =>
      have enclosed := codeLines_enclosed params (Opcode.place_of_opens opens)
        (place_closer closes) (codeLines_flattenAll body deeper) rest earlier
      simpa [flatten, placed] using enclosed
  | .conditional opener body closer opens closes =>
      have place : opener.opcode.place base depth = (depth, depth + 1) := by
        rw [opens, Opcode.place_ifOp]
      have enclosed := codeLines_enclosed params place (place_closer closes)
        (codeLines_flattenAll body deeper) rest earlier
      simpa [flatten, placed] using enclosed
  | .alternative opener body divider other closer opens divides closes =>
      have place : opener.opcode.place base depth = (depth, depth + 1) := by
        rw [opens, Opcode.place_ifOp]
      have place_divider : divider.opcode.place base (depth + 1) = (depth, depth + 1) := by
        rw [divides, Opcode.place_elseOp]
      rw [flatten, List.cons_append, List.append_assoc, List.cons_append,
        codeLines_enclosed params place place_divider (codeLines_flattenAll body deeper),
        List.append_assoc, codeLines_flattenAll other deeper, List.singleton_append,
        codeLines_cons _ _ _ (place_closer closes)]
      simp [placed, Instruction.line]

/-- The lines of several trees are printed one tree after another, and behind them the
depth is what it was. -/
theorem codeLines_flattenAll
    (trees : List InstructionTree)
    {depth : Nat}
    (above : base ≤ depth)
    (rest : List Instruction)
    (earlier : List Line) :
    codeLines params base depth (flattenAll trees ++ rest) earlier =
      codeLines params base depth rest
        (((placedAll depth trees).map (Instruction.line params)).reverse ++ earlier) := by
  match trees with
  | [] => rfl
  | tree :: others =>
      rw [flattenAll, List.append_assoc, codeLines_flatten tree above,
        codeLines_flattenAll others above]
      simp [placedAll]

end

mutual

/-- How deep a tree stands does not change its shape. -/
theorem placed_add (tree : InstructionTree) (depth added : Nat) :
    tree.placed (depth + added) =
      (tree.placed depth).map fun (here, instruction) => (here + added, instruction) := by
  match tree with
  | .plain instruction isPlain => rfl
  | .block opener body closer _ _ | .conditional opener body closer _ _ =>
      have deeper := placedAll_add body (depth + 1) added
      rw [Nat.add_right_comm] at deeper
      simp [placed, deeper]
  | .alternative opener body divider other closer opens divides closes =>
      have deeper := placedAll_add body (depth + 1) added
      have otherDeeper := placedAll_add other (depth + 1) added
      rw [Nat.add_right_comm] at deeper otherDeeper
      simp [placed, deeper, otherDeeper]

/-- Trees that stand deeper have all their instructions deeper. -/
theorem placedAll_add (trees : List InstructionTree) (depth added : Nat) :
    placedAll (depth + added) trees =
      (placedAll depth trees).map fun (here, instruction) => (here + added, instruction) := by
  match trees with
  | [] => rfl
  | tree :: rest => simp [placedAll, placed_add tree, placedAll_add rest]

end

/-- An instruction at a depth in a function, behind the break that starts its line. -/
def written (params : Nat) (placed : Nat × Instruction) : String :=
  "\n" ++ String.ofList (List.replicate (2 * min 50 (placed.1 + 2)) ' ') ++
    placed.2.text params

end InstructionTree

/-! ## One line for each instruction -/

namespace Form

mutual

/-- No literal occurs in a form. -/
def Wordy : Form → Prop
  | .word _ => True
  | .literal _ => False
  | .list items => WordyAll items

/-- No literal occurs in some forms. -/
def WordyAll : List Form → Prop
  | [] => True
  | form :: rest => form.Wordy ∧ WordyAll rest

end

theorem wordyAll_append (first second : List Form) :
    WordyAll (first ++ second) ↔ WordyAll first ∧ WordyAll second := by
  induction first with
  | nil => simp [WordyAll]
  | cons form rest inductionHypothesis => simp [WordyAll, inductionHypothesis, and_assoc]

theorem wordyAll_map {form : α → Form} (wordy : ∀ item, (form item).Wordy) (items : List α) :
    WordyAll (items.map form) := by
  induction items with
  | nil => trivial
  | cons item rest inductionHypothesis => exact ⟨wordy item, inductionHypothesis⟩

mutual

/-- A line breaks only in literals. -/
theorem unbroken_render
    (form : Form)
    (proper : form.Proper)
    (wordy : form.Wordy) :
    '\n' ∉ form.render.toList := by
  match form with
  | .word text =>
      intro broken
      have delimits := proper.2 _ broken
      simp [Token.isDelimiter] at delimits
  | .literal content => exact absurd wordy id
  | .list items =>
      have inside := unbroken_renderAll items proper wordy
      simp [render, inside]

/-- Proper wordy forms stand on one line. -/
theorem unbroken_renderAll
    (forms : List Form)
    (proper : ProperAll forms)
    (wordy : WordyAll forms) :
    '\n' ∉ (renderAll forms).toList := by
  match forms with
  | [] => simp [renderAll]
  | form :: rest =>
      have here := unbroken_render form proper.1 wordy.1
      have others := unbroken_renderRest rest proper.2 wordy.2
      simp [renderAll, here, others]

/-- Proper wordy forms that follow another one stand on its line. -/
theorem unbroken_renderRest
    (forms : List Form)
    (proper : ProperAll forms)
    (wordy : WordyAll forms) :
    '\n' ∉ (renderRest forms).toList := by
  match forms with
  | [] => simp [renderRest]
  | form :: rest =>
      have here := unbroken_render form proper.1 wordy.1
      have others := unbroken_renderRest rest proper.2 wordy.2
      simp [renderRest, here, others]

end

end Form

/-- The forms of an immediate are wordy, whatever the opcode in front of it is. -/
theorem Immediate.wordy_forms (op : Opcode) (params : Nat) (immediate : Immediate) :
    Form.WordyAll (immediate.forms op params) := by
  cases immediate with
  | block type => cases type <;> simp [forms, resultForms, Form.WordyAll, Form.Wordy]
  | branchTable targets fallback =>
      have wordy (target : UInt32) : (Form.word (toString target.toNat)).Wordy := trivial
      exact (Form.wordyAll_append _ _).mpr ⟨Form.wordyAll_map wordy targets, trivial, trivial⟩
  | memory argument =>
      refine (Form.wordyAll_append _ _).mpr ⟨?_, ?_⟩ <;> split <;>
        simp [Form.WordyAll, Form.Wordy]
  | _ => simp [forms, typeUse, Form.WordyAll, Form.Wordy]

/-- An instruction takes a single line. -/
theorem Instruction.unbroken_text (params : Nat) (instruction : Instruction) :
    '\n' ∉ (instruction.text params).toList := by
  rw [Instruction.text_eq]
  exact Form.unbroken_renderAll _ (Instruction.proper_forms params instruction)
    ⟨trivial, Immediate.wordy_forms _ _ _⟩

/-! ## Functions -/

namespace Func

open InstructionTree

/-- A function is written like its trees, from its first line to the parenthesis that
closes it. -/
structure PrintsTrees (function : Func) (trees : List InstructionTree) : Prop where
  lines :
    function.lines.map Line.render =
      ("\n  " ++ function.headerText) ::
        (function.localLines.map Line.render ++
          (placedAll 0 trees).map (written function.type.params.length) ++ ["\n  )"])
  /-- An instruction takes a single line. -/
  unbroken :
    ∀ instruction ∈ function.body.code,
      '\n' ∉ (instruction.text function.type.params.length).toList
  /-- The loop up to an `end` comes to a depth that the `end` can leave. -/
  guarded :
    ∀ before closer behind, function.body.code = before ++ closer :: behind →
      closer.opcode = .endOp →
      2 < depthBehind 2 2 before ∧
      codeLines function.type.params.length 2 2 function.body.code [] =
        codeLines function.type.params.length 2 (depthBehind 2 2 before) (closer :: behind)
          (codeLines function.type.params.length 2 2 before []).reverse

/-- The loop of a function writes the trees of its instructions. -/
theorem codeLines_of_trees (params : Nat) (trees : List InstructionTree) :
    (codeLines params 2 2 (flattenAll trees) []).map Line.render =
      (placedAll 0 trees).map (written params) := by
  have looped := codeLines_flattenAll params trees (Nat.le_refl 2) [] []
  rw [List.append_nil, codeLines, List.append_nil, List.reverse_reverse] at looped
  have shifted := placedAll_add trees 0 2
  rw [looped, shifted, List.map_map, List.map_map]
  rfl

/-- A function whose instructions form trees is written like its trees. -/
theorem printsTrees
    {function : Func}
    {trees : List InstructionTree}
    (flat : flattenAll trees = function.body.code) :
    function.PrintsTrees trees where
  lines := by
    have code := codeLines_of_trees function.type.params.length trees
    rw [flat] at code
    rw [Func.lines, List.map_cons, List.map_append, List.map_append, code]
    rfl
  unbroken := fun instruction _ => Instruction.unbroken_text _ instruction
  guarded := by
    intro before closer behind split closes
    have bracketed := bracketed_flattenAll trees
    rw [flat, split] at bracketed
    refine ⟨lt_depthBehind 2 bracketed closes, ?_⟩
    rw [split, codeLines_append]

end Func

namespace Module

open InstructionTree

/-- The lines of a function stand together in the text of its module. -/
theorem exists_text_eq
    {module : Module}
    {function : Func}
    (isCode : function ∈ entries module.code) :
    ∃ front back, module.text =
      front ++ String.join (function.lines.map Line.render) ++ back := by
  obtain ⟨before, behind, split⟩ := List.append_of_mem isCode
  have inside : function.lines <:+: module.lines := by
    have among : function.lines <:+: (entries module.code).flatMap Func.lines := by
      rw [split, List.flatMap_append, List.flatMap_cons, ← List.append_assoc]
      exact List.infix_append _ _ _
    refine among.trans ⟨module.typeLines ++ importLines 0 0 (entries module.imports) ++
      module.globalLines, module.memoryLines ++ module.tableLines ++ module.dataLines ++
        (entries module.exports).map (fun item => ⟨1, item.text⟩) ++
        (entries module.elements).map (fun segment => ⟨1, segment.text⟩) ++
        module.startLines, ?_⟩
    simp only [lines, List.append_assoc]
  obtain ⟨front, back, same⟩ := inside
  refine ⟨"(module" ++ String.join (front.map Line.render),
    String.join (back.map Line.render) ++ (if module.lines.isEmpty then "" else "\n") ++ ")\n", ?_⟩
  apply String.toList_inj.mp
  rw [Module.text]
  simp [← same]

/-- The printing loop writes a function like the trees of its instructions, and the
instructions of every function of an accepted binary form trees. -/
theorem prints_trees :
    (∀ (function : Func) (trees : List InstructionTree),
      flattenAll trees = function.body.code → function.PrintsTrees trees) ∧
    ∀ (format : HeaderFormat) (input : List UInt8) (module : Module),
      ofBytes format input = .ok module →
      ∀ function ∈ entries module.code, ∃ trees,
        flattenAll trees = function.body.code ∧
        function.PrintsTrees trees ∧
        ∃ front back, module.text =
          front ++ String.join (function.lines.map Line.render) ++ back := by
  constructor
  · intro function trees flat
    exact Func.printsTrees flat
  · intro format input module decoded function isCode
    obtain ⟨_, _, -, -, -, -, -, closed⟩ := (ofBytes_eq_ok_iff _ _ _).mp decoded
    obtain ⟨_, _, valid⟩ := closed.valid_of_mem_code isCode
    obtain ⟨trees, flat⟩ := (exists_flattenAll_iff _).mpr valid.body.bracketed
    exact ⟨trees, flat, Func.printsTrees flat, exists_text_eq isCode⟩

/-- A block around a conditional with a loop in its second half. -/
theorem prints_trees_of_conditional :
    let input := Header.magicBytes ++ Header.versionBytes ++
      [1, 4, 1, 0x60, 0, 0, 3, 2, 1, 0,
        10, 15, 1, 13, 0, 2, 0x40, 4, 0x40, 1, 5, 3, 0x40, 0x0B, 0x0B, 0x0B, 0x0B]
    let trees : List InstructionTree :=
      [.block ⟨.block, .block .empty⟩
        [.alternative ⟨.ifOp, .block .empty⟩
          [.plain ⟨.nop, .absent⟩ ⟨rfl, by decide⟩]
          ⟨.elseOp, .absent⟩
          [.block ⟨.loop, .block .empty⟩ [] ⟨.endOp, .absent⟩ (.inr rfl) rfl]
          ⟨.endOp, .absent⟩ rfl rfl rfl]
        ⟨.endOp, .absent⟩ (.inl rfl) rfl]
    let function : Func := ⟨0, 0, ⟨[], [], 3⟩, ⟨13, [], flattenAll trees, 14⟩⟩
    let module : Module :=
      { magic := "\x00asm"
        version := 1
        types := some [⟨[], [], 3⟩]
        functions := some [0]
        code := some [function] }
    ofBytes .compact input = .ok module ∧
      (placedAll 0 trees).map Prod.fst = [0, 1, 2, 1, 2, 2, 1, 0] ∧
      function.PrintsTrees trees ∧
      ∃ trees, flattenAll trees = function.body.code ∧ function.PrintsTrees trees ∧
        ∃ front back, module.text =
          front ++ String.join (function.lines.map Line.render) ++ back := by
  intro input trees function module
  have decoded : ofBytes .compact input = .ok module := by decide +kernel
  exact ⟨decoded, rfl, prints_trees.1 function trees rfl,
    prints_trees.2 .compact input module decoded function (List.mem_singleton.mpr rfl)⟩

end Module

end WebAssembly
