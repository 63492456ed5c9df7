import WebAssembly.Text.Module

/-!
# Printing with a nesting counter

The lines of a module state their depths. A printer may keep one counter instead,
which it raises behind an opener and lowers before an `else` or an `end`, and indent
each line by it. It writes the same text, whatever the instructions are: the counter
is never lowered below zero, it stays at or above the depth at which a function's
instructions begin, and behind the function it is back where it was.
-/

namespace WebAssembly

/-! ## Places at or above a base -/

/-- The depth of a sequence does not fall below its base. -/
theorem Opcode.le_place (op : Opcode) {base depth : Nat} (above : base ≤ depth) :
    base ≤ (op.place base depth).2 := by
  unfold place
  split
  · exact above
  · split
    · exact Nat.le_sub_one_of_lt ‹_›
    · exact above
  · split
    · exact Nat.le_succ_of_le above
    · exact above

/-- Any other opcode stands at the depth it finds, and only openers raise it. -/
theorem Opcode.place_of_ne
    {op : Opcode}
    (notElse : op ≠ .elseOp)
    (notEnd : op ≠ .endOp)
    (base depth : Nat) :
    op.place base depth = if op.opensBlock then (depth, depth + 1) else (depth, depth) := by
  unfold place
  split
  · exact absurd rfl notElse
  · exact absurd rfl notEnd
  · rfl

/-- A line begins with a break. -/
theorem Line.length_render_pos (line : Line) : 0 < line.render.length := by
  rw [render, String.length_append, String.length_append, Nat.add_assoc]
  exact Nat.lt_of_lt_of_le Nat.one_pos (Nat.le_add_right _ _)

/-! ## The printer -/

/-- The text that has been written, and the nesting of the next line. -/
structure Printer where
  result : String
  nesting : Nat

namespace Printer

/-- A step of printing. There is none if the nesting would fall below zero. -/
abbrev Print := StateT Printer Option Unit

/-- Write some text. -/
def write (text : String) : Print :=
  modify fun printer => { printer with result := printer.result ++ text }

/-- Raise the nesting. -/
def enter : Print :=
  modify fun printer => { printer with nesting := printer.nesting + 1 }

/-- Lower the nesting. -/
def leave : Print := fun printer =>
  match printer.nesting with
  | 0 => none
  | nesting + 1 => some ((), { printer with nesting })

/-- Begin a line at the nesting. -/
def newline : Print := do
  write ("\n" ++ Line.indentation (← get).nesting)

/-- Write a line. -/
def line (text : String) : Print := do
  newline
  write text

/-- Write the line of an instruction, in a function whose instructions began at the
nesting `start`. -/
def instructionLine (start : Nat) (text : String) : Opcode → Print
  | .elseOp => do
      leave
      line text
      enter
  | .endOp => do
      if start < (← get).nesting then leave
      line text
  | op => do
      line text
      if op.opensBlock then enter

/-- Write an instruction. -/
def instruction (params start : Nat) (instruction : Instruction) : Print :=
  instructionLine start (instruction.text params) instruction.opcode

/-- Write a function. Whatever the nesting is behind its instructions, it is set back. -/
def function (function : Func) : Print := do
  line function.headerText
  enter
  function.localLines.forM fun item => line item.text
  let start := (← get).nesting
  function.body.code.forM (instruction function.type.params.length start)
  modify fun printer => { printer with nesting := start }
  leave
  line ")"

/-- Write some lines, which need not state their depths. -/
def lines (lines : List Line) : Print :=
  lines.forM fun item => line item.text

/-- Write what a module consists of. -/
def parts (module : Module) : Print := do
  lines module.typeLines
  lines (importLines 0 0 (Module.entries module.imports))
  lines module.globalLines
  (Module.entries module.code).forM function
  lines module.memoryLines
  lines module.tableLines
  lines module.dataLines
  (Module.entries module.exports).forM fun item => line item.text
  (Module.entries module.elements).forM fun segment => line segment.text
  lines module.startLines

/-- Write a module. The last line is broken off only if there are parts. -/
def module (module : Module) : Print := do
  write "(module"
  let start := (← get).result.length
  enter
  parts module
  leave
  if start < (← get).result.length then newline
  write ")\n"

/-! ## What is printed -/

/-- A step writes some lines at a nesting and comes back to it. -/
def Prints (nesting : Nat) (print : Print) (lines : List Line) : Prop :=
  ∀ result, print ⟨result, nesting⟩ =
    some ((), ⟨result ++ String.join (lines.map Line.render), nesting⟩)

/-- A step that succeeds is followed by the next one. -/
theorem bind_of_some
    {first : StateT Printer Option α}
    {next : α → StateT Printer Option β}
    {printer after : Printer}
    {value : α}
    (succeeds : first printer = some (value, after)) :
    (first >>= next) printer = next value after := by
  change (first printer).bind (fun pair => next pair.1 pair.2) = next value after
  rw [succeeds, Option.bind_some]

/-- What each step of the printer does to the text and the nesting. -/
theorem write_apply (text result : String) (nesting : Nat) :
    write text ⟨result, nesting⟩ = some ((), ⟨result ++ text, nesting⟩) := rfl

theorem enter_apply (result : String) (nesting : Nat) :
    enter ⟨result, nesting⟩ = some ((), ⟨result, nesting + 1⟩) := rfl

theorem leave_apply (result : String) (nesting : Nat) :
    leave ⟨result, nesting + 1⟩ = some ((), ⟨result, nesting⟩) := rfl

theorem get_apply (printer : Printer) :
    (get : StateT Printer Option Printer) printer = some (printer, printer) := rfl

theorem newline_apply (result : String) (nesting : Nat) :
    newline ⟨result, nesting⟩ =
      some ((), ⟨result ++ ("\n" ++ Line.indentation nesting), nesting⟩) := rfl

/-- One line is written with the indentation of the nesting. -/
theorem line_apply (text result : String) (nesting : Nat) :
    line text ⟨result, nesting⟩ =
      some ((), ⟨result ++ Line.render ⟨nesting, text⟩, nesting⟩) := by
  change some ((), Printer.mk (result ++ ("\n" ++ Line.indentation nesting) ++ text) nesting) = _
  rw [String.append_assoc, Line.render]

/-- A line is printed at the nesting it finds. -/
theorem prints_line (text : String) (nesting : Nat) :
    Prints nesting (line text) [⟨nesting, text⟩] := by
  intro result
  rw [line_apply, List.map_singleton, String.join_cons, String.join_nil, String.append_empty]

/-- Steps that come back to the nesting write their lines one after another. -/
theorem Prints.seq
    {nesting : Nat}
    {first next : Print}
    {firstLines nextLines : List Line}
    (prints : Prints nesting first firstLines)
    (printsNext : Prints nesting next nextLines) :
    Prints nesting (do first; next) (firstLines ++ nextLines) := by
  intro result
  rw [bind_of_some (prints result), printsNext, List.map_append, String.join_append,
    String.append_assoc]

/-- So do the steps of a loop. -/
theorem Prints.forM
    {nesting : Nat}
    {print : α → Print}
    {linesOf : α → List Line}
    (items : List α)
    (prints : ∀ item ∈ items, Prints nesting (print item) (linesOf item)) :
    Prints nesting (items.forM print) (items.flatMap linesOf) := by
  induction items with
  | nil =>
      intro result
      rw [List.flatMap_nil, List.map_nil, String.join_nil, String.append_empty]
      rfl
  | cons item rest inductionHypothesis =>
      exact (prints item List.mem_cons_self).seq
        (inductionHypothesis fun other among => prints other (List.mem_cons_of_mem _ among))

/-- Texts are written as lines at the nesting. -/
theorem prints_texts (text : α → String) (items : List α) (nesting : Nat) :
    Prints nesting (items.forM fun item => line (text item))
      (items.map fun item => ⟨nesting, text item⟩) := by
  rw [List.map_eq_flatMap]
  exact .forM items fun item _ => prints_line (text item) nesting

/-- Lines whose depth is the nesting are written as they stand. -/
theorem prints_lines
    {nesting : Nat}
    {list : List Line}
    (level : ∀ line ∈ list, line.depth = nesting) :
    Prints nesting (lines list) list := by
  have same : list.map (fun item => Line.mk nesting item.text) = list := by
    refine (List.map_congr_left fun item among => ?_).trans (List.map_id list)
    rw [← level item among, id]
  have prints := prints_texts Line.text list nesting
  rwa [same] at prints

/-! ## Functions -/

section Instructions

variable {start nesting : Nat}

/-- The line of an instruction is written at its place, and the nesting behind it is that
of the place. Above a positive base, the counter is not lowered at zero. -/
theorem instructionLine_apply
    (op : Opcode)
    (positive : 0 < start)
    (above : start ≤ nesting)
    (text result : String) :
    instructionLine start text op ⟨result, nesting⟩ =
      some ((), ⟨result ++ Line.render ⟨(op.place start nesting).1, text⟩,
        (op.place start nesting).2⟩) := by
  obtain ⟨below, rfl⟩ := Nat.exists_eq_add_of_lt (Nat.lt_of_lt_of_le positive above)
  rw [Nat.zero_add] at *
  unfold instructionLine
  split
  · rw [bind_of_some (leave_apply _ _), bind_of_some (line_apply _ _ _)]
    rfl
  · rw [bind_of_some (get_apply _), Opcode.place]
    by_cases deeper : start < below + 1
    · rw [if_pos deeper, if_pos deeper, bind_of_some (leave_apply _ _)]
      exact line_apply text result below
    · rw [if_neg deeper, if_neg deeper]
      exact line_apply text result (below + 1)
  · rename_i notElse notEnd
    rw [Opcode.place_of_ne notElse notEnd, bind_of_some (line_apply _ _ _)]
    cases op.opensBlock <;> rfl

variable (params : Nat)

/-- The instructions of a function are written as the loop places them, and the nesting
stays at or above the base. -/
theorem forM_instruction_apply
    (positive : 0 < start)
    (code : List Instruction)
    (above : start ≤ nesting)
    (front : String)
    (earlier : List Line) :
    ∃ behind, start ≤ behind ∧
      code.forM (instruction params start)
          ⟨front ++ String.join (earlier.reverse.map Line.render), nesting⟩ =
        some ((), ⟨front ++ String.join
          ((codeLines params start nesting code earlier).map Line.render), behind⟩) := by
  -- The nesting stays at or above the start, whatever the instructions are.
  induction code generalizing nesting earlier with
  | nil => exact ⟨nesting, above, rfl⟩
  | cons item rest inductionHypothesis =>
      obtain ⟨behind, stays, written⟩ := inductionHypothesis
        (item.opcode.le_place above)
        (⟨(item.opcode.place start nesting).1, item.text params⟩ :: earlier)
      have first : instruction params start item _ = _ :=
        instructionLine_apply item.opcode positive above (item.text params)
          (front ++ String.join (earlier.reverse.map Line.render))
      rw [List.reverse_cons, List.map_append, String.join_append, ← String.append_assoc,
        List.map_singleton, String.join_cons, String.join_nil, String.append_empty] at written
      exact ⟨behind, stays, (bind_of_some first).trans written⟩

end Instructions

/-- A function is written as its lines. Its instructions begin at nesting 2. -/
theorem prints_function (item : Func) : Prints 1 (function item) item.lines := by
  intro result
  have header := line_apply item.headerText result 1
  have locals : Prints 2 (item.localLines.forM fun item => line item.text) item.localLines :=
    prints_lines fun line among => by
      obtain ⟨_, -, rfl⟩ := List.mem_map.mp among
      rfl
  let upTo := result ++ Line.render ⟨1, item.headerText⟩ ++
    String.join (item.localLines.map Line.render)
  obtain ⟨behind, -, code⟩ := forM_instruction_apply item.type.params.length (by decide : 0 < 2)
    item.body.code (Nat.le_refl 2) upTo []
  rw [List.reverse_nil, List.map_nil, String.join_nil, String.append_empty] at code
  unfold function
  rw [bind_of_some header, bind_of_some (enter_apply _ _), bind_of_some (locals _),
    bind_of_some (get_apply _), bind_of_some code]
  -- the nesting is set back, whatever it is behind the instructions
  refine (line_apply ")" _ 1).trans ?_
  simp only [upTo, Func.lines, List.map_cons, List.map_append, List.map_nil, String.join_cons,
    String.join_append, String.join_nil, String.append_assoc, String.append_empty]

/-! ## Modules -/

section Levels

/-- Imports stand on lines of their own. -/
theorem depth_importLines (functions globals : Nat) (imports : List Import) :
    ∀ line ∈ importLines functions globals imports, line.depth = 1 := by
  induction imports generalizing functions globals with
  | nil => simp [importLines]
  | cons item rest inductionHypothesis =>
      unfold importLines
      cases item.desc <;>
        exact List.forall_mem_cons.mpr ⟨rfl, inductionHypothesis _ _⟩

variable (module : Module)

/-- Memories stand on lines of their own, whether they fold data or not. -/
theorem depth_memoryLines : ∀ line ∈ module.memoryLines, line.depth = 1 := by
  unfold Module.memoryLines
  cases module.foldedData? <;> simp

/-- Data that are not folded stand on lines of their own. -/
theorem depth_dataLines : ∀ line ∈ module.dataLines, line.depth = 1 := by
  unfold Module.dataLines
  cases module.foldedData? <;> simp

/-- The start function stands on a line of its own. -/
theorem depth_startLines : ∀ line ∈ module.startLines, line.depth = 1 := by
  unfold Module.startLines
  cases module.start <;> simp

end Levels

/-- The parts of a module are written at nesting 1, where their lines say that they
are. -/
theorem prints_parts (module : Module) : Prints 1 (parts module) module.lines := by
  have functions := Prints.forM (Module.entries module.code) fun item _ => prints_function item
  have types : ∀ line ∈ module.typeLines, line.depth = 1 := List.forall_mem_map.mpr fun _ _ => rfl
  have globals : ∀ line ∈ module.globalLines, line.depth = 1 :=
    List.forall_mem_map.mpr fun _ _ => rfl
  have tables : ∀ line ∈ module.tableLines, line.depth = 1 :=
    List.forall_mem_map.mpr fun _ _ => rfl
  simp only [Module.lines, List.append_assoc]
  refine (prints_lines types).seq ?_
  refine (prints_lines (depth_importLines 0 0 _)).seq ?_
  refine (prints_lines globals).seq ?_
  refine functions.seq ?_
  refine (prints_lines (depth_memoryLines module)).seq ?_
  refine (prints_lines tables).seq ?_
  refine (prints_lines (depth_dataLines module)).seq ?_
  refine (prints_texts Export.text _ 1).seq ?_
  refine (prints_texts ElementSegment.text _ 1).seq ?_
  exact prints_lines (depth_startLines module)

/-- The printer writes the text of a module and is not nested behind it, whatever the
module is. -/
theorem module_apply (item : Module) :
    module item ⟨"", 0⟩ = some ((), ⟨item.text, 0⟩) := by
  unfold module
  rw [bind_of_some (write_apply _ _ _), bind_of_some (get_apply _),
    bind_of_some (enter_apply _ _), bind_of_some (prints_parts item _),
    bind_of_some (leave_apply _ _), bind_of_some (get_apply _), Module.text]
  cases parts : item.lines with
  | nil =>
      rw [if_neg (by simp)]
      rfl
  | cons line rest =>
      have longer : ("" ++ "(module").length <
          ("" ++ "(module" ++ String.join ((line :: rest).map Line.render)).length := by
        have positive := line.length_render_pos
        simp only [List.map_cons, String.join_cons, String.length_append]
        omega
      rw [if_pos longer, bind_of_some (newline_apply _ _)]
      refine (write_apply _ _ _).trans ?_
      have unindented : "\n" ++ Line.indentation 0 = "\n" := rfl
      rw [unindented, String.join_cons, String.empty_append]
      rfl

end Printer

end WebAssembly
