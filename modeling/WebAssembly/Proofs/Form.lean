import WebAssembly.Text.Quoted
import Mathlib.Data.List.Basic

/-!
# Reading forms

The text format is made of forms: words, string literals, and lists of forms in
parentheses. A text is read in two steps. A scanner divides it into tokens, and
the tokens are nested by their parentheses.

The scanner is a machine that takes one character after another. Within a
literal only a quotation mark that no backslash precedes ends it, so that
parentheses and spaces in literals count for nothing.

A form is written with single spaces between the items of its lists. What is
written is read back, provided that words are free of delimiters and the
quotation marks in literals are escaped.
-/

namespace WebAssembly

/-- A part of a text. Literals are given by the characters between their
quotation marks. -/
inductive Token
  | opening
  | closing
  | word (text : String)
  | literal (content : List Char)
  deriving DecidableEq

namespace Token

/-- Whether a character ends a word. -/
def isDelimiter (char : Char) : Bool :=
  char == ' ' || char == '\n' || char == '(' || char == ')' || char == '"'

/-- What a scanner is within, with the characters it has met there, last first. -/
inductive Mode
  | between
  | word (reversed : List Char)
  | literal (reversed : List Char)
  /-- Within a literal, behind a backslash. -/
  | escape (reversed : List Char)
  deriving DecidableEq

/-- What a character outside words and literals completes and begins. -/
def begin (char : Char) : List Token × Mode :=
  if char = '(' then ([.opening], .between)
  else if char = ')' then ([.closing], .between)
  else if char = '"' then ([], .literal [])
  else if char = ' ' ∨ char = '\n' then ([], .between)
  else ([], .word [char])

/-- The tokens that a character completes, and what the scanner is within behind
it. -/
def step : Mode → Char → List Token × Mode
  | .between, char => begin char
  | .word reversed, char =>
      if isDelimiter char then
        (.word (String.ofList reversed.reverse) :: (begin char).1, (begin char).2)
      else ([], .word (char :: reversed))
  | .literal reversed, char =>
      if char = '"' then ([.literal reversed.reverse], .between)
      else if char = '\\' then ([], .escape (char :: reversed))
      else ([], .literal (char :: reversed))
  | .escape reversed, char => ([], .literal (char :: reversed))

/-- The tokens that some characters complete, and what the scanner is within
behind them. -/
def run : Mode → List Char → List Token × Mode
  | mode, [] => ([], mode)
  | mode, char :: rest =>
      let (tokens, next) := step mode char
      let (others, last) := run next rest
      (tokens ++ others, last)

/-- The token that the end of the text completes. A literal must not be open. -/
def finish : Mode → Option (List Token)
  | .between => some []
  | .word reversed => some [.word (String.ofList reversed.reverse)]
  | .literal _ => none
  | .escape _ => none

/-- The tokens of a text. -/
def ofText (text : String) : Option (List Token) :=
  (finish (run .between text.toList).2).map ((run .between text.toList).1 ++ ·)

/-- A character is taken in its mode, and the rest in the mode behind it. -/
theorem run_cons (mode : Mode) (char : Char) (rest : List Char) :
    run mode (char :: rest) =
      ((step mode char).1 ++ (run (step mode char).2 rest).1,
        (run (step mode char).2 rest).2) := rfl

/-- Two texts are read one after the other. -/
theorem run_append (mode : Mode) (first second : List Char) :
    run mode (first ++ second) =
      ((run mode first).1 ++ (run (run mode first).2 second).1,
        (run (run mode first).2 second).2) := by
  induction first generalizing mode with
  | nil => rfl
  | cons char rest inductionHypothesis =>
      rw [List.cons_append, run_cons, inductionHypothesis, run_cons, List.append_assoc]

/-- A text begins with a delimiter, unless it is empty. -/
def Delimited (text : String) : Prop :=
  ∀ char, text.toList.head? = some char → isDelimiter char = true

/-- A word that is open in front of a delimited text is completed there. -/
theorem run_of_delimited
    {chars : List Char}
    (delimited : ∀ char, chars.head? = some char → isDelimiter char = true)
    {mode : Mode}
    {last : List Token}
    (finished : finish mode = some last)
    {tokens : List Token}
    (scanned : (finish (run .between chars).2).map ((run .between chars).1 ++ ·) = some tokens) :
    (finish (run mode chars).2).map ((run mode chars).1 ++ ·) = some (last ++ tokens) := by
  cases mode with
  | between =>
      obtain rfl : [] = last := by simpa [finish] using finished
      exact scanned
  | word reversed =>
      obtain rfl : [.word (String.ofList reversed.reverse)] = last := by
        simpa [finish] using finished
      cases chars with
      | nil =>
          obtain rfl : [] = tokens := by simpa [run, finish] using scanned
          simp [run, finish]
      | cons char rest =>
          have stepped : step (.word reversed) char =
              (.word (String.ofList reversed.reverse) :: (begin char).1, (begin char).2) :=
            if_pos (delimited char rfl)
          have same : run (.word reversed) (char :: rest) =
              (.word (String.ofList reversed.reverse) :: (run .between (char :: rest)).1,
                (run .between (char :: rest)).2) := by
            rw [run_cons, stepped]
            rfl
          rw [same]
          obtain ⟨behind, atEnd, rfl⟩ := Option.map_eq_some_iff.mp scanned
          exact Option.map_eq_some_iff.mpr ⟨behind, atEnd, rfl⟩
  | literal reversed => cases finished
  | escape reversed => cases finished

/-- Texts are scanned apart if the second begins with a delimiter. -/
theorem ofText_append
    {first second : String}
    {front back : List Token}
    (firstScanned : ofText first = some front)
    (secondScanned : ofText second = some back)
    (delimited : Delimited second) :
    ofText (first ++ second) = some (front ++ back) := by
  obtain ⟨last, finished, rfl⟩ := Option.map_eq_some_iff.mp firstScanned
  have rest := run_of_delimited delimited finished secondScanned
  obtain ⟨behind, atEnd, same⟩ := Option.map_eq_some_iff.mp rest
  rw [ofText, String.toList_append, run_append]
  refine Option.map_eq_some_iff.mpr ⟨behind, atEnd, ?_⟩
  rw [List.append_assoc, same, List.append_assoc]

/-- A space in front of a text adds no token. -/
theorem ofText_space (text : String) : ofText (" " ++ text) = ofText text := by
  have spaced : (" " ++ text).toList = ' ' :: text.toList := by simp
  rw [ofText, spaced]
  rfl

theorem delimited_append
    {first : String}
    (delimited : Delimited first)
    {second : String}
    (others : Delimited second) :
    Delimited (first ++ second) := by
  intro char head
  rw [String.toList_append, List.head?_append, Option.or_eq_some_iff] at head
  obtain head | ⟨-, head⟩ := head
  · exact delimited char head
  · exact others char head

@[simp] theorem delimited_empty : Delimited "" := by
  intro char head
  cases head

@[simp] theorem delimited_space (text : String) : Delimited (" " ++ text) := by
  intro char head
  obtain rfl : ' ' = char := by simpa using head
  rfl

theorem delimited_join
    {texts : List String}
    (delimited : ∀ text ∈ texts, Delimited text) :
    Delimited (String.join texts) := by
  induction texts with
  | nil => exact delimited_empty
  | cons text rest inductionHypothesis =>
      rw [String.join_cons]
      obtain ⟨first, others⟩ := List.forall_mem_cons.mp delimited
      exact delimited_append first (inductionHypothesis others)

/-! ## Words and literals -/

/-- Some characters form a word. -/
def IsWord (text : String) : Prop :=
  text ≠ "" ∧ ∀ char ∈ text.toList, isDelimiter char = false

/-- Within a word, characters are collected up to a delimiter. -/
theorem run_word
    {chars : List Char}
    (free : ∀ char ∈ chars, isDelimiter char = false)
    (reversed : List Char) :
    run (.word reversed) chars = ([], .word (chars.reverse ++ reversed)) := by
  induction chars generalizing reversed with
  | nil => rfl
  | cons char rest inductionHypothesis =>
      obtain ⟨notEnd, free⟩ := List.forall_mem_cons.mp free
      have stepped : step (.word reversed) char = ([], .word (char :: reversed)) := by
        rw [step, notEnd]
        rfl
      rw [run_cons, stepped, inductionHypothesis free, List.reverse_cons, List.append_assoc]
      rfl

/-- A character that is no delimiter begins a word. -/
theorem begin_of_not_delimiter
    {char : Char}
    (notEnd : isDelimiter char = false) :
    begin char = ([], .word [char]) := by
  simp only [isDelimiter, Bool.or_eq_false_iff, beq_eq_false_iff_ne] at notEnd
  obtain ⟨⟨⟨⟨notSpace, notBreak⟩, notOpening⟩, notClosing⟩, notQuote⟩ := notEnd
  simp [begin, notSpace, notBreak, notOpening, notClosing, notQuote]

/-- A word is one token. -/
theorem ofText_word {text : String} (isWord : IsWord text) : ofText text = some [.word text] := by
  obtain ⟨nonempty, free⟩ := isWord
  have scanned : run .between text.toList = ([], .word text.toList.reverse) := by
    cases chars : text.toList with
    | nil => exact absurd (String.toList_inj.mp chars) nonempty
    | cons char rest =>
        rw [chars] at free
        obtain ⟨notEnd, free⟩ := List.forall_mem_cons.mp free
        rw [run_cons, step, begin_of_not_delimiter notEnd, run_word free, List.reverse_cons]
        rfl
  simp [ofText, scanned, finish]

/-- Within a literal, some characters leave the literal open. -/
def IsLiteral (content : List Char) : Prop :=
  ∀ reversed, run (.literal reversed) content = ([], .literal (content.reverse ++ reversed))

theorem isLiteral_nil : IsLiteral [] := fun _ => rfl

theorem IsLiteral.append
    {first second : List Char}
    (isFirst : IsLiteral first)
    (isSecond : IsLiteral second) :
    IsLiteral (first ++ second) := by
  intro reversed
  rw [run_append, isFirst, isSecond, List.reverse_append, List.append_assoc]
  rfl

/-- A literal may be spelled part by part. -/
theorem isLiteral_flatMap
    {spell : α → List Char}
    (isPart : ∀ item, IsLiteral (spell item))
    (items : List α) :
    IsLiteral (items.flatMap spell) := by
  induction items with
  | nil => exact isLiteral_nil
  | cons item rest inductionHypothesis => exact (isPart item).append inductionHypothesis

/-- A character behind a backslash does not end a literal. -/
theorem isLiteral_escaped (char : Char) : IsLiteral ['\\', char] := fun _ => rfl

/-- A character that is neither a quote nor a backslash stands for itself. -/
theorem isLiteral_singleton
    {char : Char}
    (notQuote : char ≠ '"')
    (notBackslash : char ≠ '\\') :
    IsLiteral [char] := by
  intro reversed
  simp [run, step, notQuote, notBackslash]

/-- A literal in quotes is one token, whatever it holds. -/
theorem ofText_enclose
    {content : List Char}
    (isLiteral : IsLiteral content) :
    ofText (Quoted.enclose content) = some [.literal content] := by
  have scanned : run .between ('"' :: (content ++ ['"'])) = ([.literal content], .between) := by
    have opened : step .between '"' = ([], .literal []) := rfl
    rw [run_cons, opened, run_append, isLiteral []]
    simp [run, step]
  simp [ofText, Quoted.enclose, scanned, finish]

end Token

/-! ## Forms -/

/-- A form of the text format. -/
inductive Form
  | word (text : String)
  | literal (content : List Char)
  | list (items : List Form)

namespace Form

open Token (IsWord IsLiteral Delimited ofText)

/-- Nest tokens by their parentheses, behind the forms read so far, last first, in
the list that is open and in those around it. There must be one form in all. -/
def nest : List Form → List (List Form) → List Token → Option Form
  | [form], [], [] => some form
  | _, _, [] => none
  | current, outer, .opening :: rest => nest [] (current :: outer) rest
  | current, parent :: outer, .closing :: rest => nest (.list current.reverse :: parent) outer rest
  | _, [], .closing :: _ => none
  | current, outer, .word text :: rest => nest (.word text :: current) outer rest
  | current, outer, .literal content :: rest => nest (.literal content :: current) outer rest

/-- The form that a text consists of. -/
def read (text : String) : Option Form :=
  (ofText text).bind (nest [] [])

mutual

/-- The tokens of a form. -/
def tokens : Form → List Token
  | .word text => [.word text]
  | .literal content => [.literal content]
  | .list items => .opening :: (tokensAll items ++ [.closing])

/-- The tokens of some forms. -/
def tokensAll : List Form → List Token
  | [] => []
  | form :: rest => form.tokens ++ tokensAll rest

end

@[simp] theorem tokensAll_append (first second : List Form) :
    tokensAll (first ++ second) = tokensAll first ++ tokensAll second := by
  induction first with
  | nil => rfl
  | cons form rest inductionHypothesis =>
      rw [List.cons_append, tokensAll, tokensAll, inductionHypothesis, List.append_assoc]

mutual

/-- The tokens of a form are nested to this form. -/
theorem nest_tokens
    (form : Form)
    (current : List Form)
    (outer : List (List Form))
    (rest : List Token) :
    nest current outer (form.tokens ++ rest) = nest (form :: current) outer rest := by
  match form with
  | .word text => simp [tokens, nest]
  | .literal content => simp [tokens, nest]
  | .list items =>
      have inner := nest_tokensAll items [] (current :: outer) (.closing :: rest)
      rw [tokens, List.cons_append, nest, List.append_assoc, List.singleton_append, inner, nest,
        List.append_nil, List.reverse_reverse]

/-- The tokens of some forms are nested to these forms. -/
theorem nest_tokensAll
    (forms current : List Form)
    (outer : List (List Form))
    (rest : List Token) :
    nest current outer (tokensAll forms ++ rest) = nest (forms.reverse ++ current) outer rest := by
  match forms with
  | [] => rfl
  | form :: others =>
      rw [tokensAll, List.append_assoc, nest_tokens form, nest_tokensAll others, List.reverse_cons,
        List.append_assoc, List.singleton_append]

end

/-- A text is read as the form that its tokens are those of. -/
theorem read_of_ofText
    {text : String}
    {form : Form}
    (scanned : ofText text = some form.tokens) :
    read text = some form := by
  have nested := nest_tokens form [] [] []
  rw [List.append_nil] at nested
  rw [read, scanned, Option.bind_some, nested, nest]

/-! ## Writing forms -/

mutual

/-- A form with single spaces between the items of its lists. -/
def render : Form → String
  | .word text => text
  | .literal content => Quoted.enclose content
  | .list items => "(" ++ renderAll items ++ ")"

/-- Some forms with single spaces between them. -/
def renderAll : List Form → String
  | [] => ""
  | form :: rest => form.render ++ renderRest rest

/-- Some forms, each behind a space. -/
def renderRest : List Form → String
  | [] => ""
  | form :: rest => " " ++ form.render ++ renderRest rest

end

mutual

/-- The words of a form are words, and its literals close where they should. -/
def Proper : Form → Prop
  | .word text => IsWord text
  | .literal content => IsLiteral content
  | .list items => ProperAll items

/-- Forms are proper. -/
def ProperAll : List Form → Prop
  | [] => True
  | form :: rest => form.Proper ∧ ProperAll rest

end

/-- Forms are proper if each of them is. -/
theorem properAll_iff (forms : List Form) : ProperAll forms ↔ ∀ form ∈ forms, form.Proper := by
  induction forms with
  | nil => simp [ProperAll]
  | cons form rest inductionHypothesis => simp [ProperAll, inductionHypothesis]

theorem proper_word {text : String} (isWord : IsWord text) : (word text).Proper := isWord

/-- A list that begins with a keyword is proper if its other items are. -/
theorem proper_keyword
    {keyword : String}
    (isWord : IsWord keyword)
    {items : List Form}
    (proper : ProperAll items) :
    (list (.word keyword :: items)).Proper :=
  ⟨isWord, proper⟩

/-- Forms that follow another one begin with a space. -/
theorem delimited_renderRest (forms : List Form) : Delimited (renderRest forms) := by
  cases forms with
  | nil => exact Token.delimited_empty
  | cons form rest =>
      rw [renderRest, String.append_assoc]
      exact Token.delimited_space _

theorem delimited_closing : Delimited ")" := by
  intro char head
  obtain rfl : ')' = char := by simpa using head
  rfl

/-- A parenthesis in front of a text is a token of its own. -/
theorem ofText_opened
    {text : String}
    {tokens : List Token}
    (scanned : ofText text = some tokens) :
    ofText ("(" ++ text) = some (.opening :: tokens) := by
  have chars : ("(" ++ text).toList = '(' :: text.toList := by simp
  rw [ofText, chars, Token.run_cons]
  obtain ⟨last, finished, rfl⟩ := Option.map_eq_some_iff.mp scanned
  exact Option.map_eq_some_iff.mpr ⟨last, finished, rfl⟩

/-- Parentheses around a text are tokens of their own. -/
theorem ofText_enclosed
    {text : String}
    {tokens : List Token}
    (scanned : ofText text = some tokens) :
    ofText ("(" ++ text ++ ")") = some (.opening :: (tokens ++ [.closing])) :=
  Token.ofText_append (ofText_opened scanned) rfl delimited_closing

mutual

/-- A proper form is scanned to its tokens. -/
theorem ofText_render
    (form : Form)
    (proper : form.Proper) :
    ofText form.render = some form.tokens := by
  match form with
  | .word text =>
      rw [render, tokens]
      exact Token.ofText_word proper
  | .literal content =>
      rw [render, tokens]
      exact Token.ofText_enclose proper
  | .list items =>
      rw [render, tokens]
      exact ofText_enclosed (ofText_renderAll items proper)

/-- Proper forms are written so that their tokens can be read. -/
theorem ofText_renderAll
    (forms : List Form)
    (proper : ProperAll forms) :
    ofText (renderAll forms) = some (tokensAll forms) := by
  match forms with
  | [] => rfl
  | form :: rest =>
      rw [renderAll, tokensAll]
      exact Token.ofText_append (ofText_render form proper.1) (ofText_renderRest rest proper.2)
        (delimited_renderRest rest)

/-- Proper forms that follow another one are written so that their tokens can be read.
-/
theorem ofText_renderRest
    (forms : List Form)
    (proper : ProperAll forms) :
    ofText (renderRest forms) = some (tokensAll forms) := by
  match forms with
  | [] => rfl
  | form :: rest =>
      rw [renderRest, tokensAll]
      exact Token.ofText_append ((Token.ofText_space _).trans (ofText_render form proper.1))
        (ofText_renderRest rest proper.2) (delimited_renderRest rest)

end

end Form

end WebAssembly
