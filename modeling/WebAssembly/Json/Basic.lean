import WebAssembly.Hexadecimal

/-!
# JSON documents

A JSON document with ordered fields and integers as its only numbers, and its
layout over several lines: every item and field stands on a line of its own,
two spaces deeper than the brackets around it.
-/

namespace WebAssembly

/-- A JSON value. -/
inductive Json
  | null
  | number (value : Int)
  | string (text : String)
  | array (items : List Json)
  | object (fields : List (String × Json))

namespace Json

/-- A character within a string. The control characters are escaped, the common
ones by a letter. -/
def stringChar (char : Char) : List Char :=
  match char with
  | '"' => ['\\', '"']
  | '\\' => ['\\', '\\']
  | '\x08' => ['\\', 'b']
  | '\x0c' => ['\\', 'f']
  | '\n' => ['\\', 'n']
  | '\r' => ['\\', 'r']
  | '\t' => ['\\', 't']
  | _ =>
      if char.toNat < 0x20 then ['\\', 'u', '0', '0'] ++ hexDigits char.toNat.toUInt8
      else [char]

/-- A string between quotation marks. -/
def quoted (text : String) : String :=
  String.ofList ('"' :: (text.toList.flatMap stringChar ++ ['"']))

/-- The break in front of a line at some depth. -/
def lineBreak (depth : Nat) : String :=
  String.ofList ('\n' :: List.replicate (2 * depth) ' ')

mutual

/-- Append a value whose first line is at some depth. -/
def write (depth : Nat) : Json → String → String
  | .null, out => out ++ "null"
  | .number value, out => out ++ toString value
  | .string text, out => out ++ quoted text
  | .array [], out => out ++ "[]"
  | .array (item :: rest), out =>
      writeItems (depth + 1) rest
        (write (depth + 1) item (out ++ "[" ++ lineBreak (depth + 1))) ++
        lineBreak depth ++ "]"
  | .object [], out => out ++ "\x7b\x7d"
  | .object (field :: rest), out =>
      writeFields (depth + 1) rest
        (writeField (depth + 1) field (out ++ "\x7b" ++ lineBreak (depth + 1))) ++
        lineBreak depth ++ "\x7d"

/-- Append the items behind the first. -/
def writeItems (depth : Nat) : List Json → String → String
  | [], out => out
  | item :: rest, out =>
      writeItems depth rest (write depth item (out ++ "," ++ lineBreak depth))

/-- Append a field. -/
def writeField (depth : Nat) : String × Json → String → String
  | (key, value), out => write depth value (out ++ quoted key ++ ": ")

/-- Append the fields behind the first. -/
def writeFields (depth : Nat) : List (String × Json) → String → String
  | [], out => out
  | field :: rest, out =>
      writeFields depth rest (writeField depth field (out ++ "," ++ lineBreak depth))

end

/-- The text of a document. -/
def render (document : Json) : String :=
  document.write 0 "" ++ "\n"

end Json

end WebAssembly
