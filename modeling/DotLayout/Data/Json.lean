import DotLayout.Numeric.Decimal

/-! # JSON texts

    A `Json` is a value to be written.  `compact` writes it without any blanks; `pretty` puts each
    item on a line of its own, indented by two spaces for each level, and ends without a line
    break.  Fields keep the order in which they are given. -/

namespace DotLayout.Data

open Numeric

/-- A value to be written as JSON. -/
inductive Json where
  | null
  | string (s : String)
  | boolean (b : Bool)
  | number (x : Float32)
  | array (items : List Json)
  | object (fields : List (String × Json))

namespace Json

/-- A digit to the base of sixteen. -/
def hexDigit (n : Nat) : Char := "0123456789abcdef".toList.getD n '0'

/-- A character as it stands in a JSON string. -/
def escapeChar (c : Char) : List Char :=
  match c with
  | '"' => ['\\', '"']
  | '\\' => ['\\', '\\']
  | '\n' => ['\\', 'n']
  | '\r' => ['\\', 'r']
  | '\t' => ['\\', 't']
  | '\x08' => ['\\', 'b']
  | '\x0c' => ['\\', 'f']
  | _ =>
    if c.toNat < 0x20 then ['\\', 'u', '0', '0', hexDigit (c.toNat / 16), hexDigit (c.toNat % 16)]
    else [c]

/-- A text in quotes. -/
def quote (s : String) : String :=
  "\"" ++ String.ofList (s.toList.flatMap escapeChar) ++ "\""

/-- The text of a value that holds no other values. -/
def atom : Json → String
  | .null => "null"
  | .string s => quote s
  | .boolean b => if b then "true" else "false"
  | .number x => NumberStyle.json.render x
  | .array _ => "[]"
  | .object _ => "\x7b\x7d"

mutual

/-- A value on one line. -/
def compact : Json → String
  | .array items => "[" ++ compactItems items ++ "]"
  | .object fields => "\x7b" ++ compactFields fields ++ "\x7d"
  | value => value.atom

/-- Items without blanks, separated by commas. -/
def compactItems : List Json → String
  | [] => ""
  | [item] => compact item
  | item :: rest => compact item ++ "," ++ compactItems rest

/-- Fields without blanks, separated by commas. -/
def compactFields : List (String × Json) → String
  | [] => ""
  | [(key, value)] => quote key ++ ":" ++ compact value
  | (key, value) :: rest => quote key ++ ":" ++ compact value ++ "," ++ compactFields rest

end

/-- A line break, and two spaces for each level. -/
def newLine (level : Nat) : String := "\n" ++ String.ofList (List.replicate (2 * level) ' ')

mutual

/-- The text of a value at a level, with items on lines of their own. -/
def prettyAt (level : Nat) : Json → String
  | .array (item :: rest) =>
    "[" ++ newLine (level + 1) ++ prettyAt (level + 1) item ++ prettyItems (level + 1) rest
      ++ newLine level ++ "]"
  | .object ((key, value) :: rest) =>
    "\x7b" ++ newLine (level + 1) ++ quote key ++ ": " ++ prettyAt (level + 1) value
      ++ prettyFields (level + 1) rest ++ newLine level ++ "\x7d"
  | value => value.atom

/-- The items of a list behind the first one, each on a line of its own. -/
def prettyItems (level : Nat) : List Json → String
  | [] => ""
  | item :: rest => "," ++ newLine level ++ prettyAt level item ++ prettyItems level rest

/-- Further fields on lines of their own. -/
def prettyFields (level : Nat) : List (String × Json) → String
  | [] => ""
  | (key, value) :: rest =>
    "," ++ newLine level ++ quote key ++ ": " ++ prettyAt level value ++ prettyFields level rest

end

/-- The text of a value, with items on lines of their own. -/
def pretty (value : Json) : String := prettyAt 0 value

/-- A text, or null. -/
def ofOption (s : Option String) : Json := (s.map Json.string).getD .null

end Json

end DotLayout.Data
