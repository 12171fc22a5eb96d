import DotLayout.Data.Toml.Moment
import DotLayout.Data.Toml.Tree

/-! # Entries of settings files

    An entry is a header `[a.b]` or `[[a.b]]`, or an assignment `key = value`.  A value is a
    string, a number, a truth value, a moment, a list `[1, 2]` or a table `{a = 1, b = 2}`; lists
    and tables may go over several lines, hold comments, and end with a comma. -/

namespace DotLayout.Data.Toml

/-- What an entry says. -/
inductive Entry where
  | table (path : List String)
  /-- One of the tables under a path. -/
  | item (path : List String)
  | value (path : List String) (v : Value)

/-- Whether a character belongs to a number, a truth value or a moment without spaces. -/
def isAtomChar (c : Char) : Bool :=
  !(isSpace c || c == '\r' || c == '\n' || c == '#' || c == ',' || c == ']' || c == '\x7d')

def atom? : List Char → Option Value
  | ['t', 'r', 'u', 'e'] => some (.boolean true)
  | ['f', 'a', 'l', 's', 'e'] => some (.boolean false)
  | text => (number? text).or (moment? text)

/-- How many characters of a text belong to a number, a truth value or a moment; a space may
    stand between a date and a time. -/
def atomLength (text : List Char) : Nat :=
  let word := text.takeWhile isAtomChar
  match readDate word, text.drop word.length with
  | some (_, []), ' ' :: c :: rest =>
    if c.isDigit then word.length + 2 + (rest.takeWhile isAtomChar).length else word.length
  | _, _ => word.length

def readPlain (text : List Char) : Option (Value × List Char) :=
  match readText text with
  | some (content, after) => some (.text content, after)
  | none => (atom? (text.take (atomLength text))).map (·, text.drop (atomLength text))

/-- The items of a list after its opening bracket, with their reader.  There are at most `count`
    characters to read. -/
def readItems (readItem : Reader Value) : Nat → Reader (List Value)
  | 0, _ => none
  | count + 1, text =>
    match skipLines count text with
    | ']' :: after => some ([], after)
    | text => do
      let (item, after) ← readItem text
      match skipLines count after with
      | ',' :: rest =>
        let (items, after) ← readItems readItem count rest
        return (item :: items, after)
      | ']' :: after => return ([item], after)
      | _ => none

/-- A key and what is assigned to it, with the reader of the latter.  What `skip` passes over may
    stand around the sign between them. -/
def readAssignment (skip : List Char → List Char) (readItem : Reader Value) :
    Reader (List String × Value) := fun text => do
  let (path, after) ← readKey text
  match skip after with
  | '=' :: rest =>
    let (v, after) ← readItem (skip rest)
    return ((path, v), after)
  | _ => none

/-- The fields of a table after its opening brace, added to `fields`.  There are at most `count`
    characters to read.  Inside of braces a line may also end next to an equals sign. -/
def readFields (readItem : Reader Value) : Nat → Fields → Reader Fields
  | 0, _, _ => none
  | count + 1, fields, text =>
    match skipLines count text with
    | '\x7d' :: after => some (fields, after)
    | text => do
      let ((path, v), after) ← readAssignment (skipLines count) readItem text
      let fields ← addValue? path v fields
      match skipLines count after with
      | ',' :: rest => readFields readItem count fields rest
      | '\x7d' :: after => return (fields, after)
      | _ => none

/-- A value in which lists and tables are nested at most so deep. -/
def readNested : Nat → Reader Value
  | depth + 1, '[' :: rest => do
    let (items, after) ← readItems (readNested depth) (rest.length + 1) rest
    return (.list items, after)
  | depth + 1, '\x7b' :: rest => do
    let (fields, after) ← readFields (readNested depth) (rest.length + 1) [] rest
    return (.table (values fields), after)
  | _, text => readPlain text

/-- How deep lists and tables may be nested. -/
def maxDepth : Nat := 80

def readValue : Reader Value := readNested maxDepth

/-- An entry from its first character on. -/
def readEntry : Reader Entry
  | '[' :: '[' :: rest => do
    let (path, after) ← readKey rest
    match after with
    | ']' :: ']' :: after => return (.item path, after)
    | _ => none
  | '[' :: rest => do
    let (path, after) ← readKey rest
    match after with
    | ']' :: after => return (.table path, after)
    | _ => none
  | text => do
    let ((path, v), after) ← readAssignment skipSpaces readValue text
    return (.value path v, after)

end DotLayout.Data.Toml
