import DotLayout.Text.Blank
import DotLayout.Text.Excerpt
import DotLayout.Text.Quoted
import DotLayout.Text.Word

/-! # The header of a graph

    A graph description starts with `strict`, which is optional, `graph` or `digraph`, a name,
    which is optional as well, and an opening brace.  The body runs from there to the last closing
    brace of the text, or to its end when there is none.  `readHeader` reads all of that from a
    text without comments. -/

namespace DotLayout.Dot

open Text

/-- What the header of a graph says, and where the body is. -/
structure Header where
  strict : Bool
  directed : Bool
  name : Option String
  /-- The header itself, with its opening brace. -/
  opening : Excerpt
  /-- What stands between the braces. -/
  body : Excerpt
  /-- Whether the body has a closing brace. -/
  closed : Bool
  deriving Repr, DecidableEq

/-- The small letter that a letter counts as in a keyword; the long s counts as an s. -/
def foldCase (c : Char) : Char := if c = 'ſ' then 's' else c.toLower

/-- What follows a keyword at the start of a text, in any case of letters. -/
def afterKeyword? : List Char → List Char → Option (List Char)
  | [], text => some text
  | _ :: _, [] => none
  | k :: keyword, c :: text => if foldCase c = k then afterKeyword? keyword text else none

/-- Whether a text goes on with a character of a word. -/
def startsWord : List Char → Bool
  | [] => false
  | c :: _ => isWordChar c

/-- A text from its first character that is not blank. -/
def skipBlanks (text : List Char) : List Char := text.dropWhile isBlank

/-- What follows the opening brace that a text goes on with after blanks. -/
def afterBrace? (text : List Char) : Option (List Char) :=
  match skipBlanks text with
  | '\x7b' :: rest => some rest
  | _ => none

/-- Skips the word `strict` and the blanks after it, and says whether it was there. -/
def skipStrict (text : List Char) : Bool × List Char :=
  match afterKeyword? "strict".toList text with
  | some (c :: rest) => if isBlank c then (true, skipBlanks rest) else (false, text)
  | _ => (false, text)

/-- Reads the whole word `digraph` or `graph`, and says whether the graph is directed. -/
def readKind? (text : List Char) : Option (Bool × List Char) :=
  let found := match afterKeyword? "digraph".toList text with
    | some rest => some (true, rest)
    | none => (afterKeyword? "graph".toList text).map fun rest => (false, rest)
  found.filter fun (_, rest) => !startsWord rest

/-- The name that the written form of a name stands for: quotes around it are taken off. -/
def nameOf (written : List Char) : String :=
  if written.head? = some '"' then
    String.ofList (unescape (trimWhere (· == '"') written))
  else
    String.ofList written

/-- A name in quotes, and what follows the opening brace after it. -/
def readQuotedName? : List Char → Option (List Char × List Char)
  | '"' :: rest => do
    let (content, after) ← readQuotedLine rest
    let body ← afterBrace? after
    return ('"' :: content ++ ['"'], body)
  | _ => none

/-- A name up to the next blank or brace, and what follows the opening brace after it. -/
def readBareName? (text : List Char) : Option (List Char × List Char) := do
  let inName (c : Char) : Bool := !isBlank c && c != '\x7b'
  let written := text.takeWhile inName
  if written.isEmpty then none
  let body ← afterBrace? (text.dropWhile inName)
  return (written, body)

/-- The name of a graph, if it has one, and what follows the opening brace. -/
def readName? (text : List Char) : Option (Option String × List Char) :=
  match (readQuotedName? text).or (readBareName? text) with
  | some (written, body) => some (some (nameOf written), body)
  | none => (afterBrace? text).map fun body => (none, body)

/-- What stands before the last closing brace of a text. -/
def beforeLastBrace? : List Char → Option (List Char)
  | [] => none
  | c :: rest =>
    match beforeLastBrace? rest with
    | some before => some (c :: before)
    | none => if c = '\x7d' then some [] else none

/-- Reads the header at the start of a text without comments. -/
def readHeader? (text : List Char) : Option Header := do
  let (strict, afterStrict) := skipStrict (skipBlanks text)
  let (directed, afterKind) ← readKind? afterStrict
  let (name, rest) ← readName? (skipBlanks afterKind)
  let opening : Excerpt := ⟨0, text.take (text.length - rest.length)⟩
  let inside := beforeLastBrace? rest
  return {
    strict := strict
    directed := directed
    name := name
    opening := opening
    body := ⟨opening.stop, inside.getD rest⟩
    closed := inside.isSome }

/-- Whether the whole word `digraph` stands somewhere in a text, given whether a word character
    stands before it. -/
def mentionsDigraph (insideWord : Bool) : List Char → Bool
  | [] => false
  | c :: rest =>
    let here := match afterKeyword? "digraph".toList (c :: rest) with
      | some after => !insideWord && !startsWord after
      | none => false
    here || mentionsDigraph (isWordChar c) rest

end DotLayout.Dot
