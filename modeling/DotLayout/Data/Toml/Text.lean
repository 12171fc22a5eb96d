import DotLayout.Text.Quoted

/-! # Blanks, strings and keys of settings files

    A `Reader` takes something from the front of a text.

    * `endLine?` and `skipLines` pass over spaces, comments and line breaks;
    * `readString` takes a string on one line, and `readText` one that may have several: between
      double quotes a backslash protects what follows it, between single quotes nothing does;
    * `readKey` takes a key, whose parts between dots are bare or strings. -/

namespace DotLayout.Data.Toml

open DotLayout.Text

/-- Takes something from the front of a text, and gives what follows it. -/
abbrev Reader (α : Type) := List Char → Option (α × List Char)

def isSpace (c : Char) : Bool := c == ' ' || c == '\t'

/-- A text from its first character that is neither a space nor a tab. -/
def skipSpaces (text : List Char) : List Char := text.dropWhile isSpace

/-- Whether a character may stand in a comment or in a string on one line. -/
def isPrintable (c : Char) : Bool := c == '\t' || (0x20 ≤ c.toNat && c.toNat ≠ 0x7f)

/-- A text without the comment in front of it. -/
def skipComment : List Char → List Char
  | '#' :: rest => rest.dropWhile isPrintable
  | text => text

/-- A text without the line break in front of it, if there is one. -/
def afterBreak? : List Char → Option (List Char)
  | '\n' :: rest => some rest
  | '\r' :: '\n' :: rest => some rest
  | _ => none

/-- What follows a line of which only spaces and a comment are left. -/
def endLine? (text : List Char) : Option (List Char) :=
  match skipComment (skipSpaces text) with
  | [] => some []
  | text => afterBreak? text

/-- A text from its first character that is neither blank nor in a comment, after at most so many
    line breaks. -/
def skipLines : Nat → List Char → List Char
  | 0, text => skipSpaces text
  | breaks + 1, text =>
    match afterBreak? (skipComment (skipSpaces text)) with
    | some rest => skipLines breaks rest
    | none => skipComment (skipSpaces text)

def hexValue? (c : Char) : Option Nat :=
  if c.isDigit then some (c.toNat - '0'.toNat)
  else if 'a' ≤ c ∧ c ≤ 'f' then some (c.toNat - 'a'.toNat + 10)
  else if 'A' ≤ c ∧ c ≤ 'F' then some (c.toNat - 'A'.toNat + 10)
  else none

/-- The character with a hexadecimal number. -/
def hexChar? (digits : List Char) : Option Char := do
  let values ← digits.mapM hexValue?
  let n := values.foldl (fun n d => 16 * n + d) 0
  if h : n.isValidChar then return Char.ofNatAux n h else none

/-- The character that a letter or a mark stands for after a backslash. -/
def shortEscape? (c : Char) : Option Char :=
  ("btnfre\"\\".toList.zip "\x08\t\n\x0c\r\x1b\"\\".toList).lookup c

/-- The text that the content of a string in double quotes stands for.  Only a string of several
    lines may hold line breaks; where a backslash ends a line in it, `joining` drops all blanks up
    to the next word. -/
def unescape? (multiline : Bool) : Bool → List Char → Option (List Char)
  | _, [] => some []
  | _, '\\' :: 'x' :: a :: b :: rest => do
    return (← hexChar? [a, b]) :: (← unescape? multiline false rest)
  | _, '\\' :: 'u' :: a :: b :: c :: d :: rest => do
    return (← hexChar? [a, b, c, d]) :: (← unescape? multiline false rest)
  | _, '\\' :: 'U' :: a :: b :: c :: d :: e :: f :: g :: h :: rest => do
    return (← hexChar? [a, b, c, d, e, f, g, h]) :: (← unescape? multiline false rest)
  | _, '\\' :: c :: rest =>
    match shortEscape? c with
    | some plain => (unescape? multiline false rest).map (plain :: ·)
    | none =>
      if multiline ∧ (afterBreak? (skipSpaces (c :: rest))).isSome then
        unescape? multiline true rest
      else none
  | joining, '\r' :: '\n' :: rest =>
    if joining then unescape? multiline true rest
    else if multiline then (unescape? multiline false rest).map ('\r' :: '\n' :: ·)
    else none
  | joining, c :: rest =>
    if joining ∧ (isSpace c ∨ c = '\n') then unescape? multiline true rest
    else if isPrintable c ∨ (multiline ∧ c = '\n') then
      (unescape? multiline false rest).map (c :: ·)
    else none

/-- The text that the content of a string in single quotes stands for: the content itself. -/
def literal? (multiline : Bool) : List Char → Option (List Char)
  | [] => some []
  | '\r' :: '\n' :: rest =>
    if multiline then (literal? multiline rest).map ('\r' :: '\n' :: ·) else none
  | c :: rest =>
    if isPrintable c ∨ (multiline ∧ c = '\n') then (literal? multiline rest).map (c :: ·)
    else none

/-- The content of a string of several lines up to its three closing quotes, and what follows
    them.  Up to two more quotes in front of those belong to the content. -/
def readTriple (quote : Char) : Reader (List Char)
  | a :: b :: c :: rest =>
    if a = quote ∧ b = quote ∧ c = quote then
      match rest with
      | d :: e :: after =>
        if d = quote ∧ e = quote then some ([quote, quote], after)
        else if d = quote then some ([quote], e :: after)
        else some ([], d :: e :: after)
      | [d] => if d = quote then some ([quote], []) else some ([], [d])
      | [] => some ([], [])
    else if a = '\\' ∧ quote = '"' then (readTriple quote (c :: rest)).map (inFront [a, b])
    else (readTriple quote (b :: c :: rest)).map (inFront [a])
  | _ => none

def readString : Reader String
  | '"' :: rest => do
    let (content, after) ← readQuoted rest
    return (String.ofList (← unescape? false false content), after)
  | '\'' :: rest =>
    match rest.dropWhile (· ≠ '\'') with
    | _ :: after => do
      return (String.ofList (← literal? false (rest.takeWhile (· ≠ '\''))), after)
    | [] => none
  | _ => none

/-- A string; one in triple quotes may have several lines, and a line break right after its
    opening quotes is not a part of it. -/
def readText : Reader String
  | '"' :: '"' :: '"' :: rest => do
    let (content, after) ← readTriple '"' ((afterBreak? rest).getD rest)
    return (String.ofList (← unescape? true false content), after)
  | '\'' :: '\'' :: '\'' :: rest => do
    let (content, after) ← readTriple '\'' ((afterBreak? rest).getD rest)
    return (String.ofList (← literal? true content), after)
  | text => readString text

/-- Whether a character may stand in a bare key. -/
def isKeyChar (c : Char) : Bool := c.isAlphanum || c == '_' || c == '-'

def readSimpleKey (text : List Char) : Option (String × List Char) :=
  match readString text with
  | some cut => some cut
  | none =>
    let key := text.takeWhile isKeyChar
    if key.isEmpty then none else some (String.ofList key, text.dropWhile isKeyChar)

/-- A key with at most so many parts between dots, and what follows it. -/
def readParts : Nat → Reader (List String)
  | 0, _ => none
  | parts + 1, text => do
    let (key, after) ← readSimpleKey (skipSpaces text)
    match skipSpaces after with
    | '.' :: rest =>
      let (path, after) ← readParts parts rest
      return (key :: path, after)
    | rest => return ([key], rest)

def maxParts : Nat := 80

/-- A key, and what follows it and the spaces behind it. -/
def readKey : Reader (List String) := readParts maxParts

end DotLayout.Data.Toml
