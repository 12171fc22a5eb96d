import DotLayout.Dot.Bracket
import DotLayout.Text.Blank
import DotLayout.Text.Excerpt

/-! # Tokens

    A chunk is read as words, edge operators, attribute lists and `=` signs, separated by blanks
    and commas.  Every token keeps the excerpt that it was read from.

    * A word is a quoted string, or a run of letters, digits, `_`, `.` and characters beyond
      ASCII, which a minus sign may open before a digit or a point.  Ports after a word, `:port`
      or `:"port"`, belong to its excerpt but not to its text.
    * A string without its closing quote takes the rest of the chunk, and any other character is
      a token of its own. -/

namespace DotLayout.Dot

open Text

/-- The operator between the two ends of an edge. -/
inductive EdgeOp where
  | directed
  | undirected
  deriving Repr, DecidableEq

def EdgeOp.text : EdgeOp → String
  | .directed => "->"
  | .undirected => "--"

/-- The operator that belongs to a kind of graph. -/
def EdgeOp.ofGraph (directed : Bool) : EdgeOp := if directed then .directed else .undirected

/-- An id, key or value. -/
structure Word where
  text : String
  quoted : Bool
  place : Excerpt
  deriving Repr, DecidableEq

/-- An edge operator where it stands. -/
structure Link where
  op : EdgeOp
  place : Excerpt
  deriving Repr, DecidableEq

/-- An attribute list; its content excludes the brackets. -/
structure Bracket where
  content : Excerpt
  closed : Bool
  place : Excerpt
  deriving Repr, DecidableEq

/-- The smallest pieces of a statement. -/
inductive Token where
  | word (w : Word)
  | link (l : Link)
  | bracket (b : Bracket)
  | equals (place : Excerpt)
  /-- A string without its closing quote. -/
  | openString (place : Excerpt)
  | stray (place : Excerpt)
  deriving Repr, DecidableEq

/-- Where a token was read from. -/
def Token.place : Token → Excerpt
  | .word w => w.place
  | .link l => l.place
  | .bracket b => b.place
  | .equals place | .openString place | .stray place => place

/-- Whether a character may stand in a word without quotes. -/
def isIdentChar (c : Char) : Bool := c.isAlphanum || c == '_' || c == '.' || 0x80 ≤ c.toNat

/-- Splits a text into the ports that it starts with and what follows them. -/
def readPorts : List Char → List Char × List Char
  | ':' :: '"' :: rest =>
    match _h : readQuoted rest with
    | some (content, after) => inFront (':' :: '"' :: content ++ ['"']) (readPorts after)
    | none => ([], ':' :: '"' :: rest)
  | ':' :: c :: rest =>
    if isIdentChar c then
      inFront (':' :: c :: rest.takeWhile isIdentChar) (readPorts (rest.dropWhile isIdentChar))
    else ([], ':' :: c :: rest)
  | text => ([], text)
  termination_by text => text.length
  decreasing_by
    · have := length_lt_of_readQuoted _h
      simp
      omega
    · have := (List.dropWhile_sublist isIdentChar (l := rest)).length_le
      simp
      omega

/-- The ports and what follows them are the whole text. -/
theorem readPorts_append (text : List Char) : (readPorts text).1 ++ (readPorts text).2 = text := by
  fun_induction readPorts text with
  | case1 rest content after h ih => simp [ih, eq_of_readQuoted h]
  | case2 => simp
  | case3 c rest _ _ ih => simp [ih]
  | case4 => simp
  | case5 => simp

/-- Whether a word may start with a minus sign before the given text. -/
def startsNumber : List Char → Bool
  | c :: _ => c.isDigit || c == '.'
  | [] => false

/-- Reads the word without quotes that starts with `c` at a position, and what follows it. -/
def readBareWord (start : Nat) (c : Char) (rest : List Char) : Token × List Char :=
  let name := c :: rest.takeWhile isIdentChar
  let (ports, after) := readPorts (rest.dropWhile isIdentChar)
  (.word ⟨String.ofList name, false, ⟨start, name ++ ports⟩⟩, after)

/-- Reads the string whose opening quote is at a position, and what follows it. -/
def readQuotedWord (start : Nat) (rest : List Char) : Token × List Char :=
  match readQuoted rest with
  | some (content, behind) =>
    let (ports, after) := readPorts behind
    let place : Excerpt := ⟨start, '"' :: content ++ '"' :: ports⟩
    (.word ⟨String.ofList (unescape content), true, place⟩, after)
  | none => (.openString ⟨start, '"' :: rest⟩, [])

/-- Reads the list whose opening bracket is at a position, and what follows it. -/
def readList (start : Nat) (rest : List Char) : Token × List Char :=
  let list := readBracket rest
  let place : Excerpt := ⟨start, '[' :: list.content ++ list.closing⟩
  (.bracket ⟨⟨start + 1, list.content⟩, list.closed, place⟩, list.rest)

/-- Reads the token that starts with `c` at a position, and what follows it. -/
def readToken (start : Nat) (c : Char) (rest : List Char) : Token × List Char :=
  if c = '-' ∧ rest.head? = some '>' then (.link ⟨.directed, ⟨start, [c, '>']⟩⟩, rest.tail)
  else if c = '-' ∧ rest.head? = some '-' then (.link ⟨.undirected, ⟨start, [c, '-']⟩⟩, rest.tail)
  else if c = '=' then (.equals ⟨start, [c]⟩, rest)
  else if c = '[' then readList start rest
  else if c = '"' then readQuotedWord start rest
  else if isIdentChar c || (c == '-' && startsNumber rest) then readBareWord start c rest
  else (.stray ⟨start, [c]⟩, rest)

/-- A token and what follows it are the whole text. -/
theorem place_readToken_append (start : Nat) (c : Char) (rest : List Char) :
    (readToken start c rest).1.place.chars ++ (readToken start c rest).2 = c :: rest := by
  unfold readToken
  split
  · rename_i h
    obtain ⟨tail, rfl⟩ := List.head?_eq_some_iff.1 h.2
    rfl
  split
  · rename_i h
    obtain ⟨tail, rfl⟩ := List.head?_eq_some_iff.1 h.2
    rfl
  split
  · rfl
  split
  · rename_i h
    simp [readList, Token.place, h, readBracket_append]
  split
  · rename_i h
    unfold readQuotedWord
    split
    · rename_i content behind hq
      simp [Token.place, h, eq_of_readQuoted hq, readPorts_append]
    · simp [Token.place, h]
  split
  · simp [readBareWord, Token.place, readPorts_append]
  · rfl

theorem place_readToken_ne_nil (start : Nat) (c : Char) (rest : List Char) :
    (readToken start c rest).1.place.chars ≠ [] := by
  unfold readToken
  iterate 3
    split
    · simp [Token.place]
  split
  · simp [readList, Token.place]
  split
  · unfold readQuotedWord
    split <;> simp [Token.place]
  split
  · simp [readBareWord, Token.place]
  · simp [Token.place]

theorem length_snd_readToken (start : Nat) (c : Char) (rest : List Char) :
    (readToken start c rest).2.length ≤ rest.length := by
  have lengths := congrArg List.length (place_readToken_append start c rest)
  have positive := List.length_pos_iff.2 (place_readToken_ne_nil start c rest)
  simp only [List.length_append, List.length_cons] at lengths
  omega

/-- The tokens of a text that starts at a position. -/
def tokensFrom (start : Nat) : List Char → List Token
  | [] => []
  | c :: rest =>
    if isAsciiBlank c || c == ',' then tokensFrom (start + c.utf8Size) rest
    else
      (readToken start c rest).1
        :: tokensFrom (readToken start c rest).1.place.stop (readToken start c rest).2
  termination_by text => text.length
  decreasing_by
    · simp
    · have := length_snd_readToken start c rest
      simp
      omega

def tokens (chunk : Excerpt) : List Token := tokensFrom chunk.start chunk.chars

end DotLayout.Dot
