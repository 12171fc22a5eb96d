import DotLayout.Text.Quoted

/-! # Bracketed lists

    An attribute list stands between brackets.  It is closed by the first `]` outside quotes,
    unless a brace or another `[` comes before it; then it is never closed and ends there. -/

namespace DotLayout.Dot

open Text

/-- The text after an opening bracket, cut where the list ends.  `rest` follows the closing
    bracket if there is one, and starts with the character that ended the list if not. -/
structure BracketText where
  content : List Char
  closed : Bool
  rest : List Char
  deriving Repr, DecidableEq

/-- The closing bracket, if there is one. -/
def BracketText.closing (b : BracketText) : List Char := if b.closed then [']'] else []

/-- The same list with more text in front. -/
def BracketText.after (before : List Char) (b : BracketText) : BracketText :=
  { b with content := before ++ b.content }

@[simp] theorem BracketText.content_after (before : List Char) (b : BracketText) :
    (b.after before).content = before ++ b.content := rfl

@[simp] theorem BracketText.closing_after (before : List Char) (b : BracketText) :
    (b.after before).closing = b.closing := rfl

@[simp] theorem BracketText.rest_after (before : List Char) (b : BracketText) :
    (b.after before).rest = b.rest := rfl

/-- Whether a character ends a list without closing it. -/
def endsList (c : Char) : Bool := c == '[' || c == '\x7b' || c == '\x7d'

/-- Cuts the text after an opening bracket where the list ends. -/
def readBracket : List Char → BracketText
  | [] => ⟨[], false, []⟩
  | c :: rest =>
    if c = ']' then ⟨[], true, rest⟩
    else if endsList c then ⟨[], false, c :: rest⟩
    else if c = '"' then
      match _h : readQuoted rest with
      | some (content, after) => (readBracket after).after ('"' :: content ++ ['"'])
      | none => ⟨'"' :: rest, false, []⟩
    else (readBracket rest).after [c]
  termination_by text => text.length
  decreasing_by
    · have := length_lt_of_readQuoted _h
      simp
      omega
    · simp

/-- The content of a list, its closing bracket and what follows are the whole text. -/
theorem readBracket_append (text : List Char) :
    (readBracket text).content ++ ((readBracket text).closing ++ (readBracket text).rest)
      = text := by
  fun_induction readBracket text with
  | case1 => rfl
  | case2 => rfl
  | case3 => rfl
  | case4 rest content after h _ _ ih => simp [ih, eq_of_readQuoted h]
  | case5 => simp [BracketText.closing]
  | case6 c rest _ _ _ ih => simp [ih]

/-- What follows a list is no longer than the text that holds it. -/
theorem length_rest_readBracket (text : List Char) :
    (readBracket text).rest.length ≤ text.length := by
  have lengths := congrArg List.length (readBracket_append text)
  simp only [List.length_append] at lengths
  omega

end DotLayout.Dot
