/-! # Comments

    Before a text is read, its comments are replaced by spaces, so that every position stays
    where it was.  A comment is `// …` or `# …` up to the end of the line, or `/* … */`; a `#`
    counts only when nothing but blanks and comments stand before it on its line.  Inside a
    quoted string nothing is a comment.  A byte order mark at the start is replaced as well. -/

namespace DotLayout.Dot

/-- What the characters at hand belong to.  `fresh` says that only blanks and comments stand
    before them on their line. -/
inductive Region where
  | plain (fresh : Bool)
  | string
  | lineComment
  | blockComment (fresh : Bool)
  deriving Repr, DecidableEq

/-- The replacement of a character of a comment: line breaks stay, and anything else becomes as
    many spaces as it has bytes. -/
def blankOut (c : Char) : List Char :=
  if c = '\n' then ['\n'] else List.replicate c.utf8Size ' '

/-- Whether a line stays fresh after a character that is no comment. -/
def keepsFresh (c : Char) : Bool := c == ' ' || c == '\t' || c == '\r'

/-- Replaces the comments of the rest of a text, given what it starts in. -/
def blankComments : Region → List Char → List Char
  | _, [] => []
  | .string, '\\' :: c :: rest => '\\' :: c :: blankComments .string rest
  | .string, '"' :: rest => '"' :: blankComments (.plain false) rest
  | .string, c :: rest => c :: blankComments .string rest
  | .lineComment, '\n' :: rest => '\n' :: blankComments (.plain true) rest
  | .lineComment, c :: rest => blankOut c ++ blankComments .lineComment rest
  | .blockComment fresh, '*' :: '/' :: rest => ' ' :: ' ' :: blankComments (.plain fresh) rest
  | .blockComment fresh, c :: rest => blankOut c ++ blankComments (.blockComment fresh) rest
  | .plain _, '"' :: rest => '"' :: blankComments .string rest
  | .plain _, '/' :: '/' :: rest => ' ' :: ' ' :: blankComments .lineComment rest
  | .plain true, '#' :: rest => ' ' :: blankComments .lineComment rest
  | .plain fresh, '/' :: '*' :: rest => ' ' :: ' ' :: blankComments (.blockComment fresh) rest
  | .plain _, '\n' :: rest => '\n' :: blankComments (.plain true) rest
  | .plain fresh, c :: rest => c :: blankComments (.plain (fresh && keepsFresh c)) rest

/-- The mark that may stand at the start of a text. -/
def byteOrderMark : Char := '\ufeff'

/-- A text without its comments and byte order mark, every other character in its place. -/
def stripComments : List Char → List Char
  | [] => []
  | c :: rest =>
    if c = byteOrderMark then blankOut c ++ blankComments (.plain true) rest
    else blankComments (.plain true) (c :: rest)

end DotLayout.Dot
