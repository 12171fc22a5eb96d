/-! # Quoted strings

    A quoted string runs to the next quote that no backslash protects; a backslash protects the
    one character after it.

    * `readQuoted` finds the end of a string whose opening quote has been read;
    * `readQuotedLine` does the same where a protected line break is not allowed;
    * `unescape` gives the text a string stands for: a protected quote is a quote, a protected
      line break disappears, and every other backslash stays. -/

namespace DotLayout.Text

/-- A cut of a text into two parts, with more text in front of the first one. -/
def inFront (before : List Char) (cut : List Char × List Char) : List Char × List Char :=
  (before ++ cut.1, cut.2)

@[simp] theorem inFront_fst (before : List Char) (cut : List Char × List Char) :
    (inFront before cut).1 = before ++ cut.1 := rfl

@[simp] theorem inFront_snd (before : List Char) (cut : List Char × List Char) :
    (inFront before cut).2 = cut.2 := rfl

/-- Splits the text after an opening quote into the content of the string and what follows its
    closing quote; there is no answer when the string is never closed. -/
def readQuoted : List Char → Option (List Char × List Char)
  | [] => none
  | '"' :: rest => some ([], rest)
  | ['\\'] => none
  | '\\' :: c :: rest => (readQuoted rest).map (inFront ['\\', c])
  | c :: rest => (readQuoted rest).map (inFront [c])

/-- A string that closes is its content, the quote and what follows. -/
theorem eq_of_readQuoted {text content after : List Char}
    (h : readQuoted text = some (content, after)) : text = content ++ '"' :: after := by
  fun_induction readQuoted text generalizing content with
  | case1 => simp at h
  | case2 => simp_all
  | case3 => simp at h
  | case4 c rest ih =>
    obtain ⟨⟨inner, after'⟩, hr, he⟩ := Option.map_eq_some_iff.1 h
    obtain ⟨rfl, rfl⟩ := Prod.mk.inj he
    simp [ih hr]
  | case5 c rest _ _ _ ih =>
    obtain ⟨⟨inner, after'⟩, hr, he⟩ := Option.map_eq_some_iff.1 h
    obtain ⟨rfl, rfl⟩ := Prod.mk.inj he
    simp [ih hr]

/-- What follows a closed string is shorter than the text that holds it. -/
theorem length_lt_of_readQuoted {text content after : List Char}
    (h : readQuoted text = some (content, after)) : after.length < text.length := by
  rw [eq_of_readQuoted h]
  simp
  omega

/-- Whether a backslash protects a line break somewhere in the content of a string. -/
def continuesLine : List Char → Bool
  | '\\' :: '\n' :: _ => true
  | '\\' :: _ :: rest => continuesLine rest
  | _ :: rest => continuesLine rest
  | [] => false

/-- Reads a quoted string like `readQuoted`, but refuses one with a protected line break. -/
def readQuotedLine (text : List Char) : Option (List Char × List Char) :=
  (readQuoted text).filter fun (content, _) => !continuesLine content

/-- The text that the content of a quoted string stands for. -/
def unescape : List Char → List Char
  | [] => []
  | '\\' :: '"' :: rest => '"' :: unescape rest
  | '\\' :: '\n' :: rest => unescape rest
  | '\\' :: '\r' :: '\n' :: rest => unescape rest
  | '\\' :: '\r' :: rest => unescape rest
  | c :: rest => c :: unescape rest

end DotLayout.Text
