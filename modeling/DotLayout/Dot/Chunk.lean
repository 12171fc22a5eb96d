import DotLayout.Dot.Bracket
import DotLayout.Text.Blank
import DotLayout.Text.Excerpt

/-! # Chunks

    The body of a graph is cut into chunks at `;`, line breaks and braces, wherever these stand
    outside quoted strings and closed lists.  Statements never cross from one chunk into the
    next, and chunks without any text are dropped. -/

namespace DotLayout.Dot

open Text

/-- Whether a character outside of strings and lists ends a chunk. -/
def endsChunk (c : Char) : Bool := c == ';' || c == '\n' || c == '\x7b' || c == '\x7d'

/-- Splits a text into its first chunk and the rest, which is empty or starts with the character
    that ends the chunk. -/
def readChunk : List Char → List Char × List Char
  | [] => ([], [])
  | c :: rest =>
    if endsChunk c then ([], c :: rest)
    else if c = '"' then
      match _h : readQuoted rest with
      | some (content, after) => inFront ('"' :: content ++ ['"']) (readChunk after)
      | none => ('"' :: rest, [])
    else if c = '[' ∧ (readBracket rest).closed then
      inFront ('[' :: (readBracket rest).content ++ [']']) (readChunk (readBracket rest).rest)
    else
      inFront [c] (readChunk rest)
  termination_by text => text.length
  decreasing_by
    · have := length_lt_of_readQuoted _h
      simp
      omega
    · have := length_rest_readBracket rest
      simp
      omega
    · simp

/-! What each kind of character does to a chunk. -/

theorem readChunk_delimiter {c : Char} (h : endsChunk c = true) (rest : List Char) :
    readChunk (c :: rest) = ([], c :: rest) := by
  rw [readChunk, if_pos h]

/-- A chunk goes on behind a string. -/
theorem readChunk_string {rest content after : List Char}
    (h : readQuoted rest = some (content, after)) :
    readChunk ('"' :: rest) = inFront ('"' :: content ++ ['"']) (readChunk after) := by
  rw [readChunk, if_neg (by decide), if_pos rfl]
  split
  · rename_i hread
    obtain ⟨rfl, rfl⟩ := Prod.mk.inj (Option.some.inj (hread.symm.trans h))
    rfl
  · rename_i hread
    exact nomatch hread.symm.trans h

/-- A string that is never closed reaches to the end of its chunk. -/
theorem readChunk_openString {rest : List Char} (h : readQuoted rest = none) :
    readChunk ('"' :: rest) = ('"' :: rest, []) := by
  rw [readChunk, if_neg (by decide), if_pos rfl]
  split
  · rename_i hread
    exact nomatch hread.symm.trans h
  · rfl

/-- A chunk goes on behind a closed list. -/
theorem readChunk_list {rest : List Char} (h : (readBracket rest).closed = true) :
    readChunk ('[' :: rest)
      = inFront ('[' :: (readBracket rest).content ++ [']'])
          (readChunk (readBracket rest).rest) := by
  rw [readChunk, if_neg (by decide), if_neg (by decide), if_pos ⟨rfl, h⟩]

/-- Of a list that is never closed, a chunk takes the bracket alone. -/
theorem readChunk_openList {rest : List Char} (h : (readBracket rest).closed = false) :
    readChunk ('[' :: rest) = inFront ['['] (readChunk rest) := by
  rw [readChunk, if_neg (by decide), if_neg (by decide), if_neg (by simp [h])]

/-- Any other character belongs to the chunk. -/
theorem readChunk_other {c : Char} (hend : ¬ endsChunk c = true) (hquote : c ≠ '"')
    (hlist : c ≠ '[') (rest : List Char) :
    readChunk (c :: rest) = inFront [c] (readChunk rest) := by
  rw [readChunk, if_neg hend, if_neg hquote, if_neg fun list => hlist list.1]

/-- A chunk and the rest are the whole text. -/
theorem readChunk_append (text : List Char) : (readChunk text).1 ++ (readChunk text).2 = text := by
  fun_induction readChunk text with
  | case1 => rfl
  | case2 => rfl
  | case3 rest content after h _ ih => simp [ih, eq_of_readQuoted h]
  | case4 => simp
  | case5 c rest _ _ h ih =>
    have list := readBracket_append rest
    simp only [BracketText.closing, h.2, if_true, List.singleton_append] at list
    simp [ih, h.1, list]
  | case6 c rest _ _ _ ih => simp [ih]

/-- The rest after a chunk is no longer than the text. -/
theorem length_snd_readChunk (text : List Char) : (readChunk text).2.length ≤ text.length := by
  have lengths := congrArg List.length (readChunk_append text)
  simp only [List.length_append] at lengths
  omega

/-- A chunk as a result, unless it is blank. -/
def keepChunk (chunk : Excerpt) : List Excerpt :=
  if (trim chunk.chars).isEmpty then [] else [chunk]

/-- Cuts a text that starts at a position into its chunks. -/
def chunksFrom (start : Nat) (text : List Char) : List Excerpt :=
  let chunk : Excerpt := ⟨start, (readChunk text).1⟩
  match _h : (readChunk text).2 with
  | [] => keepChunk chunk
  | c :: after => keepChunk chunk ++ chunksFrom (chunk.stop + c.utf8Size) after
  termination_by text.length
  decreasing_by
    have shorter := length_snd_readChunk text
    rw [_h] at shorter
    simp only [List.length_cons] at shorter
    omega

/-- The chunks of a body, in order. -/
def chunks (body : Excerpt) : List Excerpt := chunksFrom body.start body.chars

end DotLayout.Dot
