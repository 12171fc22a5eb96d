import DotLayout.Proofs.Text.Quoting

/-! # Writing quoted strings

    `quote` writes a text between quotes, with a backslash before each quote inside.

    * `Escaped` relates a text without backslashes to what is written between the quotes, one
      character of the text at a time.
    * `Escaped.content` says that what is written can stand between quotes,
      `Escaped.continuesLine` that it protects no line break, and `Escaped.unescape` that the
      text comes back. -/

namespace DotLayout.Text

/-- A text with a backslash before each quote. -/
def escape : List Char → List Char
  | [] => []
  | c :: text => if c = '"' then '\\' :: '"' :: escape text else c :: escape text

/-- A text in quotes, with its own quotes protected. -/
def quote (text : List Char) : List Char := '"' :: escape text ++ ['"']

/-- How a text without backslashes is written inside a string. -/
inductive Escaped : List Char → List Char → Prop where
  | nil : Escaped [] []
  | quote {text written : List Char} (tail : Escaped text written) :
      Escaped ('"' :: text) ('\\' :: '"' :: written)
  | char {c : Char} {text written : List Char} (hquote : c ≠ '"') (hslash : c ≠ '\\')
      (tail : Escaped text written) : Escaped (c :: text) (c :: written)

/-- A text without a backslash is escaped as it has to be. -/
theorem escaped_escape {text : List Char} (h : '\\' ∉ text) : Escaped text (escape text) := by
  induction text with
  | nil => exact .nil
  | cons c text ih =>
      have hslash : c ≠ '\\' := fun hc => h (hc ▸ List.mem_cons_self)
      have tail := ih fun hmem => h (List.mem_cons_of_mem c hmem)
      by_cases hquote : c = '"'
      · rw [escape, if_pos hquote, hquote]
        exact .quote tail
      · rw [escape, if_neg hquote]
        exact .char hquote hslash tail

namespace Escaped

variable {text written : List Char}

/-- What is escaped is the content of a string. -/
theorem content (h : Escaped text written) : Content written := by
  induction h with
  | nil => exact .nil
  | quote _ ih => exact .slash '"' ih
  | char hquote hslash _ ih => exact .char hquote hslash ih

/-- A written string protects no line break. -/
theorem continuesLine (h : Escaped text written) : continuesLine written = false := by
  induction h with
  | nil => rfl
  | quote _ ih => exact ih
  | char _ hslash _ ih => simpa [Text.continuesLine, hslash] using ih

/-- A written string stands for its text. -/
theorem unescape (h : Escaped text written) : unescape written = text := by
  induction h with
  | nil => rfl
  | quote _ ih => exact congrArg ('"' :: ·) ih
  | char _ hslash _ ih => simp [Text.unescape, hslash, ih]

end Escaped

end DotLayout.Text
