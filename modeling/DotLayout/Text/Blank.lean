/-! # Blank characters

    `isBlank` is the Unicode property White_Space, which decides where a statement, a value or a
    name is trimmed.  `isAsciiBlank` is its part that separates tokens: space, tab, line feed,
    form feed and carriage return, but not the vertical tab.  `trim` takes the blank ends off a
    text. -/

namespace DotLayout.Text

/-- Whether a character has the property White_Space. -/
def isBlank (c : Char) : Bool :=
  let n := c.toNat
  (0x09 ≤ n && n ≤ 0x0d) || n == 0x20 || n == 0x85 || n == 0xa0 || n == 0x1680
    || (0x2000 ≤ n && n ≤ 0x200a) || n == 0x2028 || n == 0x2029 || n == 0x202f || n == 0x205f
    || n == 0x3000

/-- Whether a character is one of the blanks that separate tokens. -/
def isAsciiBlank (c : Char) : Bool :=
  c == ' ' || c == '\t' || c == '\n' || c == '\x0c' || c == '\r'

/-- Takes from both ends the characters that satisfy `drop`. -/
def trimWhere (drop : Char → Bool) (text : List Char) : List Char :=
  ((text.dropWhile drop).reverse.dropWhile drop).reverse

/-- Takes the blank characters off both ends. -/
def trim (text : List Char) : List Char := trimWhere isBlank text

/-- A string without the blanks at its ends. -/
def trimmed (s : String) : String := String.ofList (trim s.toList)

/-- Small letters in place of the capital letters of ASCII; nothing else changes. -/
def asciiLower (s : String) : String := String.ofList (s.toList.map Char.toLower)

end DotLayout.Text
