import DotLayout.Data.Toml.Text
import DotLayout.Data.Value

/-! # Numbers of settings files

    A number is written without blanks.  Single underscores may stand between digits, and none
    but a lone zero starts with a zero.

    * A whole number is decimal, with or without a sign, or has a base of 16, 8 or 2 and no sign.
      It fits into 128 bits, with or without a sign.
    * A real number has a fraction or a power of ten.  It is finite unless it is `inf` or `nan`:
      digits that are too large for a double are refused. -/

namespace DotLayout.Data.Toml

open Numeric

/-- Digits in a base with single underscores between them; `afterDigit` says whether a digit has
    been read right before them, and `n` what the digits before them stand for. -/
def readDigits? (base : Nat) (afterDigit : Bool) (n : Nat) : List Char → Option Nat
  | [] => if afterDigit then some n else none
  | '_' :: rest => if afterDigit then readDigits? base false n rest else none
  | c :: rest =>
    match hexValue? c with
    | some d => if d < base then readDigits? base true (base * n + d) rest else none
    | none => none

/-- The number that a text of digits stands for. -/
def natural? (base : Nat) (text : List Char) : Option Nat := readDigits? base false 0 text

/-- Whether a number has no needless zero in front. -/
def startsWell : List Char → Bool
  | '0' :: _ :: _ => false
  | _ => true

/-- A whole number that fits into 128 bits. -/
def whole? (n : Int) : Option Value :=
  if -0x80000000000000000000000000000000 ≤ n ∧ n < 0x100000000000000000000000000000000 then
    some (.integer n)
  else none

/-- The power of ten at the end of a number. -/
def exponent? : List Char → Option Int
  | [] => some 0
  | _ :: '-' :: digits => (natural? 10 digits).map fun n => -(n : Int)
  | _ :: '+' :: digits => (natural? 10 digits).map Int.ofNat
  | _ :: digits => (natural? 10 digits).map Int.ofNat

/-- The digits before and after a point, read as one number, and how many of them are behind it. -/
def mantissa? (whole : List Char) : List Char → Option (Nat × Nat)
  | [] => (natural? 10 whole).map (·, 0)
  | _ :: fraction => do
    let n ← natural? 10 whole
    let _ ← natural? 10 fraction
    let digits := fraction.filter (· ≠ '_')
    return (← readDigits? 10 true n digits, digits.length)

/-- A number with a fraction or a power of ten, without its sign. -/
def real? (negative : Bool) (text : List Char) : Option Value := do
  let isMark (c : Char) : Bool := c == 'e' || c == 'E'
  let mantissa := text.takeWhile fun c => !isMark c
  let whole := mantissa.takeWhile (· ≠ '.')
  let (digits, places) ← mantissa? whole (mantissa.dropWhile (· ≠ '.'))
  let exponent ← exponent? (text.dropWhile fun c => !isMark c)
  let x := ofDecimal negative digits (exponent - places)
  if startsWell whole ∧ ¬ x.isInf then return .real x else none

def unsigned? (negative : Bool) : List Char → Option Value
  | ['i', 'n', 'f'] => some (.real (if negative then -1 / 0 else 1 / 0))
  | ['n', 'a', 'n'] => some (.real (0 / 0))
  | text =>
    match natural? 10 text with
    | some n => if startsWell text then whole? (if negative then -(n : Int) else n) else none
    | none => real? negative text

def number? : List Char → Option Value
  | '0' :: 'x' :: digits => (natural? 16 digits).bind fun n => whole? n
  | '0' :: 'o' :: digits => (natural? 8 digits).bind fun n => whole? n
  | '0' :: 'b' :: digits => (natural? 2 digits).bind fun n => whole? n
  | '+' :: rest => unsigned? false rest
  | '-' :: rest => unsigned? true rest
  | text => unsigned? false text

end DotLayout.Data.Toml
