import DotLayout.Numeric.Rounding

/-! # Decimal text of a single

    A single is written with the fewest digits that read back to it, and among those with the
    ones nearest to it.

    * `shortest` finds the digits.  The decimals with a given last place form a grid; grids are
      tried from coarse to fine, and on each grid only the two neighbours of the number can lie
      among the reals that round to it.
    * A `NumberStyle` holds what is left to a format: when to use an exponent, whether a whole
      number keeps a `.0`, where an exact tie goes, and what stands for values that are no finite
      numbers.  `NumberStyle.plain` is the style of drawing commands, `NumberStyle.json` that of
      JSON documents. -/

namespace DotLayout.Numeric

open Float.Model UnpackedFloat

/-- The number `digits · 10 ^ exponent`. -/
structure Decimal where
  digits : Nat
  exponent : Int
  deriving Repr, DecidableEq

/-- Which of two equally near decimals is taken. -/
inductive Tie where
  | up
  | even
  deriving Repr, DecidableEq

/-- The coarsest grid on which a single can have a neighbour that reads back. -/
def coarsestPlace : Int := 39

/-- The number of grids down to the one that holds every single to nine digits. -/
def gridCount : Nat := 100

def powerOfTen (n : Nat) : Nat := Nat.pow 10 n

/-- The decimal with last place `10 ^ place` that reads back to `mantissa · 2 ^ exponent`, if
    there is one.  All quantities are counted in quarters of the last binary place; the limits of
    the rounding interval belong to it when the mantissa is even, and below a power of two the
    interval is half as wide. -/
def decimalAt (tie : Tie) (mantissa : Nat) (exponent place : Int) : Option Decimal :=
  let quarters := powerOfTen (-place).toNat <<< (exponent - 2).toNat
  let step := powerOfTen place.toNat <<< (2 - exponent).toNat
  let value := 4 * mantissa * quarters
  let below := if mantissa = 0x800000 ∧ -149 < exponent then quarters else 2 * quarters
  let readsBack (digits : Nat) : Bool :=
    if mantissa % 2 = 0 then
      value ≤ digits * step + below ∧ digits * step ≤ value + 2 * quarters
    else
      value < digits * step + below ∧ digits * step < value + 2 * quarters
  let lower := value / step
  let upper := lower + 1
  let upperIsNearer : Bool :=
    let twice := 2 * value
    let middle := (lower + upper) * step
    middle < twice || (middle == twice && (tie == .up || upper % 2 == 0))
  match readsBack lower, readsBack upper with
  | false, false => none
  | true, false => some ⟨lower, place⟩
  | false, true => some ⟨upper, place⟩
  | true, true => some ⟨if upperIsNearer then upper else lower, place⟩

/-- The decimal with the fewest digits that reads back to `mantissa · 2 ^ exponent`. -/
def shortest (tie : Tie) (mantissa : Nat) (exponent : Int) : Decimal :=
  ((List.range gridCount).findSome? fun (finer : Nat) =>
    decimalAt tie mantissa exponent (coarsestPlace - finer)).getD ⟨0, 0⟩

/-- What a format decides about the text of its numbers. -/
structure NumberStyle where
  /-- Where an exact tie between two shortest decimals goes. -/
  tie : Tie
  /-- Whether a number with the given exponent of its first digit is written out in full. -/
  writesOut : Int → Bool
  /-- Whether a whole number that is written out ends in `.0`. -/
  keepsPoint : Bool
  /-- The text for a value that is no number. -/
  notANumber : String
  /-- The text for an infinite value with the given sign. -/
  infinite : Sign → String

/-- Drawing commands write every number out and give whole numbers no point. -/
def NumberStyle.plain : NumberStyle where
  tie := .up
  writesOut _ := true
  keepsPoint := false
  notANumber := "NaN"
  infinite
    | .positive => "inf"
    | .negative => "-inf"

/-- JSON documents use an exponent below `10 ^ -6` and from `10 ^ 13` on, mark every number as a
    fraction, and have no word for what is not finite. -/
def NumberStyle.json : NumberStyle where
  tie := .even
  writesOut exponent := -6 ≤ exponent && exponent ≤ 12
  keepsPoint := true
  notANumber := "null"
  infinite _ := "null"

/-- The sign as it stands before the digits. -/
def signText : Sign → String
  | .positive => ""
  | .negative => "-"

def zeros (n : Nat) : String := String.ofList (List.replicate n '0')

/-- The digits of a decimal, written out or with an exponent. -/
def Decimal.text (style : NumberStyle) (d : Decimal) : String :=
  let digits := (toString d.digits).toList
  let first : Int := d.exponent + digits.length - 1
  if style.writesOut first then
    if 0 ≤ d.exponent then
      String.ofList digits ++ zeros d.exponent.toNat ++ (if style.keepsPoint then ".0" else "")
    else if 0 ≤ first then
      let whole := (first + 1).toNat
      String.ofList (digits.take whole) ++ "." ++ String.ofList (digits.drop whole)
    else
      "0." ++ zeros (-first - 1).toNat ++ String.ofList digits
  else
    let mantissa := match digits with
      | [] => ""
      | [digit] => String.singleton digit
      | digit :: rest => String.singleton digit ++ "." ++ String.ofList rest
    mantissa ++ "e" ++ (if 0 ≤ first then "+" else "-") ++ toString first.natAbs

def NumberStyle.render (style : NumberStyle) (x : Float32) : String :=
  match x.toModel.unpack with
  | .finite sign mantissa exponent _ =>
    signText sign ++ (shortest style.tie mantissa exponent).text style
  | .zero sign => signText sign ++ (if style.keepsPoint then "0.0" else "0")
  | .infinity sign => style.infinite sign
  | .notANumber => style.notANumber

end DotLayout.Numeric
