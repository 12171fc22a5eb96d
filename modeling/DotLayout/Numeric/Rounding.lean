/-! # Single precision

    Coordinates and sizes are IEEE binary32 numbers and every operation rounds once.  The
    basic operations are those of `Float32`.  This file adds what they leave out:

    * `single` rounds a dyadic number `± m · 2 ^ e` to the nearest single, ties to even;
    * `widen` and `narrow` pass between single and double precision;
    * `ofDecimal` rounds a decimal number to the nearest double;
    * `hypot` is the length of a vector, computed in double precision and rounded once;
    * `larger` and `clampBetween` choose between numbers when some of them are not numbers;
    * `totalKey` is the place of a number in the total order of all singles. -/

namespace DotLayout.Numeric

open Float.Model UnpackedFloat

/-- The single nearest to `± mantissa · 2 ^ exponent`, ties going to the even neighbour; what is
    too large becomes infinite. -/
def single (sign : Sign) (mantissa : Nat) (exponent : Int) : Float32 :=
  .ofModel (.pack (UnpackedFloat.round .binary32 sign mantissa exponent))

/-- The smallest positive single, `2 ^ -149`, in double precision. -/
def leastPositive : Float := .ofBits 0x36a0000000000000

/-- The same number in double precision, which holds every single exactly.  The fraction of a
    double is 29 bits longer than that of a single, and the bias of its exponent larger by 896. -/
def widen (x : Float32) : Float :=
  let bits := x.toBits.toUInt64
  let sign := (bits >>> 31) <<< 63
  let size := bits &&& 0x7fffffff
  if 0x7f800000 ≤ size then .ofBits (sign ||| (size <<< 29) ||| 0x7ff0000000000000)
  else if 0x00800000 ≤ size then .ofBits (sign ||| ((size <<< 29) + 0x3800000000000000))
  else .ofBits (sign ||| (size.toFloat * leastPositive).toBits)

/-- The single nearest to a double, ties going to the even neighbour.  A double in the range of
    the singles with a full fraction loses the last 29 bits of its own. -/
def narrow (x : Float) : Float32 :=
  let bits := x.toBits
  let size := bits &&& 0x7fffffffffffffff
  if 0x3810000000000000 ≤ size ∧ size < 0x47f0000000000000 then
    let kept := (size - 0x3800000000000000) >>> 29
    let lost := size &&& 0x1fffffff
    let up := 0x10000000 < lost ∨ (lost = 0x10000000 ∧ kept &&& 1 = 1)
    .ofBits (((bits >>> 63) <<< 31) ||| (if up then kept + 1 else kept)).toUInt32
  else
    match x.toModel.unpack with
    | .finite sign mantissa exponent _ => single sign mantissa exponent
    | other => .ofModel (.pack other)

/-- The double nearest to `± digits · 10 ^ exponent`.  Powers of ten that leave the range of all
    doubles, however many digits there are, are cut off. -/
def ofDecimal (negative : Bool) (digits : Nat) (exponent : Int) : Float :=
  let exponent := max (-(digits.log2 + 400 : Int)) (min 400 exponent)
  let size := Float.ofScientific digits (exponent < 0) exponent.natAbs
  if negative then -size else size

def infinity : Float32 := .ofBits 0x7f800000

def notANumber : Float32 := .ofBits 0x7fc00000

def tau : Float32 := 6.2831855

def ofCount (n : Nat) : Float32 := .ofNat n

/-- The length of the vector `(x, y)`: squared and added in double precision, then rounded to a
    single.  An infinite side makes the length infinite, whatever the other side is. -/
def hypot (x y : Float32) : Float32 :=
  if x.isInf || y.isInf then infinity
  else
    let a := widen x
    let b := widen y
    narrow (Float.sqrt (a * a + b * b))

/-- The larger of two numbers; a value that is no number never wins against a number. -/
def larger (x y : Float32) : Float32 :=
  if x.isNaN then y else if x < y then y else x

/-- Limits that leave no room: the lower one is above the upper one, or one is no number. -/
inductive ClampFault where
  | limitsCrossed
  deriving Repr, DecidableEq

/-- Moves `x` to the nearest number between `low` and `high`.  A value that is no number stays
    as it is, and limits that are not in order are refused. -/
def clampBetween (x low high : Float32) : Except ClampFault Float32 :=
  if low ≤ high then
    let raised := if x < low then low else x
    .ok (if high < raised then high else raised)
  else
    .error .limitsCrossed

/-- The place of a number in the total order of all singles: `-0` comes before `0`, and below
    zero the order of the bit patterns is reversed. -/
def totalKey (x : Float32) : Int :=
  let bits := x.toBits.toNat
  if bits < 0x80000000 then bits else 0x7fffffff - (bits : Int)

/-- The smallest whole number that is at least the given one, for numbers in the range of 64
    bits; what is below zero or no number counts as zero. -/
def ceilCount (x : Float32) : Nat :=
  let whole := x.toUInt64.toNat
  if ofCount whole < x then whole + 1 else whole

end DotLayout.Numeric
