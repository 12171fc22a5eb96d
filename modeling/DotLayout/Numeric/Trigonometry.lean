import DotLayout.Numeric.Rounding

/-! # Sine, cosine and the angle of a vector

    Angles are singles in radians.  Each function computes its value in fixed point, in steps of
    `2 ^ -256`, far finer than the last bit of any single, and rounds once at the end:

    * `sin` and `cos` take off quarter turns (`quarterTurn` holds enough places of the quarter
      turn for every single) and sum the power series of the rest;
    * `atan2 y x` is the angle of the vector `(x, y)`, between minus and plus half a turn.

    All of it is exact arithmetic on natural numbers, so a closed angle can be evaluated inside a
    proof. -/

namespace DotLayout.Numeric

open Float.Model UnpackedFloat

/-- Fixed-point numbers are natural numbers in steps of `2 ^ -places`. -/
def places : Nat := 256

def unit : Nat := 1 <<< places

/-- The extra places that `quarterTurn` carries. -/
def guardPlaces : Nat := 160

/-- A quarter turn, in steps of `2 ^ -(places + guardPlaces)`. -/
def quarterTurn : Nat :=
  0x1921fb54442d18469898cc51701b839a252049c1114cf98e804177d4c76273644a29410f31c6809bbdf2a33679a748636605614db

/-- `1 - q / (a (a + 1)) · (1 - q / ((a + 2) (a + 3)) · …)` with the given number of factors: the
    sine (`a = 2`, over its argument) or cosine (`a = 1`) of the square root of `q`. -/
def alternating (q : Nat) : Nat → Nat → Nat
  | _, 0 => unit
  | a, terms + 1 => unit - q * alternating q (a + 2) terms / (a * (a + 1)) / unit

/-- The sine of a fixed-point angle below a quarter turn. -/
def sineBelow (angle : Nat) : Nat :=
  angle * alternating (angle * angle / unit) 2 40 / unit

/-- The cosine of a fixed-point angle below a quarter turn. -/
def cosineBelow (angle : Nat) : Nat :=
  alternating (angle * angle / unit) 1 40

/-- Splits `mantissa · 2 ^ exponent` into whole quarter turns and a fixed-point rest. -/
def reduceAngle (mantissa : Nat) (exponent : Int) : Nat × Nat :=
  let scaled := mantissa <<< (exponent + places + guardPlaces).toNat
  (scaled / quarterTurn, (scaled % quarterTurn) >>> guardPlaces)

/-- The sine of an angle that lies `quarters` quarter turns and `rest` from zero, with its sign. -/
def sineAt (quarters rest : Nat) : Sign × Nat :=
  match quarters % 4 with
  | 0 => (.positive, sineBelow rest)
  | 1 => (.positive, cosineBelow rest)
  | 2 => (.negative, sineBelow rest)
  | _ => (.negative, cosineBelow rest)

def sin (x : Float32) : Float32 :=
  match x.toModel.unpack with
  | .finite sign mantissa exponent _ =>
    let (quarters, rest) := reduceAngle mantissa exponent
    let (turned, value) := sineAt quarters rest
    let rounded := single turned value (-(places : Int))
    match sign with
    | .positive => rounded
    | .negative => -rounded
  | .zero _ => x
  | _ => notANumber

def cos (x : Float32) : Float32 :=
  match x.toModel.unpack with
  | .finite _ mantissa exponent _ =>
    let (quarters, rest) := reduceAngle mantissa exponent
    let (turned, value) := sineAt (quarters + 1) rest
    single turned value (-(places : Int))
  | .zero _ => 1
  | _ => notANumber

/-- `1 / a - q · (1 / (a + 2) - q · …)` with the given number of terms. -/
def reciprocals (q : Nat) : Nat → Nat → Nat
  | _, 0 => 0
  | a, terms + 1 => unit / a - q * reciprocals q (a + 2) terms / unit

/-- The fixed-point slope of half the angle whose slope is given. -/
def halfSlope (slope : Nat) : Nat :=
  slope * unit / (unit + Nat.sqrt (unit * unit + slope * slope))

/-- The fixed-point angle whose slope is at most one: three halvings make the series short. -/
def angleOfSlope (slope : Nat) : Nat :=
  let eighth := halfSlope (halfSlope (halfSlope slope))
  8 * (eighth * reciprocals (eighth * eighth / unit) 1 48 / unit)

/-- The fixed-point angle, from the first axis towards the second, of a vector with the given
    sides: at most a quarter turn. -/
def angleOfSides (along across : Nat) : Nat :=
  if across ≤ along then
    angleOfSlope (across * unit / along)
  else
    quarterTurn >>> guardPlaces - angleOfSlope (along * unit / across)

/-- The size of a coordinate in whole steps of the smallest single. -/
def stepsOf (x : Float32) : Nat :=
  match x.toModel.unpack with
  | .finite _ mantissa exponent _ => mantissa <<< (exponent + 149).toNat
  | _ => 0

/-- Whether the sign bit of a number is set. -/
def isSigned (x : Float32) : Bool :=
  x.toBits ≥ 0x80000000

/-- A vector with an infinite side points where its infinite sides point. -/
def directionOf (x : Float32) : Float32 :=
  let size : Float32 := if x.isInf then 1 else 0
  if isSigned x then -size else size

/-- The angle of the vector `(x, y)`, with the sign of `y`. -/
def atan2 (y x : Float32) : Float32 :=
  if y.isNaN || x.isNaN then notANumber
  else
    let (y, x) := if y.isInf || x.isInf then (directionOf y, directionOf x) else (y, x)
    let along := stepsOf x
    let across := stepsOf y
    let acute := if across = 0 then 0 else angleOfSides along across
    let angle := if isSigned x then quarterTurn >>> (guardPlaces - 1) - acute else acute
    single (if isSigned y then .negative else .positive) angle (-(places : Int))

end DotLayout.Numeric
