import DotLayout.Numeric.Rounding

/-! # Values that are read

    Settings and messages arrive as a `Value`, whatever `Format` they were written in.  A number
    that is written without a fraction stays apart from one that is written with it, because
    counts accept only the former.  It may be larger than any setting.

    A `Reader` takes a value of a type out of a `Value` or fails.  The readers are strict about
    types: a field may be missing only where that is said, and `null` counts as missing only
    where a field is optional.  Unknown fields are ignored. -/

namespace DotLayout.Data

open Float.Model UnpackedFloat
open Numeric

/-- A value that was read. -/
inductive Value where
  | null
  | boolean (b : Bool)
  | integer (n : Int)
  | real (x : Float)
  | text (s : String)
  | list (items : List Value)
  | table (fields : List (String × Value))
  deriving Inhabited

/-- What a value was written in. -/
inductive Format where
  | json
  | toml
  deriving DecidableEq

/-- Whether a value says that there is nothing.  JSON has a word for that; TOML has none and
    leaves a table or a list empty. -/
def Format.isNothing : Format → Value → Bool
  | .json, .null => true
  | .toml, .table [] => true
  | .toml, .list [] => true
  | _, _ => false

/-- The single nearest to a whole number. -/
def singleOfInt (n : Int) : Float32 :=
  single (if n < 0 then .negative else .positive) n.natAbs 0

namespace Value

/-- A number, whether it is written with a fraction or not.  A whole number must fit into 64
    bits, with or without a sign. -/
def single? : Value → Option Float32
  | .integer n =>
    if -0x8000000000000000 ≤ n ∧ n < 0x10000000000000000 then some (singleOfInt n) else none
  | .real x => some (narrow x)
  | _ => none

/-- A whole number that is not negative and written without a fraction. -/
def count? : Value → Option Nat
  | .integer n => if 0 ≤ n ∧ n < 0x10000000000000000 then some n.toNat else none
  | _ => none

def text? : Value → Option String
  | .text s => some s
  | _ => none

/-- What a reader makes of each item of a list. -/
def listOf? {α : Type} (reader : Value → Option α) : Value → Option (List α)
  | .list items => items.mapM reader
  | _ => none

def fields? : Value → Option (List (String × Value))
  | .table fields => some fields
  | _ => none

end Value

def required? {α : Type} (reader : Value → Option α) (key : String)
    (fields : List (String × Value)) : Option α :=
  (fields.lookup key).bind reader

/-- A field that has a default when it is missing. -/
def field? {α : Type} (reader : Value → Option α) (key : String) (default : α)
    (fields : List (String × Value)) : Option α :=
  match fields.lookup key with
  | none => some default
  | some value => reader value

/-- A field that may be missing or `null`. -/
def optional? {α : Type} (reader : Value → Option α) (key : String)
    (fields : List (String × Value)) : Option (Option α) :=
  match fields.lookup key with
  | none | some .null => some none
  | some value => (reader value).map some

end DotLayout.Data
