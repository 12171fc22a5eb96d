import DotLayout.Data.Toml.Number

/-! # Dates and times of settings files

    A moment is a date `2024-02-29`, a time `07:32:00.5`, or both with a `T` or a space between
    them; only a full one may say how far its clock is from universal time.  Seconds may be
    missing, and the sixtieth one exists.

    No setting is a moment.  A moment stands for the table of its parts, so that it is refused
    wherever a number or a text is expected. -/

namespace DotLayout.Data.Toml

/-- A number of digits alone, below a limit. -/
def digits? (digits : List Char) (limit : Nat) : Option Nat := do
  if !digits.all Char.isDigit then none
  let n ← natural? 10 digits
  if n < limit then return n else none

/-- The number of days of a month. -/
def daysIn (year month : Nat) : Nat :=
  if month = 2 then
    if year % 4 = 0 ∧ (year % 100 ≠ 0 ∨ year % 400 = 0) then 29 else 28
  else if month = 4 ∨ month = 6 ∨ month = 9 ∨ month = 11 then 30
  else 31

/-- The parts of something, each with its name. -/
abbrev Parts := List (String × Value)

/-- Reads a date of year, month and day. -/
def readDate : Reader Parts
  | a :: b :: c :: d :: '-' :: e :: f :: '-' :: g :: h :: rest => do
    let year ← digits? [a, b, c, d] 10000
    let month ← digits? [e, f] 13
    let day ← digits? [g, h] (daysIn year month + 1)
    if month = 0 ∨ day = 0 then none
    return ([("year", .integer year), ("month", .integer month), ("day", .integer day)], rest)
  | _ => none

/-- Reads a time of hours and minutes. -/
def readClock : Reader Parts
  | a :: b :: ':' :: c :: d :: rest => do
    let hour ← digits? [a, b] 24
    let minute ← digits? [c, d] 60
    return ([("hour", .integer hour), ("minute", .integer minute)], rest)
  | _ => none

/-- A time of day; parts of a second are not kept. -/
def readTime (text : List Char) : Option (Parts × List Char) := do
  let (clock, after) ← readClock text
  match after with
  | ':' :: a :: b :: rest =>
    let second ← digits? [a, b] 61
    let parts := clock ++ [("second", .integer second)]
    match rest with
    | '.' :: c :: rest =>
      if c.isDigit then return (parts, rest.dropWhile Char.isDigit) else none
    | rest => return (parts, rest)
  | after => return (clock, after)

/-- Whether a text says how far a clock is from universal time, or nothing. -/
def endsMoment : List Char → Bool
  | [] | ['Z'] | ['z'] => true
  | sign :: offset => (sign == '+' || sign == '-') && (readClock offset).any (·.2.isEmpty)

/-- Reads a date, a time or both. -/
def moment? (text : List Char) : Option Value :=
  match readDate text with
  | none => (readTime text).bind fun (time, after) =>
    if after.isEmpty then some (.table time) else none
  | some (date, []) => some (.table date)
  | some (date, between :: rest) => do
    let (time, after) ← readTime rest
    if (between = 'T' ∨ between = 't' ∨ between = ' ') ∧ endsMoment after then
      return .table (date ++ time)
    else none

end DotLayout.Data.Toml
