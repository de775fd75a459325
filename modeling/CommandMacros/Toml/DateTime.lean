import CommandMacros.Number.Decimal

/-!
Dates and times as TOML writes them: a date, a time, or both with an offset from universal time at
the end. No setting has one, so they are only recognised.
-/

namespace CommandMacros.Toml

/-- A number of exactly `count` digits from `low` to `high`. -/
def numberBetween? (count low high : Nat) (cs : List Char) : Option (Nat × List Char) :=
  let digits := cs.take count
  let n := Number.digitsValue digits
  if digits.length = count ∧ digits.all Char.isDigit = true ∧ low ≤ n ∧ n ≤ high then
    some (n, cs.drop count)
  else
    none

/-- What follows the given character in front. -/
def after? (c : Char) : List Char → Option (List Char)
  | [] => none
  | first :: rest => if first = c then some rest else none

def isLeapYear (year : Nat) : Bool :=
  year % 4 == 0 && (year % 100 != 0 || year % 400 == 0)

def daysInMonth (year month : Nat) : Nat :=
  if month = 2 then
    if isLeapYear year then 29 else 28
  else if month = 4 ∨ month = 6 ∨ month = 9 ∨ month = 11 then
    30
  else
    31

/-- What follows a date: year, month and day. -/
def date? (cs : List Char) : Option (List Char) := do
  let (year, cs) ← numberBetween? 4 0 9999 cs
  let (month, cs) ← numberBetween? 2 1 12 (← after? '-' cs)
  let (_, left) ← numberBetween? 2 1 (daysInMonth year month) (← after? '-' cs)
  return left

/-- What follows an hour and a minute. -/
def hourMinute? (cs : List Char) : Option (List Char) := do
  let (_, cs) ← numberBetween? 2 0 23 cs
  let (_, left) ← numberBetween? 2 0 59 (← after? ':' cs)
  return left

/-- What follows a time: hour, minute and second, which may be a leap second and have a fraction. -/
def time? (cs : List Char) : Option (List Char) := do
  let cs ← hourMinute? cs
  let (_, left) ← numberBetween? 2 0 60 (← after? ':' cs)
  match left with
  | '.' :: fraction =>
    if (fraction.takeWhile Char.isDigit).isEmpty then
      none
    else
      return fraction.dropWhile Char.isDigit
  | _ => return left

/-- Skips an offset from universal time. -/
def skipOffset (cs : List Char) : List Char :=
  match cs with
  | 'Z' :: rest | 'z' :: rest => rest
  | '+' :: rest | '-' :: rest => (hourMinute? rest).getD cs
  | _ => cs

/-- Skips the time after a date, with the mark that divides the two. -/
def skipTimeOfDay (cs : List Char) : List Char :=
  match cs with
  | 'T' :: rest | 't' :: rest | ' ' :: rest =>
    match time? rest with
    | some left => skipOffset left
    | none => cs
  | _ => cs

/-- What follows a date with or without a time, or a time alone. -/
def dateTime? (cs : List Char) : Option (List Char) :=
  match date? cs with
  | some left => some (skipTimeOfDay left)
  | none => time? cs

end CommandMacros.Toml
