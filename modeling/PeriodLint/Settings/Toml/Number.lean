import PeriodLint.Settings.Value
import PeriodLint.Text.Scan

/-!
# TOML numbers and dates

The values that start with a digit or a sign. A form is tried where the others
before it do not fit: dates with or without a time, times, numbers, and the
words for infinity and for no number. An integer may have any number of digits.
Of a floating-point number only its form is read.
-/

namespace PeriodLint.Toml

open Scan

/-- Digits of a class, where single underscores may stand between two digits. -/
def digitRun (isDigit : Char → Bool) : Scan (List Char) := do
  let first ← satisfy isDigit
  repeatFrom [first] fun done => do
    match ← rest with
    | '_' :: d :: cs =>
        if isDigit d then
          set cs
          return .more (d :: done)
        else
          return .done done.reverse
    | d :: cs =>
        if isDigit d then
          set cs
          return .more (d :: done)
        else
          return .done done.reverse
    | [] => return .done done.reverse

/-- The value of a digit in any base up to sixteen. -/
def digitValue (c : Char) : Nat :=
  if c.isDigit then c.toNat - '0'.toNat
  else if 'a' ≤ c then c.toNat - 'a'.toNat + 10
  else c.toNat - 'A'.toNat + 10

/-- The number that digits write in a base. -/
def numeral (base : Nat) (digits : List Char) : Nat :=
  digits.foldl (fun n c => base * n + digitValue c) 0

/-- A hexadecimal digit. -/
def isHexDigit (c : Char) : Bool :=
  c.isDigit || ('a' ≤ c && c ≤ 'f') || ('A' ≤ c && c ≤ 'F')

/-- An integer with a prefix that names its base. -/
def basedInteger : Scan Setting := do
  exactly ['0']
  match ← char with
  | 'x' => return .int (numeral 16 (← digitRun isHexDigit))
  | 'o' => return .int (numeral 8 (← digitRun fun c => '0' ≤ c && c ≤ '7'))
  | 'b' => return .int (numeral 2 (← digitRun fun c => c == '0' || c == '1'))
  | _ => failure

/-- The integer part of a decimal number, which has no leading zero. -/
def wholePart : Scan Nat := do
  if ← accept ['0'] then return 0
  else return numeral 10 (← digitRun Char.isDigit)

/-- The sign of a number, as whether it is negative. -/
def sign : Scan Bool := do
  if ← accept ['-'] then return true
  else
    let _ ← accept ['+']
    return false

/-- Whether a part that a mark introduces follows. It is read only as a whole. -/
def optionalPart (part : Scan Unit) : Scan Bool :=
  (do part; return true) <|> pure false

/-- The digits after the decimal point. -/
def fraction : Scan Unit := do
  exactly ['.']
  let _ ← digitRun Char.isDigit

/-- The power of ten. -/
def exponent : Scan Unit := do
  let _ ← satisfy fun c => c == 'e' || c == 'E'
  let _ ← sign
  let _ ← digitRun Char.isDigit

/-- An integer or a floating-point number in base ten. -/
def decimal : Scan Setting := do
  let negative ← sign
  let whole ← wholePart
  let fractional ← optionalPart fraction
  let scaled ← optionalPart exponent
  if fractional || scaled then return .float
  else return .int (if negative then -(whole : Int) else whole)

/-- The words for infinity and for no number. -/
def specialFloat : Scan Setting := do
  let _ ← sign
  exactly "inf".toList <|> exactly "nan".toList
  return .float

/-- So many decimal digits. -/
def fixedDigits (count : Nat) : Scan Nat := do
  let cs ← rest
  let word := cs.take count
  guard (word.length == count && word.all Char.isDigit)
  set (cs.drop count)
  return numeral 10 word

/-- A number of so many digits in an interval. -/
def fixedBetween (count low high : Nat) : Scan Nat := do
  let n ← fixedDigits count
  guard (low ≤ n && n ≤ high)
  return n

/-- A time of day. Digits after the seconds are read and not kept. -/
def timeOfDay : Scan Unit := do
  let _ ← fixedBetween 2 0 23
  exactly [':']
  let _ ← fixedBetween 2 0 59
  exactly [':']
  let _ ← fixedBetween 2 0 59
  let _ ← optionalPart do
    exactly ['.']
    let _ ← satisfy Char.isDigit
    skipWhile Char.isDigit

/-- The distance from universal time. -/
def zone : Scan Unit := do
  if (← peek?).any fun c => c == 'Z' || c == 'z' then
    let _ ← char
  else
    let _ ← satisfy fun c => c == '+' || c == '-'
    let _ ← fixedBetween 2 0 23
    exactly [':']
    let _ ← fixedBetween 2 0 59

/-- Whether a year has a twenty-ninth of February. -/
def isLeap (year : Nat) : Bool := (year % 4 == 0 && year % 100 != 0) || year % 400 == 0

/-- The number of days of a month. -/
def daysIn (year month : Nat) : Nat :=
  if month == 2 then (if isLeap year then 29 else 28)
  else if [4, 6, 9, 11].contains month then 30
  else 31

/-- A calendar day by its digits, which need not exist. -/
def calendarDay : Scan (Nat × Nat × Nat) := do
  let year ← fixedDigits 4
  exactly ['-']
  let month ← fixedBetween 2 1 12
  exactly ['-']
  let day ← fixedBetween 2 1 31
  return (year, month, day)

/-- A time after a day. -/
def timeAfterDay : Scan Unit := do
  let _ ← satisfy fun c => c == 'T' || c == 't' || c == ' '
  timeOfDay
  let _ ← optionalPart zone

/-- Whether a day exists. There is no year zero. -/
def isRealDay (day : Nat × Nat × Nat) : Bool :=
  0 < day.1 && day.2.2 ≤ daysIn day.1 day.2.1

/-- A value that starts with a digit, a sign or one of the words for special numbers. Digits that
read as a day are never read as anything else. -/
def number : Scan Setting := do
  match calendarDay (← rest) with
  | some (day, after) =>
      set after
      let timed ← optionalPart timeAfterDay
      guard (isRealDay day)
      return if timed then .dateTime else .date
  | none =>
      (do timeOfDay; return .time) <|> basedInteger <|> decimal <|> specialFloat

end PeriodLint.Toml
