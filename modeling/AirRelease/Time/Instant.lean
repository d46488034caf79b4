import AirRelease.Text.Blank
import AirRelease.Text.Digits
import AirRelease.Time.Date

namespace AirRelease

-- Seconds since the Unix epoch. A leap second belongs to the second before it, its nanoseconds go on
-- beyond those of a second.
@[ext]
structure Instant where
  seconds : Int
  nanoseconds : Nat
deriving DecidableEq

namespace Instant

def nanosecondsPerSecond : Nat :=
  1000000000

def milliseconds (i : Instant) : Nat :=
  (i.seconds * 1000 + i.nanoseconds / 1000000).toNat

-- Nanoseconds from `earlier` to `later`.
def nanosecondsSince (later earlier : Instant) : Int :=
  (later.seconds - earlier.seconds) * nanosecondsPerSecond + later.nanoseconds - earlier.nanoseconds

def addNanoseconds (i : Instant) (n : Nat) : Instant :=
  let sum := i.nanoseconds + n
  ⟨i.seconds + sum / nanosecondsPerSecond, sum % nanosecondsPerSecond⟩

-- Reading: a step takes what it reads off the text and gives the rest.

-- From one to `width` digits.
def number? (width : Nat) (cs : List Char) : Option (Nat × List Char) :=
  let digits := (cs.take width).takeWhile Char.isDigit
  (Text.decimal? digits).map (·, cs.drop digits.length)

-- A number after blanks, within bounds.
def field? (low high : Nat) (cs : List Char) : Option (Nat × List Char) := do
  let (n, rest) ← number? 2 (Text.trimLeft cs)
  if low ≤ n ∧ n ≤ high then some (n, rest) else none

def mark? (c : Char) (cs : List Char) : Option (List Char) :=
  match Text.trimLeft cs with
  | d :: rest => if d = c then some rest else none
  | [] => none

-- A year has up to four digits, or any number of them after a sign.
def year? (cs : List Char) : Option (Int × List Char) :=
  match Text.trimLeft cs with
  | '-' :: rest => (number? rest.length rest).map fun (n, rest) => (-n, rest)
  | '+' :: rest => (number? rest.length rest).map fun (n, rest) => (n, rest)
  | cs => (number? 4 cs).map fun (n, rest) => (n, rest)

def minYear : Int :=
  -262143

def maxYear : Int :=
  262142

def date? (cs : List Char) : Option (Date × List Char) := do
  let (year, cs) ← year? cs
  let (month, cs) ← field? 1 12 (← mark? '-' cs)
  let (day, cs) ← field? 1 31 (← mark? '-' cs)
  let date := ⟨year, month, day⟩
  if date.Valid ∧ minYear ≤ year ∧ year ≤ maxYear then some (date, cs) else none

-- Decimals after a point, in nanoseconds. Those beyond the ninth are dropped.
def fraction? (cs : List Char) : Option (Nat × List Char) :=
  match cs with
  | '.' :: cs => do
    let digits := cs.takeWhile Char.isDigit
    let n ← Text.decimal? (digits.take 9)
    return (n * Nat.pow 10 (9 - (digits.take 9).length), cs.drop digits.length)
  | _ => some (0, cs)

-- Seconds of the day and nanoseconds. The second after the 59th is a leap second.
def time? (cs : List Char) : Option ((Nat × Nat) × List Char) := do
  let (hour, cs) ← field? 0 23 cs
  let (minute, cs) ← field? 0 59 (← mark? ':' cs)
  let (second, cs) ← field? 0 60 (← mark? ':' cs)
  let (nanoseconds, cs) ← fraction? cs
  let start := hour * 3600 + minute * 60
  if second = 60 then return ((start + 59, nanosecondsPerSecond + nanoseconds), cs)
  else return ((start + second, nanoseconds), cs)

def twoDigits? : List Char → Option (Nat × List Char)
  | a :: b :: rest => (Text.decimal? [a, b]).map (·, rest)
  | _ => none

-- The seconds by which local time is ahead of UTC.
def offset? (cs : List Char) : Option (Int × List Char) :=
  match cs with
  | 'Z' :: rest | 'z' :: rest => some (0, rest)
  | c :: rest =>
    if (cs.take 3).map Char.toUpper = ['U', 'T', 'C'] then some (0, cs.drop 3)
    else if c = '+' then size? rest
    else if c = '-' ∨ c = '\u2212' then (size? rest).map fun (n, rest) => (-n, rest)
    else none
  | [] => none
where
  size? (cs : List Char) : Option (Int × List Char) := do
    let (hours, cs) ← twoDigits? cs
    let (minutes, cs) ← twoDigits? (cs.dropWhile fun c => c = ':' || Text.isBlank c)
    if hours < 24 ∧ minutes < 60 then some (hours * 3600 + minutes * 60, cs) else none

def secondsPerDay : Int :=
  86400

def date (i : Instant) : Date :=
  Date.ofDayNumber (i.seconds / secondsPerDay)

def ofText? (text : String) : Option Instant := do
  let (date, cs) ← date? text.toList
  let cs ← match cs with
    | 'T' :: cs | 't' :: cs | ' ' :: cs => some cs
    | _ => none
  let ((second, nanoseconds), cs) ← time? cs
  let (offset, cs) ← offset? (Text.trimLeft cs)
  if Text.trimLeft cs ≠ [] then none
  let i : Instant := ⟨date.dayNumber * secondsPerDay + second - offset, nanoseconds⟩
  if minYear ≤ i.date.year ∧ i.date.year ≤ maxYear then some i else none

def padded (width n : Nat) : String :=
  let digits := Text.writeDecimal n
  String.ofList (List.replicate (width - digits.length) '0' ++ digits)

def yearText (year : Int) : String :=
  if 0 ≤ year ∧ year ≤ 9999 then padded 4 year.toNat
  else (if year < 0 then "-" else "+") ++ padded 4 year.natAbs

def fractionText (n : Nat) : String :=
  if n = 0 then ""
  else if n % 1000000 = 0 then "." ++ padded 3 (n / 1000000)
  else if n % 1000 = 0 then "." ++ padded 6 (n / 1000)
  else "." ++ padded 9 n

def text (i : Instant) : String :=
  let second := (i.seconds % secondsPerDay).toNat
  let leap := if nanosecondsPerSecond ≤ i.nanoseconds then 1 else 0
  let time := s!"{padded 2 (second / 3600)}:{padded 2 (second / 60 % 60)}:{padded 2 (second % 60 + leap)}"
  let fraction := fractionText (i.nanoseconds - leap * nanosecondsPerSecond)
  s!"{yearText i.date.year}-{padded 2 i.date.month}-{padded 2 i.date.day}T{time}{fraction}Z"

end Instant
end AirRelease
