import AirRelease.Text.Blank
import AirRelease.Text.Digits

namespace AirRelease

structure Duration where
  nanoseconds : Nat
deriving DecidableEq

namespace Duration

def ofMilliseconds (n : Nat) : Duration :=
  ⟨n * 1000000⟩

def ofSeconds (n : Nat) : Duration :=
  ⟨n * 1000000000⟩

def wholeSeconds (d : Duration) : Nat :=
  d.nanoseconds / 1000000000

-- The nanoseconds beyond the whole seconds.
def remainder (d : Duration) : Nat :=
  d.nanoseconds % 1000000000

-- What durations are counted in.
inductive Grain
  | nanosecond
  | second
deriving DecidableEq

def Grain.nanoseconds : Grain → Nat
  | nanosecond => 1
  | second => 1000000000

-- The whole units and the parts of a unit can be counted in different grains.
structure Unit where
  names : List String
  size : Nat
  grain : Grain
  partSize : Nat
  partGrain : Grain

-- There are no parts of a nanosecond.
def units : List Unit := [
  ⟨["ns", "nsec", "nanos"], 1, .nanosecond, 0, .nanosecond⟩,
  ⟨["us", "usec", "µs"], 1000, .nanosecond, 1000, .nanosecond⟩,
  ⟨["ms", "msec", "millis"], 1000000, .nanosecond, 1000000, .nanosecond⟩,
  ⟨["s", "sec", "secs", "second", "seconds"], 1, .second, 1000000000, .nanosecond⟩,
  ⟨["m", "min", "mins", "minute", "minutes"], 60, .second, 60000000000, .nanosecond⟩,
  ⟨["h", "hr", "hrs", "hour", "hours"], 3600, .second, 3600, .second⟩,
  ⟨["d", "day", "days"], 86400, .second, 86400, .second⟩,
  ⟨["w", "wk", "wks", "week", "weeks"], 604800, .second, 604800, .second⟩,
  -- 30.44 days
  ⟨["M", "month", "months"], 2630016, .second, 2630016, .second⟩,
  -- 365.25 days
  ⟨["y", "yr", "yrs", "year", "years"], 31557600, .second, 31557600, .second⟩
]

def unit? (name : List Char) : Option Unit :=
  units.find? fun u => u.names.any (·.toList = name)

-- Counts and their sums stay below this bound.
def bound : Nat :=
  UInt64.size

def bounded? (n : Nat) : Option Nat :=
  if n < bound then some n else none

-- Adds `count` grains.
def add? (d : Duration) (count : Nat) : Grain → Option Duration
  | .nanosecond => do
    let _ ← bounded? (d.remainder + count)
    let sum := d.nanoseconds + count
    let _ ← bounded? (sum / 1000000000)
    return ⟨sum⟩
  | .second => do
    let sum := d.nanoseconds + count * Grain.second.nanoseconds
    let _ ← bounded? (sum / 1000000000)
    return ⟨sum⟩

def isLetter (c : Char) : Bool :=
  c.isAlpha || c = 'µ'

-- A number, perhaps with digits after a point, and its unit.
structure Term where
  whole : Nat
  part : Option (List Char)
  name : List Char

def addTerm? (d : Duration) (t : Term) : Option Duration := do
  let unit ← unit? t.name
  let d ← d.add? (← bounded? (t.whole * unit.size)) unit.grain
  match t.part with
  | none => return d
  | some digits =>
    if unit.partSize = 0 then none
    else
      let denominator ← bounded? (Nat.pow 10 digits.length)
      let scaled ← bounded? (Nat.ofDigitChars 10 digits 0 * unit.partSize)
      d.add? (scaled / denominator) unit.partGrain

-- Digits with blanks between them. Gives the digits and what follows.
def spanDigits : List Char → List Char × List Char
  | [] => ([], [])
  | c :: rest =>
    let (digits, after) := spanDigits rest
    if c.isDigit then (c :: digits, after)
    else if Text.isBlank c then (digits, after)
    else ([], c :: rest)

-- A number begins with a digit, blanks before it do not count. Nothing but letters may be in the unit,
-- which ends at a blank or at the next number.
def term? (cs : List Char) : Option (Term × List Char) := do
  let (digits, rest) := spanDigits cs
  if digits = [] then none
  let whole ← bounded? (Nat.ofDigitChars 10 digits 0)
  match rest with
  | '.' :: rest =>
    let (decimals, rest) := spanDigits rest
    if decimals = [] then none
    let (name, rest) := rest.span isLetter
    return (⟨whole, some decimals, name⟩, rest)
  | _ =>
    let (name, rest) := rest.span isLetter
    return (⟨whole, none, name⟩, rest)

-- Reads terms until the text ends; `fuel` bounds their number.
def sumTerms? (d : Duration) : Nat → List Char → Option Duration
  | 0, _ => none
  | fuel + 1, cs => do
    let (t, rest) ← term? cs
    let d ← d.addTerm? t
    if Text.trimLeft rest = [] then some d else d.sumTerms? fuel rest

def ofText? (text : String) : Option Duration :=
  if text = "0" then some ⟨0⟩ else sumTerms? ⟨0⟩ (text.length + 1) text.toList

-- The digits after the point, without zeros at the end.
def decimals (width n : Nat) : String :=
  let digits := Text.writeDecimal n
  let padded := List.replicate (width - digits.length) '0' ++ digits
  String.ofList (padded.reverse.dropWhile (· = '0')).reverse

def withUnit (n size width : Nat) (name : String) : String :=
  if n % size = 0 then s!"{n / size}{name}" else s!"{n / size}.{decimals width (n % size)}{name}"

-- In the greatest unit that fits at least once.
def text (d : Duration) : String :=
  let n := d.nanoseconds
  if 1000000000 ≤ n then withUnit n 1000000000 9 "s"
  else if 1000000 ≤ n then withUnit n 1000000 6 "ms"
  else if 1000 ≤ n then withUnit n 1000 3 "µs"
  else s!"{n}ns"

end Duration
end AirRelease
