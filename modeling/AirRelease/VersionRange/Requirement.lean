import AirRelease.Text.Digits

namespace AirRelease.Requirement

def maxComponent : Nat :=
  UInt64.size - 1

def maxComparators : Nat :=
  32

def dropSpaces (cs : List Char) : List Char :=
  cs.dropWhile (· = ' ')

def isWildcard (c : Char) : Bool :=
  c = '*' || c = 'x' || c = 'X'

-- Only membership in the grammar matters, so each reader answers with what follows the part it has read.

-- A component of a version has no leading zeros.
def number? (cs : List Char) : Option (List Char) :=
  let digits := cs.takeWhile Char.isDigit
  match digits with
  | [] => none
  | '0' :: _ :: _ => none
  | _ =>
    if Nat.ofDigitChars 10 digits 0 ≤ maxComponent then some (cs.dropWhile Char.isDigit) else none

inductive Component
  | absent
  | wildcard
  | number
deriving DecidableEq

-- A component after the first one, with its point.
def component? : List Char → Option (Component × List Char)
  | '.' :: c :: rest =>
    if isWildcard c then some (.wildcard, rest) else (number? (c :: rest)).map (.number, ·)
  | ['.'] => none
  | cs => some (.absent, cs)

def isIdentifierChar (c : Char) : Bool :=
  c.isAlphanum || c = '-'

-- Segments of letters, digits and hyphens, joined by points. `strict` refuses a number with leading
-- zeros.
def identifier? (strict : Bool) (cs : List Char) : Option (List Char) :=
  let part (c : Char) := isIdentifierChar c || c = '.'
  if ((cs.takeWhile part).splitOn '.').all validSegment then some (cs.dropWhile part) else none
where
  validSegment (s : List Char) : Bool :=
    match s with
    | [] => false
    | '0' :: _ :: _ => !(strict && s.all Char.isDigit)
    | _ => true

-- What may follow a version with all three components.
def preRelease? : List Char → Option (List Char)
  | '-' :: rest => identifier? true rest
  | cs => some cs

def build? : List Char → Option (List Char)
  | '+' :: rest => identifier? false rest
  | cs => some cs

def dropOperator : List Char → List Char
  | '>' :: '=' :: rest | '<' :: '=' :: rest => rest
  | '=' :: rest | '>' :: rest | '<' :: rest | '~' :: rest | '^' :: rest => rest
  | cs => cs

def comparator? (cs : List Char) : Option (List Char) := do
  let cs ← number? (dropSpaces (dropOperator cs))
  let (minor, cs) ← component? cs
  let (patch, cs) ← component? cs
  match minor, patch with
  | .wildcard, .number => none
  | _, .number => return dropSpaces (← build? (← preRelease? cs))
  | _, _ => return dropSpaces cs

-- At most `n` comparators, with commas between them.
def comparators : Nat → List Char → Bool
  | 0, _ => false
  | n + 1, cs =>
    match comparator? cs with
    | some [] => true
    | some (',' :: rest) => comparators n (dropSpaces rest)
    | some _ => false
    | none => false

def accepts (cs : List Char) : Bool :=
  match dropSpaces cs with
  | [] => false
  | c :: rest => if isWildcard c then dropSpaces rest = [] else comparators maxComparators (c :: rest)

end AirRelease.Requirement
