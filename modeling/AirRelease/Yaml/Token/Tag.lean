import AirRelease.Text.Digits
import AirRelease.Yaml.Cursor

namespace AirRelease.Yaml

-- A handle stands for the beginning of a tag.
structure Tag where
  handle : String
  suffix : String
deriving DecidableEq

namespace Tag

def isUriChar (c : Char) : Bool :=
  isNameChar c || ";/?:@&=+$.!~*'()%".toList.contains c

-- Within `<` and `>` and in directives, the marks of flow sequences may stand too.
def isWideUriChar (c : Char) : Bool :=
  isUriChar c || c = ',' || c = '[' || c = ']'

-- The bytes of a text in which some are written as a percent sign and two digits.
def unescape? : List Char → Option (List UInt8)
  | [] => some []
  | '%' :: a :: b :: rest => do
    return (← Text.hex? [a, b]).toUInt8 :: (← unescape? rest)
  | c :: rest => do
    if c = '%' then none
    return c.toNat.toUInt8 :: (← unescape? rest)

def uri? (wide : Bool) (c : Cursor) : Option (String × Cursor) := do
  let written := c.rest.takeWhile fun d => if wide then isWideUriChar d else isUriChar d
  let bytes ← unescape? written
  let text ← String.fromUTF8? ⟨bytes.toArray⟩
  return (text, c.skip written.length)

-- Marks on both sides make a handle, and so does a single mark.
def handleAt (c : Cursor) : List Char :=
  match c.rest with
  | '!' :: rest =>
    let name := rest.takeWhile isNameChar
    if (rest.drop name.length).head? = some '!' then '!' :: name ++ ['!'] else '!' :: name
  | _ => []

-- A tag that is written in full.
def verbatim? (c : Cursor) : Option (Tag × Cursor) := do
  let (uri, c) ← uri? true (c.skip 2)
  if uri = "" ∨ c.rest.head? ≠ some '>' then none else some (⟨"", uri⟩, c.skip 1)

def shorthand? (c : Cursor) : Option (Tag × Cursor) := do
  let start := handleAt c
  if 2 ≤ start.length ∧ start.getLast? = some '!' then
    let (uri, c) ← uri? false (c.skip start.length)
    if uri = "" then none else some (⟨String.ofList start, uri⟩, c)
  else
    let (uri, c) ← uri? false (c.skip 1)
    return (if uri = "" then ⟨"", "!"⟩ else ⟨"!", uri⟩, c)

-- The cursor is at the mark that begins the tag.
def ofCursor? (flow : Bool) (c : Cursor) : Option (Tag × Cursor) := do
  let (tag, c) ← if c.rest[1]? = some '<' then verbatim? c else shorthand? c
  if isGap c.rest || (flow && c.rest.head? = some ',') then some (tag, c) else none

end Tag

inductive Directive
  | version (major minor : Nat)
  -- Lets a handle stand for the beginning of a tag.
  | handle (name start : String)

namespace Directive

def maxDigits : Nat :=
  9

def number? (c : Cursor) : Option (Nat × Cursor) :=
  let digits := c.rest.takeWhile Char.isDigit
  if digits = [] ∨ maxDigits < digits.length then none
  else some (Nat.ofDigitChars 10 digits 0, c.skip digits.length)

def version? (c : Cursor) : Option (Directive × Cursor) := do
  let (major, c) ← number? c.skipBlanks
  if c.rest.head? ≠ some '.' then none
  let (minor, c) ← number? (c.skip 1)
  return (version major minor, c)

def handle? (c : Cursor) : Option (Directive × Cursor) := do
  let c := c.skipBlanks
  let name := Tag.handleAt c
  if name = [] ∨ (name ≠ ['!'] ∧ (name.length < 2 ∨ name.getLast? ≠ some '!')) then none
  let c := c.skip name.length
  if !c.rest.head?.any isBlank then none
  let (start, c) ← Tag.uri? true c.skipBlanks
  if start = "" ∨ !isGap c.rest then none
  return (handle (String.ofList name) start, c)

-- The cursor is at the percent sign. A comment may follow on the line.
def ofCursor? (c : Cursor) : Option (Directive × Cursor) := do
  let c := c.skip 1
  let name := c.rest.takeWhile isNameChar
  let c := c.skip name.length
  if !isGap c.rest then none
  let (d, c) ←
    if name = "YAML".toList then version? c
    else if name = "TAG".toList then handle? c
    else none
  let c := c.skipBlanks
  let c := if c.rest.head? = some '#' then c.skipToBreak else c
  if c.rest = [] then some (d, c) else c.readBreak?.map fun (_, c) => (d, c)

end Directive
end AirRelease.Yaml
