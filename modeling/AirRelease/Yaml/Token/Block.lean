import AirRelease.Yaml.Cursor

namespace AirRelease.Yaml.Block

-- What becomes of the line breaks at the end.
inductive Chomp
  | strip
  | clip
  | keep
deriving DecidableEq

structure Header where
  chomp : Chomp
  -- The indentation of the lines beyond that of what is around the scalar, if it is given.
  indent : Option Nat

def chomp? : Char → Option Chomp
  | '-' => some .strip
  | '+' => some .keep
  | _ => none

def indent? (c : Char) : Option Nat :=
  if c.isDigit ∧ c ≠ '0' then some (c.toNat - '0'.toNat) else none

-- The two indicators may come in any order. An indentation of zero is refused.
def header? (c : Cursor) : Option (Header × Cursor) :=
  match c.rest with
  | a :: b :: _ =>
    match chomp? a, chomp? b with
    | some chomp, _ =>
      if b.isDigit then (indent? b).map fun n => (⟨chomp, some n⟩, c.skip 2)
      else some (⟨chomp, none⟩, c.skip 1)
    | none, some chomp =>
      if a.isDigit then (indent? a).map fun n => (⟨chomp, some n⟩, c.skip 2)
      else some (⟨.clip, none⟩, c)
    | none, none =>
      if a.isDigit then (indent? a).map fun n => (⟨.clip, some n⟩, c.skip 1)
      else some (⟨.clip, none⟩, c)
  | [a] =>
    match chomp? a with
    | some chomp => some (⟨chomp, none⟩, c.skip 1)
    | none =>
      if a.isDigit then (indent? a).map fun n => (⟨.clip, some n⟩, c.skip 1)
      else some (⟨.clip, none⟩, c)
  | [] => some (⟨.clip, none⟩, c)

-- The rest of the line, with its break, holds nothing but a comment.
def endOfLine? (c : Cursor) : Option Cursor :=
  let c := c.skipBlanks
  let c := if c.rest.head? = some '#' then c.skipToBreak else c
  if c.rest = [] then some c else c.readBreak?.map (·.2)

structure Blanks where
  breaks : List Char
  -- The greatest column that the spaces have reached.
  column : Nat
  cursor : Cursor

-- Empty lines and the spaces of the indentation. Without an indentation, all spaces count to it. There
-- are no tabs in it.
def blanks? (indent : Option Nat) (breaks : List Char) (column : Nat) (c : Cursor) :
    Nat → Option Blanks
  | 0 => none
  | fuel + 1 =>
    let spaces := (c.rest.takeWhile (· = ' ')).length
    let c := c.skip (indent.elim spaces fun n => min spaces (n - c.column))
    let column := max column c.column
    if (indent.all fun n => c.column < n) && c.rest.head? = some '\t' then none
    else
      match c.readBreak? with
      | none => some ⟨breaks, column, c⟩
      | some (b, c) => blanks? indent (breaks ++ [b]) column c fuel

-- The text so far, with the break and the empty lines after it.
structure Scan where
  text : List Char
  lastBreak : List Char
  breaks : List Char
  -- Whether the last line begins with a blank.
  blankLine : Bool
  cursor : Cursor

-- What stands between the last line and one that begins with a blank or not. In a folded scalar, lines
-- without blanks at their start are joined by spaces.
def Scan.gap (s : Scan) (folded blankLine : Bool) : List Char :=
  if folded && s.lastBreak = ['\n'] && !s.blankLine && !blankLine then
    if s.breaks = [] then [' '] else s.breaks
  else s.lastBreak ++ s.breaks

def lines? (folded : Bool) (indent : Nat) (s : Scan) : Nat → Option Scan
  | 0 => none
  | fuel + 1 =>
    let c := s.cursor
    if c.column ≠ indent || c.rest = [] then some s
    else
      let blankLine := c.rest.head?.any isBlank
      let line := c.rest.takeWhile (!isBreak ·)
      let text := s.text ++ s.gap folded blankLine ++ line
      let c := c.skip line.length
      let (lastBreak, c) := match c.readBreak? with
        | some (b, c) => ([b], c)
        | none => ([], c)
      match blanks? (some indent) [] 0 c (c.rest.length + 1) with
      | none => none
      | some b => lines? folded indent ⟨text, lastBreak, b.breaks, blankLine, b.cursor⟩ fuel

-- The cursor is at the indicator. `outer` is the indentation of what is around the scalar.
def ofCursor? (folded : Bool) (outer : Int) (c : Cursor) : Option (List Char × Cursor) := do
  let (header, c) ← header? (c.skip 1)
  let c ← endOfLine? c
  let given := header.indent.map fun n => if 0 ≤ outer then outer.toNat + n else n
  let b ← blanks? given [] 0 c (c.rest.length + 1)
  let indent := given.getD (max b.column (max (outer + 1).toNat 1))
  let s ← lines? folded indent ⟨[], [], b.breaks, false, b.cursor⟩ (c.rest.length + 1)
  let text := match header.chomp with
    | .strip => s.text
    | .clip => s.text ++ s.lastBreak
    | .keep => s.text ++ s.lastBreak ++ s.breaks
  return (text, s.cursor)

end AirRelease.Yaml.Block
