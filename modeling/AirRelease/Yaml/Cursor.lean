namespace AirRelease.Yaml

-- A space or a tab.
def isBlank (c : Char) : Bool :=
  c = ' ' || c = '\t'

def isBreak (c : Char) : Bool :=
  c = '\n' || c = '\r' || c = '\u0085' || c = '\u2028' || c = '\u2029'

def isNameChar (c : Char) : Bool :=
  c.isAlphanum || c = '_' || c = '-'

-- Whether nothing, a blank or a line break is at the start.
def isGap : List Char → Bool
  | [] => true
  | c :: _ => isBlank c || isBreak c

structure Cursor where
  rest : List Char
  line : Nat
  column : Nat
  -- How many characters have been passed.
  index : Nat

namespace Cursor

def start (cs : List Char) : Cursor :=
  ⟨cs, 0, 0, 0⟩

-- Passes characters of the current line.
def skip (c : Cursor) (n : Nat) : Cursor :=
  { c with rest := c.rest.drop n, column := c.column + n, index := c.index + n }

def skipWhile (c : Cursor) (p : Char → Bool) : Cursor :=
  c.skip (c.rest.takeWhile p).length

def skipBlanks (c : Cursor) : Cursor :=
  c.skipWhile isBlank

def skipToBreak (c : Cursor) : Cursor :=
  c.skipWhile (!isBreak ·)

-- Passes a line break, if there is one here, and gives the character that stands for it.
def readBreak? (c : Cursor) : Option (Char × Cursor) :=
  match c.rest with
  | '\r' :: '\n' :: rest => some ('\n', ⟨rest, c.line + 1, 0, c.index + 2⟩)
  | b :: rest =>
    if isBreak b then
      some (if b = '\u2028' ∨ b = '\u2029' then b else '\n', ⟨rest, c.line + 1, 0, c.index + 1⟩)
    else none
  | [] => none

-- Whether a line with three of these marks begins here.
def atMarks (c : Cursor) (mark : Char) : Bool :=
  c.column = 0 && c.rest.take 3 = [mark, mark, mark] && isGap (c.rest.drop 3)

-- Whether a document begins or ends here.
def atDocumentMark (c : Cursor) : Bool :=
  c.atMarks '-' || c.atMarks '.'

end Cursor

-- The blanks and the line breaks between two pieces of a scalar. Blanks count up to the first break.
structure Gap where
  blanks : List Char
  breaks : List Char

namespace Gap

def empty : Gap :=
  ⟨[], []⟩

-- A single line break becomes a space. Of several, the first one is dropped.
def fold : List Char → List Char
  | [] => []
  | ['\n'] => [' ']
  | '\n' :: breaks => breaks
  | breaks => breaks

def text (g : Gap) : List Char :=
  if g.breaks = [] then g.blanks else fold g.breaks

def addBlank (g : Gap) (b : Char) : Gap :=
  if g.breaks = [] then { g with blanks := g.blanks ++ [b] } else g

-- Reads on after `g`. On a new line, tabs may only stand from the column `tabs` on.
def read? (tabs : Nat) (g : Gap) (c : Cursor) : Nat → Option (Gap × Cursor)
  | 0 => some (g, c)
  | fuel + 1 =>
    match c.readBreak? with
    | some (b, c) => read? tabs { g with breaks := g.breaks ++ [b] } c fuel
    | none =>
      match c.rest with
      | ' ' :: _ => read? tabs (g.addBlank ' ') (c.skip 1) fuel
      | '\t' :: _ =>
        if g.breaks ≠ [] ∧ c.column < tabs then none
        else read? tabs (g.addBlank '\t') (c.skip 1) fuel
      | _ => some (g, c)

end Gap
end AirRelease.Yaml
