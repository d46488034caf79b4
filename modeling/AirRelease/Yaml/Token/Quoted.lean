import AirRelease.Text.Digits
import AirRelease.Yaml.Cursor

namespace AirRelease.Yaml.Quoted

-- The character whose number is given by so many hexadecimal digits.
def code? (width : Nat) (cs : List Char) : Option Char := do
  if cs.length < width then none
  let n ← Text.hex? (cs.take width)
  if (0xd800 ≤ n ∧ n < 0xe000) ∨ 0x10ffff < n then none else some (Char.ofNat n)

-- The character that follows a backslash stands for, and how many characters are read.
def escape? : List Char → Option (Char × Nat)
  | [] => none
  | 'x' :: cs => (code? 2 cs).map (·, 3)
  | 'u' :: cs => (code? 4 cs).map (·, 5)
  | 'U' :: cs => (code? 8 cs).map (·, 9)
  | c :: _ => (escapes.lookup c).map (·, 1)
where
  escapes : List (Char × Char) := [
    ('0', '\x00'), ('a', '\x07'), ('b', '\x08'), ('t', '\t'), ('\t', '\t'), ('n', '\n'),
    ('v', '\x0b'), ('f', '\x0c'), ('r', '\r'), ('e', '\x1b'), (' ', ' '), ('"', '"'), ('/', '/'),
    ('\\', '\\'), ('N', '\u0085'), ('_', '\u00a0'), ('L', '\u2028'), ('P', '\u2029')
  ]

-- What ends a run of characters.
inductive Stop
  | quote
  | gap
  -- A line break behind a backslash, which joins the lines.
  | joint

-- A run of characters without blanks, and how much of the text it takes.
def run? (single : Bool) (cs : List Char) : Nat → Option (List Char × Nat × Stop)
  | 0 => none
  | fuel + 1 =>
    match cs with
    | [] => some ([], 0, .gap)
    | c :: rest =>
      if isBlank c || isBreak c then some ([], 0, .gap)
      else if single then
        if c ≠ '\'' then next c 1 rest fuel
        else if rest.head? = some '\'' then next c 2 (rest.drop 1) fuel
        else some ([], 0, .quote)
      else if c = '"' then some ([], 0, .quote)
      else if c = '\\' then
        if rest.head?.any isBreak then some ([], 1, .joint)
        else
          match escape? rest with
          | some (e, n) => next e (n + 1) (rest.drop n) fuel
          | none => none
      else next c 1 rest fuel
where
  next (c : Char) (n : Nat) (rest : List Char) (fuel : Nat) : Option (List Char × Nat × Stop) :=
    (run? single rest fuel).map fun (run, m, stop) => (c :: run, n + m, stop)

-- Reads on up to the closing quote.
def read? (single : Bool) (text : List Char) (c : Cursor) : Nat → Option (List Char × Cursor)
  | 0 => none
  | fuel + 1 =>
    if c.atDocumentMark || c.rest = [] then none
    else
      match run? single c.rest (c.rest.length + 1) with
      | none => none
      | some (run, n, stop) =>
        let text := text ++ run
        let c := c.skip n
        match stop with
        | .quote => some (text, c.skip 1)
        | .gap =>
          match Gap.read? 0 .empty c (c.rest.length + 1) with
          | none => none
          | some (gap, c) => read? single (text ++ gap.text) c fuel
        | .joint =>
          match Gap.read? 0 ⟨[], []⟩ c (c.rest.length + 1) with
          | none => none
          | some (gap, c) => read? single (text ++ gap.breaks.drop 1) c fuel

-- The cursor is at the opening quote.
def ofCursor? (single : Bool) (c : Cursor) : Option (List Char × Cursor) :=
  read? single [] (c.skip 1) (c.rest.length + 1)

end AirRelease.Yaml.Quoted
