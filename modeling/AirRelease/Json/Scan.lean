import AirRelease.Json

namespace AirRelease.Json

def isSpace (c : Char) : Bool :=
  c = ' ' || c = '\n' || c = '\t' || c = '\r'

def skipSpaces (cs : List Char) : List Char :=
  cs.dropWhile isSpace

def unescape? : Char → Option Char
  | '"' => some '"'
  | '\\' => some '\\'
  | '/' => some '/'
  | 'b' => some '\x08'
  | 'f' => some '\x0c'
  | 'n' => some '\n'
  | 'r' => some '\r'
  | 't' => some '\t'
  | _ => none

-- A character of a string, or a code unit that was escaped by its number.
inductive Piece
  | char (c : Char)
  | unit (n : Nat)

-- Reads up to the closing quote.
def scanString : List Char → Option (List Piece × List Char)
  | [] => none
  | '"' :: rest => some ([], rest)
  | '\\' :: 'u' :: a :: b :: c :: d :: rest => do
    let n ← Text.hex? [a, b, c, d]
    let (pieces, rest) ← scanString rest
    return (.unit n :: pieces, rest)
  | '\\' :: c :: rest => do
    let e ← unescape? c
    let (pieces, rest) ← scanString rest
    return (.char e :: pieces, rest)
  | c :: rest =>
    if c.toNat < 0x20 then none
    else do
      let (pieces, rest) ← scanString rest
      return (.char c :: pieces, rest)

def isHigh (n : Nat) : Bool :=
  0xd800 ≤ n && n < 0xdc00

def isLow (n : Nat) : Bool :=
  0xdc00 ≤ n && n < 0xe000

-- Joins the two halves of surrogate pairs. There is no text if one of them stands alone.
def joinPieces : List Piece → Option (List Char)
  | [] => some []
  | .char c :: rest => (joinPieces rest).map (c :: ·)
  | .unit high :: .unit low :: rest =>
    if isHigh high && isLow low then
      (joinPieces rest).map (Char.ofNat (0x10000 + (high - 0xd800) * 0x400 + (low - 0xdc00)) :: ·)
    else if isHigh high || isLow high then none
    else (joinPieces (.unit low :: rest)).map (Char.ofNat high :: ·)
  | .unit n :: rest =>
    if isHigh n || isLow n then none else (joinPieces rest).map (Char.ofNat n :: ·)

def stringText (pieces : List Piece) : Option String :=
  (joinPieces pieces).map String.ofList

-- One or more digits.
def digits? (cs : List Char) : Option (List Char × List Char) :=
  match cs.span Char.isDigit with
  | ([], _) => none
  | found => some found

def fraction? : List Char → Option (List Char × List Char)
  | '.' :: cs => (digits? cs).map fun (digits, rest) => ('.' :: digits, rest)
  | cs => some ([], cs)

def exponent? : List Char → Option (List Char × List Char)
  | e :: cs =>
    if e = 'e' ∨ e = 'E' then
      match cs with
      | '+' :: cs => (digits? cs).map fun (digits, rest) => (e :: '+' :: digits, rest)
      | '-' :: cs => (digits? cs).map fun (digits, rest) => (e :: '-' :: digits, rest)
      | cs => (digits? cs).map fun (digits, rest) => (e :: digits, rest)
    else some ([], e :: cs)
  | [] => some ([], [])

-- Digits without needless zeros in front.
def whole? (cs : List Char) : Option (List Char × List Char) :=
  match digits? cs with
  | some ('0' :: _ :: _, _) | none => none
  | some found => some found

def unsigned? (cs : List Char) : Option (List Char × List Char) := do
  let (whole, cs) ← whole? cs
  let (fraction, cs) ← fraction? cs
  let (exponent, cs) ← exponent? cs
  return (whole ++ fraction ++ exponent, cs)

def number? : List Char → Option (List Char × List Char)
  | '-' :: cs => (unsigned? cs).map fun (digits, rest) => ('-' :: digits, rest)
  | cs => unsigned? cs

-- A value that is written with letters or as a number.
def scanPlain : List Char → Option (Json × List Char)
  | 'n' :: 'u' :: 'l' :: 'l' :: rest => some (null, rest)
  | 't' :: 'r' :: 'u' :: 'e' :: rest => some (bool true, rest)
  | 'f' :: 'a' :: 'l' :: 's' :: 'e' :: rest => some (bool false, rest)
  | cs => (number? cs).map fun (digits, rest) => (number digits, rest)

-- What has been read, and the rest of the text unless it is damaged.
abbrev Scanned (α : Type) := α × Option (List Char)

mutual

-- Every item and every level takes some of the fuel.
def scanValue : Nat → List Char → Scanned Json
  | 0, _ => (broken, none)
  | fuel + 1, cs =>
    match skipSpaces cs with
    | '[' :: rest =>
      match skipSpaces rest with
      | ']' :: rest => (array [], some rest)
      | rest =>
        let (items, rest) := scanItems fuel rest
        (array items, rest)
    | '\x7b' :: rest =>
      match skipSpaces rest with
      | '\x7d' :: rest => (object [], some rest)
      | rest =>
        let (members, rest) := scanMembers fuel rest
        (object members, rest)
    | '"' :: rest =>
      match scanString rest with
      | some (pieces, rest) => (string (stringText pieces), some rest)
      | none => (broken, none)
    | cs =>
      match scanPlain cs with
      | some (j, rest) => (j, some rest)
      | none => (broken, none)

def scanItems : Nat → List Char → Scanned (List Json)
  | 0, _ => ([broken], none)
  | fuel + 1, cs =>
    match scanValue fuel cs with
    | (item, none) => ([item], none)
    | (item, some rest) =>
      match skipSpaces rest with
      | ',' :: rest =>
        let (items, rest) := scanItems fuel rest
        (item :: items, rest)
      | ']' :: rest => ([item], some rest)
      | _ => ([item, broken], none)

def scanMembers : Nat → List Char → Scanned (List (Option String × Json))
  | 0, _ => ([(none, broken)], none)
  | fuel + 1, cs =>
    match skipSpaces cs with
    | '"' :: rest =>
      match scanString rest with
      | none => ([(none, broken)], none)
      | some (pieces, rest) =>
        let key := stringText pieces
        match skipSpaces rest with
        | ':' :: rest =>
          match scanValue fuel rest with
          | (value, none) => ([(key, value)], none)
          | (value, some rest) =>
            match skipSpaces rest with
            | ',' :: rest =>
              let (members, rest) := scanMembers fuel rest
              ((key, value) :: members, rest)
            | '\x7d' :: rest => ([(key, value)], some rest)
            | _ => ([(key, value), (none, broken)], none)
        | _ => ([(key, broken)], none)
    | _ => ([(none, broken)], none)

end

-- The value that a text begins with, and whether nothing but the value is in the text.
def scan (text : String) : Json × Bool :=
  match scanValue (2 * text.length + 2) text.toList with
  | (j, some rest) => (j, skipSpaces rest = [])
  | (j, none) => (j, false)

end AirRelease.Json
