import AirRelease.Yaml.Token.Block
import AirRelease.Yaml.Token.Plain
import AirRelease.Yaml.Token.Quoted
import AirRelease.Yaml.Token.Tag

namespace AirRelease.Yaml

inductive Token
  | streamEnd
  | directive (d : Directive)
  | documentStart
  | documentEnd
  | blockSequenceStart
  | blockMappingStart
  | blockEnd
  | flowSequenceStart
  | flowSequenceEnd
  | flowMappingStart
  | flowMappingEnd
  | blockEntry
  | flowEntry
  | key
  | value
  | reference (name : String)
  | anchor (name : String)
  | tag (t : Tag)
  | scalar (text : String) (plain : Bool)

namespace Token

-- A token that may turn out to begin a key. In a block mapping it has to, if it stands where the keys
-- of the mapping do.
structure Candidate where
  required : Bool
  -- How many tokens are before it.
  number : Nat
  place : Cursor

-- A key is only known as one by the colon behind it, so that tokens are held back as long as a `key` token
-- may have to be put before them.
structure Reader where
  cursor : Cursor
  -- The column of the innermost block collection and those of the collections around it.
  indent : Int
  outer : List Int
  -- Whether a key may begin here.
  keyAllowed : Bool
  -- The candidate of each flow collection around, innermost first, and of the block around them.
  candidates : List (Option Candidate)
  -- How many tokens have been handed over, and those that are held back.
  ready : Nat
  held : List Token

namespace Reader

def start (cs : List Char) : Reader :=
  ⟨.start cs, -1, [], true, [none], 0, []⟩

def inFlow (r : Reader) : Bool :=
  1 < r.candidates.length

def push (r : Reader) (t : Token) : Reader :=
  { r with held := r.held ++ [t] }

-- Puts a token before the one that has the given number.
def insert (r : Reader) (number : Nat) (t : Token) : Reader :=
  let i := number - r.ready
  { r with held := r.held.take i ++ t :: r.held.drop i }

def skip (r : Reader) (n : Nat) : Reader :=
  { r with cursor := r.cursor.skip n }

def allowKey (r : Reader) (allowed : Bool) : Reader :=
  { r with keyAllowed := allowed }

-- A key is on one line and not longer than this.
def maxKeyLength : Nat :=
  1024

def Candidate.Stale (k : Candidate) (c : Cursor) : Prop :=
  k.place.line < c.line ∨ k.place.index + maxKeyLength < c.index

instance (k : Candidate) (c : Cursor) : Decidable (Candidate.Stale k c) :=
  inferInstanceAs (Decidable (_ ∨ _))

-- A token that had to begin a key and did not is a fault.
def dropStale? (r : Reader) : Option Reader := do
  let candidates ← r.candidates.mapM fun candidate =>
    match candidate with
    | some k => if Candidate.Stale k r.cursor then if k.required then none else some none else some (some k)
    | none => some none
  return { r with candidates }

def dropCandidate? (r : Reader) : Option Reader :=
  match r.candidates with
  | some k :: around => if k.required then none else some { r with candidates := none :: around }
  | _ => some r

-- The token that begins here may be a key.
def markCandidate? (r : Reader) : Option Reader := do
  if !r.keyAllowed then return r
  let r ← r.dropCandidate?
  let k : Candidate := {
    required := !r.inFlow && r.indent = r.cursor.column
    number := r.ready + r.held.length
    place := r.cursor
  }
  return { r with candidates := some k :: r.candidates.drop 1 }

-- Begins a block collection at a column that is farther right.
def openBlock (r : Reader) (column : Nat) (number : Option Nat) (t : Token) : Reader :=
  if r.inFlow || column ≤ r.indent then r
  else
    let r := { r with indent := column, outer := r.indent :: r.outer }
    match number with
    | some n => r.insert n t
    | none => r.push t

def closeBlocks (r : Reader) (column : Int) : Reader :=
  if r.inFlow then r else go r.outer r
where
  go : List Int → Reader → Reader
    | [], r => r
    | i :: outer, r =>
      if column < r.indent then go outer ({ r with indent := i, outer }.push blockEnd) else r

-- Passes blanks, comments and line breaks. Tabs do not count as blanks where a key may begin.
def skipToToken (r : Reader) : Nat → Reader
  | 0 => r
  | fuel + 1 =>
    let c := if r.cursor.index = 0 && r.cursor.rest.head? = some '\ufeff' then r.cursor.skip 1 else r.cursor
    let tabs := r.inFlow || !r.keyAllowed
    let c := c.skipWhile fun d => d = ' ' || (tabs && d = '\t')
    let c := if c.rest.head? = some '#' then c.skipToBreak else c
    match c.readBreak? with
    | some (_, c) =>
      skipToToken { r with cursor := c, keyAllowed := r.keyAllowed || !r.inFlow } fuel
    | none => { r with cursor := c }

def readEnd? (r : Reader) : Option Reader := do
  let c := r.cursor
  let c := if c.column = 0 then c else { c with line := c.line + 1, column := 0 }
  let r ← ({ r with cursor := c }.closeBlocks (-1)).dropCandidate?
  return (r.allowKey false).push streamEnd

def readDirective? (r : Reader) : Option Reader := do
  let r ← (r.closeBlocks (-1)).dropCandidate?
  let (d, c) ← Directive.ofCursor? r.cursor
  return ({ r with cursor := c }.allowKey false).push (directive d)

def readDocumentMark? (r : Reader) (t : Token) : Option Reader := do
  let r ← (r.closeBlocks (-1)).dropCandidate?
  return ((r.allowKey false).skip 3).push t

def readFlowStart? (r : Reader) (t : Token) : Option Reader := do
  let r ← r.markCandidate?
  return (({ r with candidates := none :: r.candidates }.allowKey true).skip 1).push t

def readFlowEnd? (r : Reader) (t : Token) : Option Reader := do
  let r ← r.dropCandidate?
  let r := if r.inFlow then { r with candidates := r.candidates.drop 1 } else r
  return ((r.allowKey false).skip 1).push t

def readFlowEntry? (r : Reader) : Option Reader := do
  let r ← r.dropCandidate?
  return ((r.allowKey true).skip 1).push flowEntry

-- Begins a block collection where an entry, a key or a value without a key is. Outside of flow
-- collections these may only be where a key may.
def openBlockHere? (r : Reader) (t : Token) : Option Reader :=
  if !r.inFlow && !r.keyAllowed then none else some (r.openBlock r.cursor.column none t)

def readBlockEntry? (r : Reader) : Option Reader := do
  let r ← (← r.openBlockHere? blockSequenceStart).dropCandidate?
  return ((r.allowKey true).skip 1).push blockEntry

def readKey? (r : Reader) : Option Reader := do
  let r ← (← r.openBlockHere? blockMappingStart).dropCandidate?
  return ((r.allowKey !r.inFlow).skip 1).push key

def readValue? (r : Reader) : Option Reader := do
  match r.candidates with
  | some k :: around =>
    let r := (r.insert k.number key).openBlock k.place.column (some k.number) blockMappingStart
    let r := { r with candidates := none :: around }
    return ((r.allowKey false).skip 1).push value
  | _ =>
    let r ← r.openBlockHere? blockMappingStart
    return ((r.allowKey !r.inFlow).skip 1).push value

-- What may follow the name of an anchor.
def endsName (cs : List Char) : Bool :=
  isGap cs || cs.head?.any "?:,]\x7d%@\x60".toList.contains

def readAnchor? (r : Reader) (t : String → Token) : Option Reader := do
  let r := (← r.markCandidate?).allowKey false
  let c := r.cursor.skip 1
  let name := c.rest.takeWhile isNameChar
  let c := c.skip name.length
  if name = [] || !endsName c.rest then none
  return { r with cursor := c }.push (t (String.ofList name))

def readTag? (r : Reader) : Option Reader := do
  let r := (← r.markCandidate?).allowKey false
  let (t, c) ← Tag.ofCursor? r.inFlow r.cursor
  return { r with cursor := c }.push (tag t)

def readBlock? (r : Reader) (folded : Bool) : Option Reader := do
  let r := (← r.dropCandidate?).allowKey true
  let (text, c) ← Block.ofCursor? folded r.indent r.cursor
  return { r with cursor := c }.push (scalar (String.ofList text) false)

def readQuoted? (r : Reader) (single : Bool) : Option Reader := do
  let r := (← r.markCandidate?).allowKey false
  let (text, c) ← Quoted.ofCursor? single r.cursor
  return { r with cursor := c }.push (scalar (String.ofList text) false)

def readPlain? (r : Reader) : Option Reader := do
  let r := (← r.markCandidate?).allowKey false
  let s ← Plain.ofCursor? r.inFlow (r.indent + 1).toNat r.cursor
  return ({ r with cursor := s.cursor }.allowKey s.lineEnded).push (scalar (String.ofList s.text) true)

-- Reads the token that begins with this character, along with those that come before it.
def readToken? (r : Reader) (first : Char) (rest : List Char) : Option Reader :=
  let flow := r.inFlow
  if r.cursor.column = 0 && first = '%' then r.readDirective?
  else if r.cursor.atMarks '-' then r.readDocumentMark? documentStart
  else if r.cursor.atMarks '.' then r.readDocumentMark? documentEnd
  else
    match first with
    | '[' => r.readFlowStart? flowSequenceStart
    | '\x7b' => r.readFlowStart? flowMappingStart
    | ']' => r.readFlowEnd? flowSequenceEnd
    | '\x7d' => r.readFlowEnd? flowMappingEnd
    | ',' => r.readFlowEntry?
    | '*' => r.readAnchor? reference
    | '&' => r.readAnchor? anchor
    | '!' => r.readTag?
    | '\'' => r.readQuoted? true
    | '"' => r.readQuoted? false
    | '-' => if isGap rest then r.readBlockEntry? else r.readPlain?
    | '?' => if flow || isGap rest then r.readKey? else r.readPlain?
    | ':' => if flow || isGap rest then r.readValue? else r.readPlain?
    | '|' => if flow then none else r.readBlock? false
    | '>' => if flow then none else r.readBlock? true
    | '#' | '%' | '@' | '\x60' => none
    | c => if isBlank c || isBreak c then none else r.readPlain?

def step? (r : Reader) : Option Reader := do
  let r ← (r.skipToToken (r.cursor.rest.length + 1)).dropStale?
  let r := r.closeBlocks r.cursor.column
  let r ← match r.cursor.rest with
    | [] => r.readEnd?
    | first :: rest => r.readToken? first rest
  r.dropStale?

-- The tokens that are no longer held back.
def handOver (r : Reader) : List Token × Reader :=
  let first := (r.candidates.filterMap id).foldl (fun n k => min n k.number) (r.ready + r.held.length)
  let n := first - r.ready
  (r.held.take n, { r with ready := first, held := r.held.drop n })

end Reader

def isStreamEnd : Token → Bool
  | streamEnd => true
  | _ => false

-- The tokens of the text up to the first fault.
def tokens (r : Reader) : Nat → List Token
  | 0 => []
  | fuel + 1 =>
    match r.step? with
    | none => []
    | some r =>
      let (ts, r) := r.handOver
      if ts.any isStreamEnd then ts else ts ++ tokens r fuel

def isAllowed (c : Char) : Bool :=
  let n := c.toNat
  n = 0x09 || n = 0x0a || n = 0x0d || (0x20 ≤ n && n ≤ 0x7e) || n = 0x85 ||
  (0xa0 ≤ n && n ≠ 0xfffe && n ≠ 0xffff)

-- A text with a control character has no tokens. A byte order mark at its start does not count.
def ofText (text : String) : List Token :=
  let cs := match text.toList with
    | '\ufeff' :: cs => cs
    | cs => cs
  if cs.all isAllowed then tokens (.start cs) (cs.length + 2) else []

end Token
end AirRelease.Yaml
