import AirRelease.Yaml.Cursor

namespace AirRelease.Yaml.Plain

def isFlowMark (c : Char) : Bool :=
  c = ',' || c = '[' || c = ']' || c = '\x7b' || c = '\x7d'

-- A run of characters without blanks, up to what may end the scalar. In a flow collection, a colon
-- right before a mark of the collection is refused.
def run? (flow : Bool) : List Char → Option (List Char)
  | [] => some []
  | c :: rest =>
    if isBlank c || isBreak c then some []
    else if flow && c = ':' && rest.head?.any (fun d => isFlowMark d || d = '?') then none
    else if (c = ':' && isGap rest) || (flow && isFlowMark c) then some []
    else (run? flow rest).map (c :: ·)

structure Scan where
  text : List Char
  -- Whether the scalar's last line has ended.
  lineEnded : Bool
  cursor : Cursor

-- Reads on after a gap. Lines that continue the scalar are indented by `indent` at least.
def read? (flow : Bool) (indent : Nat) (text : List Char) (gap : Gap) (c : Cursor) :
    Nat → Option Scan
  | 0 => none
  | fuel + 1 =>
    if c.atDocumentMark || c.rest.head? = some '#' then some ⟨text, gap.breaks ≠ [], c⟩
    else
      match run? flow c.rest with
      | none => none
      | some [] => some ⟨text, gap.breaks ≠ [], c⟩
      | some run =>
        let text := text ++ gap.text ++ run
        let c := c.skip run.length
        if c.rest = [] || !isGap c.rest then some ⟨text, false, c⟩
        else
          match Gap.read? indent .empty c (c.rest.length + 1) with
          | none => none
          | some (gap, c) =>
            if !flow && c.column < indent then some ⟨text, gap.breaks ≠ [], c⟩
            else read? flow indent text gap c fuel

def ofCursor? (flow : Bool) (indent : Nat) (c : Cursor) : Option Scan :=
  read? flow indent [] .empty c (c.rest.length + 1)

end AirRelease.Yaml.Plain
