import AirRelease.Text.CaseTable

namespace AirRelease.Text

def lowerChar (c : Char) : List Char :=
  if c.toNat < 0x80 then [c.toLower]
  else if c = 'İ' then ['i', '\u0307']
  else match caseRuns.find? (·.Covers c.toNat) with
    | some r => [Char.ofNat (c.toNat + r.shift).toNat]
    | none => [c]

-- Past the characters that are skipped, the next one is a letter with case.
def meetsCased (cs : List Char) : Bool :=
  match cs.dropWhile fun c => inRanges caseIgnorableRanges c.toNat with
  | [] => false
  | c :: _ => inRanges casedRanges c.toNat

def lowercase (cs : List Char) : List Char :=
  go [] cs
where
  -- `before` holds what has been passed, nearest first.
  go (before : List Char) : List Char → List Char
    | [] => []
    | c :: rest => lowered before c rest ++ go (c :: before) rest
  lowered (before : List Char) (c : Char) (rest : List Char) : List Char :=
    if c = 'Σ' then [if meetsCased before && !meetsCased rest then 'ς' else 'σ'] else lowerChar c

end AirRelease.Text
