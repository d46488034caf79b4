import AirRelease.Text.Blank
import AirRelease.VersionRange.Requirement

namespace AirRelease
namespace VersionRange

def isOperator (c : Char) : Bool :=
  c = '<' || c = '>' || c = '=' || c = '~' || c = '^'

def splitBars : List Char → List (List Char)
  | [] => [[]]
  | '|' :: '|' :: rest => [] :: splitBars rest
  | c :: rest =>
    match splitBars rest with
    | [] => [[c]]
    | part :: parts => (c :: part) :: parts

-- The texts before and after the first hyphen with a space on both sides.
def splitHyphen? : List Char → Option (List Char × List Char)
  | [] => none
  | ' ' :: '-' :: ' ' :: rest => some ([], rest)
  | c :: rest => (splitHyphen? rest).map fun (low, high) => (c :: low, high)

-- Joins bare operators to the version that follows them. An operator that no version follows leaves
-- nothing.
def glue? (tokens : List (List Char)) : Option (List (List Char)) :=
  go [] tokens
where
  go (pending : List Char) : List (List Char) → Option (List (List Char))
    | [] => if pending = [] then some [] else none
    | token :: rest =>
      if token.all isOperator then go (pending ++ token) rest
      else (go [] rest).map ((pending ++ token) :: ·)

def isBound (cs : List Char) : Bool :=
  match cs with
  | [] => false
  | c :: _ => !isOperator c && Requirement.accepts ('=' :: cs)

def isComparatorList (cs : List Char) : Bool :=
  match glue? (Text.words cs) with
  | none | some [] => false
  | some tokens => Requirement.accepts ([',', ' '].intercalate tokens)

def isAlternative (cs : List Char) : Bool :=
  cs ≠ [] &&
  match splitHyphen? cs with
  | some (low, high) => isBound (Text.trim low) && isBound (Text.trim high)
  | none => isComparatorList cs

def isRange (cs : List Char) : Bool :=
  cs ≠ [] && (splitBars cs).all fun alternative => isAlternative (Text.trim alternative)

end VersionRange

-- The binary versions that a release targets. The text is kept as it was given, without surrounding blanks.
@[ext]
structure VersionRange where
  text : String
  trimmed : Text.trim text.toList = text.toList
  valid : VersionRange.isRange text.toList
deriving DecidableEq

structure VersionRangeError where
  text : String
deriving DecidableEq

def VersionRangeError.message (e : VersionRangeError) : String :=
  s!"invalid semver range: '{e.text}'"

namespace VersionRange

def ofText (text : String) : Except VersionRangeError VersionRange :=
  let cs := Text.trim text.toList
  if h : isRange cs then
    .ok ⟨String.ofList cs, by simp [cs, Text.trim_trim], by simpa using h⟩
  else .error ⟨text⟩

theorem ofText_text (v : VersionRange) : ofText v.text = .ok v := by
  cases v
  simp_all [ofText]

end VersionRange
end AirRelease
