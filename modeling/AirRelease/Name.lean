import AirRelease.Text.Blank

namespace AirRelease

namespace Text

def shownBody (c : Char) : String :=
  match c with
  | '\x00' => "\\0"
  | '\t' => "\\t"
  | '\n' => "\\n"
  | '\r' => "\\r"
  | '\'' => "\\'"
  | '\\' => "\\\\"
  | c => if c.toNat < 0x20 || (0x7f ≤ c.toNat && c.toNat < 0xa0) then "\\u\x7b" ++ code c ++ "\x7d"
    else c.toString
where
  code (c : Char) : String :=
    String.ofList (Nat.toDigits 16 c.toNat)

def shown (c : Char) : String :=
  "'" ++ shownBody c ++ "'"

end Text

inductive NameError
  | empty
  | tooLong
  | surroundingBlank
  | badCharacter (c : Char)
  | badEmail (text : String)
deriving DecidableEq

def NameError.message : NameError → String
  | .empty => "name cannot be empty"
  | .tooLong => "name exceeds maximum length of 128 characters"
  | .surroundingBlank => "name cannot start or end with whitespace"
  | .badCharacter c => s!"invalid character in name: {Text.shown c}"
  | .badEmail text => s!"invalid email address: '{text}'"

namespace Name

def maxLength : Nat :=
  128

-- The first thing that is wrong with a name.
def fault? (text : String) : Option NameError :=
  let cs := text.toList
  if cs = [] then some .empty
  else if maxLength < cs.length then some .tooLong
  else if Text.trim cs ≠ cs then some .surroundingBlank
  else (cs.find? Text.isControl).map .badCharacter

end Name

@[ext]
structure Name where
  text : String
  faultless : Name.fault? text = none
deriving DecidableEq

namespace Name

def ofText (text : String) : Except NameError Name :=
  match h : fault? text with
  | none => .ok ⟨text, h⟩
  | some e => .error e

theorem ofText_text (n : Name) : ofText n.text = .ok n := by
  unfold ofText
  split
  · rfl
  · simp_all [n.faultless]

end Name

structure AccessKey where
  text : String
deriving DecidableEq

namespace AccessKey

def isKeyChar (c : Char) : Bool :=
  c.isAlphanum || c = '-' || c = '_'

-- Whether the key can stand in a file's name without leading elsewhere.
def PathSafe (k : AccessKey) : Prop :=
  k.text ≠ "" ∧ k.text.toList.all isKeyChar

instance : DecidablePred PathSafe :=
  fun _ => inferInstanceAs (Decidable (_ ∧ _))

end AccessKey
end AirRelease
