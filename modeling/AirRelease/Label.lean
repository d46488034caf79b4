import AirRelease.Text.Digits

namespace AirRelease

structure Label where
  text : String
deriving DecidableEq

inductive LabelError
  | empty
  | missingMark (text : String)
  | badNumber (text : String)
deriving DecidableEq

def LabelError.message : LabelError → String
  | .empty => "label cannot be empty"
  | .missingMark text => s!"label '{text}' must start with 'v'"
  | .badNumber text => s!"label '{text}' must be 'v' followed by a positive integer"

namespace Label

def maxNumber : Nat :=
  UInt64.size - 1

def ofNumber (n : Nat) : Label :=
  ⟨String.ofList ('v' :: Text.writeDecimal n)⟩

-- The label of a deployment's first release, also after its history has been cleared.
def first : Label :=
  ofNumber 1

def number (l : Label) : Except LabelError Nat :=
  match l.text.toList with
  | [] => .error .empty
  | 'v' :: digits =>
    match Text.decimal? digits with
    | some n => if 0 < n ∧ n ≤ maxNumber then .ok n else .error (.badNumber l.text)
    | none => .error (.badNumber l.text)
  | _ :: _ => .error (.missingMark l.text)

theorem number_ofNumber {n : Nat} (pos : 0 < n) (le : n ≤ maxNumber) :
    (ofNumber n).number = .ok n := by
  simp [number, ofNumber, Text.decimal?_writeDecimal, pos, le]

theorem number_first : first.number = .ok 1 :=
  number_ofNumber (by decide) (by decide)

-- The label after this one. There is none after the greatest number.
def next (l : Label) : Except LabelError Label := do
  let n ← l.number
  if n < maxNumber then .ok (ofNumber (n + 1)) else .error (.badNumber l.text)

theorem next_of_number {l : Label} {n : Nat} (h : l.number = .ok n) (lt : n < maxNumber) :
    l.next = .ok (ofNumber (n + 1)) := by
  simp [next, h, lt, bind, Except.bind]

end Label
end AirRelease
