namespace AirRelease.Text

-- Reads one or more ASCII digits; leading zeros are allowed.
def decimal? (cs : List Char) : Option Nat :=
  if cs = [] ∨ ¬cs.all Char.isDigit then none else some (Nat.ofDigitChars 10 cs 0)

def writeDecimal (n : Nat) : List Char :=
  Nat.toDigits 10 n

theorem writeDecimal_eq_repr (n : Nat) : writeDecimal n = n.repr.toList := by
  simp [writeDecimal, Nat.repr_eq_ofList_toDigits]

theorem writeDecimal_ne_nil (n : Nat) : writeDecimal n ≠ [] :=
  Nat.toDigits_ne_nil

theorem all_isDigit_writeDecimal (n : Nat) : (writeDecimal n).all Char.isDigit := by
  simp only [writeDecimal, List.all_eq_true]
  exact fun c h => Nat.isDigit_of_mem_toDigits (by decide) (by decide) h

theorem decimal?_writeDecimal (n : Nat) : decimal? (writeDecimal n) = some n := by
  have h := all_isDigit_writeDecimal n
  simp only [decimal?, writeDecimal_ne_nil, h, false_or, not_true_eq_false, if_false]
  simp [writeDecimal, Nat.ofDigitChars_ten_toDigits]

def hexDigit (n : Nat) : Char :=
  Nat.digitChar (n % 16)

def hexValue? (c : Char) : Option Nat :=
  if c.isDigit then some (c.toNat - '0'.toNat)
  else if 'a' ≤ c ∧ c ≤ 'f' then some (c.toNat - 'a'.toNat + 10)
  else if 'A' ≤ c ∧ c ≤ 'F' then some (c.toNat - 'A'.toNat + 10)
  else none

-- The number that a list of digits stands for.
def hex? (cs : List Char) : Option Nat := do
  return (← cs.mapM hexValue?).foldl (16 * · + ·) 0

end AirRelease.Text
