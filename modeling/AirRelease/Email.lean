import AirRelease.Name
import AirRelease.Text.Lowercase

namespace AirRelease

-- Addresses name accounts. They are kept in lower case, so that case never tells two accounts apart.
structure Email where
  text : String
deriving DecidableEq

namespace Email

-- One at sign with something on both sides and no blanks.
def wellFormed (cs : List Char) : Bool :=
  match cs.span (· ≠ '@') with
  | (user, _ :: domain) => user ≠ [] && domain ≠ [] && !domain.contains '@' && !cs.any Text.isBlank
  | (_, []) => false

def ofText (text : String) : Except NameError Email :=
  let cs := Text.trim text.toList
  if wellFormed cs then .ok ⟨String.ofList (Text.lowercase cs)⟩ else .error (.badEmail text)

-- Accounts are listed by their text, character by character.
instance : LT Email :=
  ⟨fun a b => a.text < b.text⟩

instance (a b : Email) : Decidable (a < b) :=
  inferInstanceAs (Decidable (a.text < b.text))

theorem lt_irrefl (a : Email) : ¬a < a :=
  String.lt_irrefl a.text

theorem lt_trans {a b c : Email} (h₁ : a < b) (h₂ : b < c) : a < c :=
  String.lt_trans h₁ h₂

theorem eq_or_lt_of_not_lt {a b : Email} (h : ¬a < b) : a = b ∨ b < a := by
  have h : b.text ≤ a.text := String.not_lt.mp h
  by_cases g : b.text < a.text
  · exact .inr g
  · left
    cases a; cases b
    exact congrArg Email.mk (String.le_antisymm (String.not_lt.mp g) h)

end Email
end AirRelease
