import Mathlib.Algebra.Group.Nat.Defs
import AirRelease.Proofs.Label

namespace AirRelease

namespace Text

-- What ASCII digits are worth by their places, the last one being the ones.
def placeValue : List Char → Nat
  | [] => 0
  | c :: rest => (c.toNat - '0'.toNat) * 10 ^ rest.length + placeValue rest

-- There may be zeros in front, but there is at least one digit.
structure StandsFor (digits : List Char) (n : Nat) : Prop where
  nonempty : digits ≠ []
  ascii    : ∀ c ∈ digits, '0' ≤ c ∧ c ≤ '9'
  value    : placeValue digits = n

theorem ofDigitChars_eq_placeValue (digits : List Char) :
    Nat.ofDigitChars 10 digits 0 = placeValue digits := by
  induction digits with
  | nil => rfl
  | cons c rest ih =>
    rw [Nat.ofDigitChars_cons, Nat.ofDigitChars_eq_ofDigitChars_zero, ih, placeValue, Nat.mul_zero,
      Nat.zero_add, Nat.mul_comm]

theorem isDigit_iff {c : Char} : c.isDigit ↔ '0' ≤ c ∧ c ≤ '9' := by
  simp [Char.isDigit, Char.le_def]

end Text

namespace Label

variable {l k : Label} {n : Nat}

theorem spells_iff_standsFor :
    l.Spells n ↔ ∃ digits, l.text.toList = 'v' :: digits ∧ Text.StandsFor digits n := by
  constructor
  case mp =>
    intro ⟨digits, text, nonempty, ascii, value⟩
    exact ⟨digits, text, nonempty, fun c mem => Text.isDigit_iff.mp (ascii c mem),
      Text.ofDigitChars_eq_placeValue digits ▸ value⟩
  case mpr =>
    intro ⟨digits, text, stands⟩
    exact ⟨digits, text, stands.nonempty, fun c mem => Text.isDigit_iff.mpr (stands.ascii c mem),
      (Text.ofDigitChars_eq_placeValue digits).trans stands.value⟩

theorem spells_padded (zeros n : Nat) :
    Spells ⟨"v" ++ String.ofList (List.replicate zeros '0') ++ n.repr⟩ n := by
  refine ⟨List.replicate zeros '0' ++ Text.writeDecimal n, ?_, ?_, ?_, ?_⟩
  · simp only [String.toList_append, String.toList_ofList, Text.writeDecimal_eq_repr]
    rfl
  · simp [Text.writeDecimal_ne_nil]
  · intro c mem
    cases List.mem_append.mp mem with
    | inl zero => exact List.eq_of_mem_replicate zero ▸ rfl
    | inr digit => exact List.all_eq_true.mp (Text.all_isDigit_writeDecimal n) c digit
  · rw [Nat.ofDigitChars_append, Nat.ofDigitChars_replicate_zero, Nat.mul_zero]
    exact Nat.ofDigitChars_ten_toDigits

theorem number_of_next (next : l.next = .ok k) : ∃ n, l.number = .ok n ∧ k.number = .ok (n + 1) := by
  obtain ⟨n, numbered, lt, rfl⟩ := next_eq_ok.mp next
  exact ⟨n, numbered, number_ofNumber (Nat.succ_pos n) lt⟩

theorem number_and_next :
    (∀ (l : Label) (n : Nat), l.number = .ok n ↔
      ∃ digits, l.text.toList = 'v' :: digits ∧ Text.StandsFor digits n ∧ 1 ≤ n ∧ n ≤ 2 ^ 64 - 1) ∧
    (∀ zeros n : Nat, 1 ≤ n → n ≤ 2 ^ 64 - 1 →
      Label.number ⟨"v" ++ String.ofList (List.replicate zeros '0') ++ n.repr⟩ = .ok n) ∧
    (∀ n : Nat, 1 ≤ n → n ≤ 2 ^ 64 - 1 → (ofNumber n).number = .ok n) ∧
    (∀ l k : Label, l.next = .ok k ↔ ∃ n, l.number = .ok n ∧ n < 2 ^ 64 - 1 ∧ ofNumber (n + 1) = k) ∧
    ∀ l k : Label, l.next = .ok k → ∃ n, l.number = .ok n ∧ k.number = .ok (n + 1) := by
  have greatest : maxNumber = 2 ^ 64 - 1 := rfl
  refine ⟨fun l n => ?number, fun zeros n pos le => ?padded, fun n => ?back, fun l k => ?next, fun l k => ?after⟩
  case number =>
    simp only [number_eq_ok, spells_iff_standsFor, greatest, exists_and_right, ← and_assoc]
  case padded => exact number_eq_ok.mpr ⟨spells_padded zeros n, pos, le⟩
  case back => exact number_ofNumber
  case next => exact next_eq_ok
  case after => exact number_of_next

-- A text with zeros in front, the greatest number and one that is too great.
theorem number_and_next_at_the_end :
    (Label.mk "v007").next = .ok ⟨"v8"⟩ ∧ (Label.mk "v8").number = .ok 8 ∧
    (Label.mk "v00018446744073709551615").number = .ok (2 ^ 64 - 1) ∧
    (Label.mk "v00018446744073709551615").next.isOk = false ∧
    (Label.mk "v18446744073709551616").number.isOk = false ∧ (Label.mk "v0").number.isOk = false := by
  obtain ⟨_, padded, back, next, _⟩ := number_and_next
  have seven : (Label.mk "v007").number = .ok 7 := padded 2 7 (by decide) (by decide)
  refine ⟨(next _ _).mpr ⟨7, seven, by decide, rfl⟩, back 8 (by decide) (by decide), ?_, ?_, ?_, ?_⟩
  · exact padded 3 (2 ^ 64 - 1) (by decide) (by decide)
  all_goals decide

end Label
end AirRelease
