import AirRelease.Label
import AirRelease.Proofs.Success

namespace AirRelease.Label

theorem text_ofNumber (n : Nat) : (ofNumber n).text = "v" ++ n.repr := by
  apply String.toList_injective
  simp [ofNumber, Text.writeDecimal_eq_repr]

theorem ofNumber_eq (n : Nat) : ofNumber n = ⟨"v" ++ n.repr⟩ := by
  rw [← text_ofNumber]

theorem ofNumber_inj {n m : Nat} : ofNumber n = ofNumber m ↔ n = m := by
  constructor
  case mp =>
    intro same
    have chars := congrArg (·.text.toList) same
    simp only [ofNumber, String.toList_ofList, List.cons.injEq, true_and] at chars
    simpa [Text.decimal?_writeDecimal] using congrArg Text.decimal? chars
  case mpr => exact congrArg ofNumber

theorem number_ofNumber_eq_ok {n m : Nat} :
    (ofNumber n).number = .ok m ↔ n = m ∧ 0 < n ∧ n ≤ maxNumber := by
  simp [number, ofNumber, Text.decimal?_writeDecimal, and_comm]

theorem next_eq_ok {l k : Label} :
    l.next = .ok k ↔ ∃ n, l.number = .ok n ∧ n < maxNumber ∧ ofNumber (n + 1) = k := by
  simp [next]

-- The mark and then ASCII digits that stand for the number. There may be zeros in front.
def Spells (l : Label) (n : Nat) : Prop :=
  ∃ digits, l.text.toList = 'v' :: digits ∧ digits ≠ [] ∧ (∀ c ∈ digits, c.isDigit) ∧
    Nat.ofDigitChars 10 digits 0 = n

theorem spells_iff {l : Label} {n : Nat} :
    l.Spells n ↔ ∃ digits, l.text.toList = 'v' :: digits ∧ Text.decimal? digits = some n := by
  simp [Spells, Text.decimal?, and_assoc]

theorem number_eq_ok {l : Label} {n : Nat} :
    l.number = .ok n ↔ l.Spells n ∧ 1 ≤ n ∧ n ≤ maxNumber := by
  rw [spells_iff]
  unfold number
  split
  case h_1 empty => simp [empty]
  case h_2 digits marked =>
    simp only [marked, List.cons.injEq, true_and, exists_eq_left']
    cases Text.decimal? digits with
    | none => simp
    | some m =>
      simp only [ite_else_error_eq_ok, Except.ok.injEq, Option.some.injEq]
      constructor
      · rintro ⟨ranged, rfl⟩
        exact ⟨rfl, ranged⟩
      · rintro ⟨rfl, ranged⟩
        exact ⟨ranged, rfl⟩
  case h_3 c rest unmarked text =>
    refine iff_of_false (by simp) ?_
    rintro ⟨⟨digits, marked, _⟩, _⟩
    obtain ⟨rfl, rfl⟩ := List.cons.inj (text.symm.trans marked)
    exact unmarked rfl

end AirRelease.Label
