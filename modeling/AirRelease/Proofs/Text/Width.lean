import AirRelease.Proofs.Email

namespace AirRelease.Text

variable {cs : List Char} {c : Char}

-- How long the text is in lower case.
def width : List Char → Nat
  | [] => 0
  | c :: cs => (lowerChar c).length + width cs

theorem width_cons (c : Char) (cs : List Char) : width (c :: cs) = (lowerChar c).length + width cs :=
  rfl

@[simp] theorem width_nil : width [] = 0 :=
  rfl

@[simp] theorem width_append (cs ds : List Char) : width (cs ++ ds) = width cs + width ds := by
  induction cs with
  | nil => simp
  | cons c cs ih => rw [List.cons_append, width_cons, width_cons, ih, Nat.add_assoc]

theorem width_of_fixed (fixed : lowerChar c = [c]) : width [c] = 1 := by
  rw [width_cons, fixed, width_nil, List.length_singleton]

theorem width_singleton (c : Char) : width [c] = 1 ∨ width [c] = 2 := by
  rw [width_cons, width_nil, Nat.add_zero]
  unfold lowerChar
  split
  · exact .inl rfl
  · split
    · exact .inr rfl
    · split <;> exact .inl rfl

theorem length_le_width (cs : List Char) : cs.length ≤ width cs := by
  induction cs with
  | nil => exact Nat.le_refl 0
  | cons c cs ih =>
    have pos : 1 ≤ width [c] := by rcases width_singleton c with one | two <;> omega
    rw [← List.singleton_append, width_append, List.length_append, List.length_singleton]
    omega

theorem width_of_settled (settled : ∀ c ∈ cs, Settled c) : width cs = cs.length := by
  induction cs with
  | nil => rfl
  | cons c cs ih =>
    rw [width_cons, (settled c List.mem_cons_self).fixed, ih fun d mem => settled d (List.mem_cons_of_mem _ mem)]
    exact Nat.add_comm ..

theorem length_lowercase (cs : List Char) : (lowercase cs).length = width cs := by
  have go (before : List Char) : (lowercase.go before cs).length = width cs := by
    induction cs generalizing before with
    | nil => rfl
    | cons c cs ih =>
      have lowered : (lowercase.lowered before c cs).length = (lowerChar c).length := by
        unfold lowercase.lowered
        split
        case isTrue sigma =>
          have single : (lowerChar 'Σ').length = 1 := by decide +kernel
          rw [sigma, single, List.length_singleton]
        case isFalse => rfl
      rw [lowercase.go, List.length_append, ih, lowered, width_cons]
  exact go []

theorem width_trim_le (cs : List Char) : width (trim cs) ≤ width cs := by
  obtain ⟨l, r, split, _, _⟩ := trim_split cs
  have whole : width cs = width l + width (trim cs) + width r := by
    rw [← width_append, ← width_append, ← split]
  omega

end AirRelease.Text

namespace AirRelease.Email

open Text (isBlank width)

variable {text : String} {e : Email}

theorem ofText_of_blank (blank : ∀ c ∈ text.toList, isBlank c) : ofText text ≠ .ok e := by
  rw [ofText, Text.trim_of_blank blank]
  intro read
  cases read

theorem width_of_ofText (read : ofText text = .ok e) : e.text.toList.length ≤ width text.toList := by
  obtain ⟨_, rfl⟩ := ofText_eq_ok.mp read
  rw [String.toList_ofList, Text.length_lowercase]
  exact Text.width_trim_le _

theorem ofText_of_narrow (narrow : width text.toList < e.text.toList.length) : ofText text ≠ .ok e :=
  fun read => Nat.not_lt.mpr (width_of_ofText read) narrow

end AirRelease.Email
