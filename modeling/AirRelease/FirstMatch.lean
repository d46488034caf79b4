namespace AirRelease

def changeFirst (p : α → Bool) (f : α → α) : List α → List α
  | [] => []
  | a :: rest => if p a then f a :: rest else a :: changeFirst p f rest

theorem length_changeFirst (p : α → Bool) (f : α → α) (as : List α) :
    (changeFirst p f as).length = as.length := by
  induction as with
  | nil => rfl
  | cons a rest ih => simp only [changeFirst]; split <;> simp [ih]

theorem map_changeFirst {p : α → Bool} {f : α → α} {g : α → β} (same : ∀ a, p a → g (f a) = g a)
    (as : List α) : (changeFirst p f as).map g = as.map g := by
  induction as with
  | nil => rfl
  | cons a rest ih =>
    cases ha : p a
    case true => simp [changeFirst, ha, same a ha]
    case false => simp [changeFirst, ha, ih]

theorem changeFirst_of_find?_eq_none {p : α → Bool} {as : List α} (h : as.find? p = none)
    (f : α → α) : changeFirst p f as = as := by
  induction as with
  | nil => rfl
  | cons a rest ih => simp_all [changeFirst]

theorem changeFirst_split {p : α → Bool} {as : List α} {a : α} (h : as.find? p = some a)
    (f : α → α) :
    ∃ before after, as = before ++ a :: after ∧ changeFirst p f as = before ++ f a :: after ∧
      ∀ b ∈ before, p b = false := by
  induction as with
  | nil => cases h
  | cons b rest ih =>
    cases hb : p b
    case true =>
      simp only [List.find?, hb, Option.some.injEq] at h
      subst h
      exact ⟨[], rest, by simp, by simp [changeFirst, hb], by simp⟩
    case false =>
      simp only [List.find?, hb] at h
      obtain ⟨before, after, h₁, h₂, h₃⟩ := ih h
      exact ⟨b :: before, after, by simp [h₁], by simp [changeFirst, hb, h₂], by simp_all⟩

end AirRelease
