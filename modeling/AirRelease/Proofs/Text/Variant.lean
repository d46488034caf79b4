import AirRelease.Proofs.Text.Trim
import AirRelease.Text.Lowercase

namespace AirRelease.Text

-- The same letters, each in upper or in lower case, with any blanks around them.
inductive Variant : List Char → List Char → Prop
  | intro (left : ∀ c ∈ l, isBlank c) (right : ∀ c ∈ r, isBlank c) (left' : ∀ c ∈ l', isBlank c)
    (right' : ∀ c ∈ r', isBlank c) (same : cs.map Char.toLower = ds.map Char.toLower) :
    Variant (l ++ cs ++ r) (l' ++ ds ++ r')

section Case

-- What tells nothing apart but characters that are no ASCII letters is the same for both cases.
theorem apply_toLower {α : Type} {f : Char → α}
    (letters : ∀ n < 0x80, f (Char.ofNat n).toLower = f (Char.ofNat n)) (c : Char) :
    f c.toLower = f c := by
  by_cases ascii : c.toNat < 0x80
  case pos => simpa using letters c.toNat ascii
  case neg =>
    have other : ¬(c.val ≥ 'A'.val ∧ c.val ≤ 'Z'.val) := fun ⟨_, upper⟩ => by
      have upper : c.toNat ≤ 'Z'.toNat := upper
      exact ascii (Nat.lt_of_le_of_lt upper (by decide))
    have same : c.toLower = c := dif_neg other
    rw [same]

theorem isBlank_toLower (c : Char) : isBlank c.toLower = isBlank c :=
  apply_toLower (by decide +kernel) c

theorem lowerChar_toLower (c : Char) : lowerChar c.toLower = lowerChar c :=
  apply_toLower (by decide +kernel) c

theorem toLower_eq_at (c : Char) : c.toLower = '@' ↔ c = '@' :=
  Iff.of_eq (apply_toLower (f := (· = '@')) (by decide) c)

theorem toLower_eq_sigma (c : Char) : c.toLower = 'Σ' ↔ c = 'Σ' :=
  Iff.of_eq (apply_toLower (f := (· = 'Σ')) (by decide) c)

theorem inRanges_toLower {ranges : List (Nat × Nat)}
    (letters : ∀ n < 0x80, inRanges ranges (Char.ofNat n).toLower.toNat = inRanges ranges (Char.ofNat n).toNat)
    (c : Char) : inRanges ranges c.toLower.toNat = inRanges ranges c.toNat :=
  apply_toLower (f := fun c => inRanges ranges c.toNat) letters c

theorem trimLeft_map_toLower (cs : List Char) :
    trimLeft (cs.map Char.toLower) = (trimLeft cs).map Char.toLower := by
  rw [trimLeft, List.dropWhile_map, funext isBlank_toLower (f := isBlank ∘ Char.toLower)]
  rfl

theorem trim_map_toLower (cs : List Char) : trim (cs.map Char.toLower) = (trim cs).map Char.toLower := by
  rw [trim, trimLeft_map_toLower, ← List.map_reverse, trimLeft_map_toLower, ← List.map_reverse]
  rfl

-- The case of the letters around a capital sigma does not matter.
theorem meetsCased_map_toLower (cs : List Char) : meetsCased (cs.map Char.toLower) = meetsCased cs := by
  have ignored : (fun c : Char => inRanges caseIgnorableRanges c.toNat) ∘ Char.toLower =
      fun c => inRanges caseIgnorableRanges c.toNat :=
    funext (inRanges_toLower (by decide +kernel))
  rw [meetsCased, List.dropWhile_map, ignored, meetsCased]
  cases cs.dropWhile fun c => inRanges caseIgnorableRanges c.toNat with
  | nil => rfl
  | cons c rest => exact inRanges_toLower (by decide +kernel) c

theorem lowered_toLower (before : List Char) (c : Char) (rest : List Char) :
    lowercase.lowered (before.map Char.toLower) c.toLower (rest.map Char.toLower) =
      lowercase.lowered before c rest := by
  simp only [lowercase.lowered, toLower_eq_sigma, meetsCased_map_toLower, lowerChar_toLower]

theorem lowercase_map_toLower (cs : List Char) : lowercase (cs.map Char.toLower) = lowercase cs := by
  have go (before : List Char) :
      lowercase.go (before.map Char.toLower) (cs.map Char.toLower) = lowercase.go before cs := by
    induction cs generalizing before with
    | nil => rfl
    | cons c rest ih =>
      rw [List.map_cons, lowercase.go, lowered_toLower, ← List.map_cons, ih, lowercase.go]
  exact go []

end Case
end AirRelease.Text
