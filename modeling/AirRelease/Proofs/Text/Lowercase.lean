import AirRelease.Text.Blank
import AirRelease.Text.Lowercase

namespace AirRelease.Text

-- A character in lower case that is no blank.
structure Settled (c : Char) : Prop where
  not_sigma : c ≠ 'Σ'
  fixed : lowerChar c = [c]
  filled : isBlank c = false

-- No lower-case form of the first run is among the letters of the second one. Either the two lie side
-- by side, or the second one holds every other letter and the forms are those in between.
def apart (r s : CaseRun) : Bool :=
  let low := (r.first + r.shift).toNat
  let high := (r.last + r.shift).toNat
  high.blt s.first || s.last.blt low ||
    (Nat.blt 0 low && (r.first.beq r.last || r.step.beq 2) && s.step.beq 2 && ((low + s.first) % 2).beq 1)

-- Characters that are blank, or that are not the only ones of their lower-case form.
def unsettledRuns : List CaseRun := [
  ⟨0x01, 0x60, 1, 0⟩, ⟨0x85, 0x85, 1, 0⟩, ⟨0xa0, 0xa0, 1, 0⟩, ⟨0x130, 0x130, 1, 0⟩, ⟨0x3a3, 0x3a3, 1, 0⟩,
  ⟨0x1680, 0x1680, 1, 0⟩, ⟨0x2000, 0x205f, 1, 0⟩, ⟨0x3000, 0x3000, 1, 0⟩]

theorem apart_caseRuns :
    (caseRuns.all fun r => (unsettledRuns ++ caseRuns).all (apart r)) = true := by
  decide +kernel

theorem not_covers_of_apart {r s : CaseRun} {n : Nat} (disjoint : apart r s) (covers : r.Covers n) :
    ¬s.Covers (n + r.shift).toNat := by
  obtain ⟨first, last, even⟩ := covers
  rintro ⟨first', last', even'⟩
  simp only [apart, Bool.or_eq_true, Bool.and_eq_true, Nat.blt_eq, Nat.beq_eq] at disjoint
  rcases disjoint with (before | after) | ⟨⟨⟨low, single | two⟩, two'⟩, odd⟩
  · omega
  · omega
  · rw [two'] at even'
    omega
  · rw [two] at even
    rw [two'] at even'
    omega

theorem settled_of_not_covers {n : Nat} (outside : ∀ s ∈ unsettledRuns ++ caseRuns, ¬s.Covers n) :
    Settled (Char.ofNat n) ∧ Char.ofNat n ≠ '@' := by
  by_cases valid : n.isValidChar
  case neg =>
    have zero : Char.ofNat n = '\x00' := by rw [Char.ofNat, dif_neg valid]; rfl
    rw [zero]
    exact ⟨⟨by decide, by decide, by decide⟩, by decide⟩
  have code : (Char.ofNat n).toNat = n := by
    rw [Char.ofNat, dif_pos valid]
    rfl
  have ne {d : Char} (other : n ≠ d.toNat) : Char.ofNat n ≠ d := fun same => other (same ▸ code.symm)
  have away : ∀ s ∈ unsettledRuns, n < s.first ∨ s.last < n := by
    have whole : ∀ s ∈ unsettledRuns, s.step = 1 := by decide
    intro s mem
    have outside := outside s (List.mem_append_left _ mem)
    simp only [CaseRun.Covers, whole s mem, Nat.mod_one, and_true] at outside
    omega
  simp only [unsettledRuns, List.forall_mem_cons] at away
  refine ⟨?_, ne (by simp; omega)⟩
  constructor
  case not_sigma => exact ne (by simp; omega)
  case fixed =>
    rw [lowerChar, code]
    split
    case isTrue ascii =>
      have lower : ∀ n < 0x80, n = 0 ∨ 0x60 < n → (Char.ofNat n).toLower = Char.ofNat n := by decide
      rw [lower n ascii (by omega)]
    case isFalse =>
      rw [if_neg (ne (by simp; omega))]
      have none : caseRuns.find? (·.Covers n) = none := by
        simpa using fun s mem => outside s (List.mem_append_right _ mem)
      rw [none]
  case filled =>
    simp [isBlank, code]
    omega

theorem settled_lowerChar {c x : Char} (filled : isBlank c = false) (not_sigma : c ≠ 'Σ')
    (mem : x ∈ lowerChar c) : Settled x ∧ (x = '@' → c = '@') := by
  unfold lowerChar at mem
  split at mem
  case isTrue ascii =>
    cases List.mem_singleton.mp mem
    have lower : ∀ n < 0x80, isBlank (Char.ofNat n) = false →
        (Char.ofNat n).toLower ≠ 'Σ' ∧ lowerChar (Char.ofNat n).toLower = [(Char.ofNat n).toLower] ∧
          isBlank (Char.ofNat n).toLower = false ∧
          ((Char.ofNat n).toLower = '@' → Char.ofNat n = '@') := by decide +kernel
    obtain ⟨not_sigma, fixed, filled, at_sign⟩ := lower c.toNat ascii (by rwa [Char.ofNat_toNat])
    rw [Char.ofNat_toNat] at not_sigma fixed filled at_sign
    exact ⟨⟨not_sigma, fixed, filled⟩, at_sign⟩
  case isFalse large =>
    split at mem
    case isTrue =>
      simp only [List.mem_cons, List.not_mem_nil, or_false] at mem
      rcases mem with rfl | rfl
      · exact ⟨⟨by decide, by decide, by decide⟩, fun same => absurd same (by decide)⟩
      · exact ⟨⟨by decide, by decide +kernel, by decide⟩, fun same => absurd same (by decide)⟩
    case isFalse other =>
      split at mem
      case h_1 r found =>
        cases List.mem_singleton.mp mem
        have covers : r.Covers c.toNat := by simpa using List.find?_some found
        have apart := List.all_eq_true.mp apart_caseRuns r (List.mem_of_find?_eq_some found)
        have ⟨settled, other⟩ := settled_of_not_covers fun s among =>
          not_covers_of_apart (List.all_eq_true.mp apart s among) covers
        exact ⟨settled, fun same => absurd same other⟩
      case h_2 none =>
        cases List.mem_singleton.mp mem
        refine ⟨⟨not_sigma, ?_, filled⟩, id⟩
        rw [lowerChar, if_neg large, if_neg other, none]

theorem settled_lowered {before rest : List Char} {c x : Char} (filled : isBlank c = false)
    (mem : x ∈ lowercase.lowered before c rest) : Settled x ∧ (x = '@' → c = '@') := by
  unfold lowercase.lowered at mem
  split at mem
  case isTrue =>
    cases List.mem_singleton.mp mem
    split
    · exact ⟨⟨by decide, by decide +kernel, by decide⟩, fun same => absurd same (by decide)⟩
    · exact ⟨⟨by decide, by decide +kernel, by decide⟩, fun same => absurd same (by decide)⟩
  case isFalse not_sigma => exact settled_lowerChar filled not_sigma mem

theorem lowered_ne_nil (before : List Char) (c : Char) (rest : List Char) :
    lowercase.lowered before c rest ≠ [] := by
  unfold lowercase.lowered lowerChar
  split
  · simp
  · split
    · simp
    · split
      · simp
      · split <;> simp

-- The first part of a text is lowered to the first part of the result.
theorem go_append {xs : List Char} (filled : ∀ c ∈ xs, isBlank c = false) (before ys : List Char) :
    ∃ zs, lowercase.go before (xs ++ ys) = zs ++ lowercase.go (xs.reverse ++ before) ys ∧
      (∀ z ∈ zs, Settled z ∧ (z = '@' → '@' ∈ xs)) ∧ (zs = [] → xs = []) := by
  induction xs generalizing before with
  | nil => exact ⟨[], rfl, nofun, fun _ => rfl⟩
  | cons c xs ih =>
    obtain ⟨zs, lowered, settled, _⟩ := ih (fun d mem => filled d (List.mem_cons_of_mem _ mem)) (c :: before)
    refine ⟨lowercase.lowered before c (xs ++ ys) ++ zs, ?_, fun z mem => ?_, fun empty => ?_⟩
    · rw [List.cons_append, lowercase.go, lowered]
      simp
    · rcases List.mem_append.mp mem with mem | mem
      · have ⟨settled, same⟩ := settled_lowered (filled c List.mem_cons_self) mem
        exact ⟨settled, fun at_sign => same at_sign ▸ List.mem_cons_self⟩
      · have ⟨settled, among⟩ := settled z mem
        exact ⟨settled, fun at_sign => List.mem_cons_of_mem _ (among at_sign)⟩
    · exact absurd (List.append_eq_nil_iff.mp empty).1 (lowered_ne_nil _ _ _)

theorem lowercase_settled {cs : List Char} (settled : ∀ c ∈ cs, Settled c) : lowercase cs = cs := by
  have go (before : List Char) : lowercase.go before cs = cs := by
    induction cs generalizing before with
    | nil => rfl
    | cons c cs ih =>
      have ⟨not_sigma, fixed, _⟩ := settled c List.mem_cons_self
      rw [lowercase.go, lowercase.lowered, if_neg not_sigma, fixed,
        ih fun d mem => settled d (List.mem_cons_of_mem _ mem)]
      rfl
  exact go []

end AirRelease.Text
