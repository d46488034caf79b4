import AirRelease.Proofs.VersionRange.Union

namespace AirRelease.VersionRange

open Requirement (isVersionChar dropSpaces)
open Text (isBlank trim)

variable {cs : List Char} {c : Char}

-- One version without an operator.
def IsSingle (cs : List Char) : Prop :=
  cs ≠ [] ∧ ∀ c ∈ cs, c ≠ ',' ∧ isBlank c = false ∧ isOperator c = false

instance : DecidablePred IsSingle :=
  fun cs =>
    have := List.decidableBAll (fun c => c ≠ ',' ∧ isBlank c = false ∧ isOperator c = false) cs
    inferInstanceAs (Decidable (_ ∧ _))

theorem ascii_of_isVersionChar (version : isVersionChar c) : c.toNat < 0x80 := by
  simp only [isVersionChar, Bool.or_eq_true, decide_eq_true_eq] at version
  rcases version with (((letter | rfl) | rfl) | rfl) | rfl
  · have letter : ((c.isUpper || c.isLower) || c.isDigit) = true := letter
    simp only [Bool.or_eq_true] at letter
    have below (last : Char) (within : c.val ≤ last.val) (ascii : last.toNat < 0x80) : c.toNat < 0x80 :=
      Nat.lt_of_le_of_lt (UInt32.le_iff_toNat_le.mp within) ascii
    rcases letter with (upper | lower) | digit
    · exact below 'Z' (of_decide_eq_true upper).2 (by decide)
    · exact below 'z' (of_decide_eq_true (Bool.and_eq_true_iff.mp lower).2) (by decide)
    · exact below '9' (of_decide_eq_true (Bool.and_eq_true_iff.mp digit).2) (by decide)
  all_goals decide

theorem plain_of_isVersionChar (version : isVersionChar c) :
    c ≠ ',' ∧ isBlank c = false ∧ isOperator c = false := by
  have plain : ∀ n < 0x80, isVersionChar (Char.ofNat n) → Char.ofNat n ≠ ',' ∧
      isBlank (Char.ofNat n) = false ∧ isOperator (Char.ofNat n) = false := by decide +kernel
  simpa only [Char.ofNat_toNat, version, forall_const] using plain c.toNat (ascii_of_isVersionChar version)

-- A bound begins with a version, and a comma is what may follow it.
theorem bound_split (accepted : Requirement.accepts ('=' :: cs)) :
    ∃ gap version gap' rest, cs = gap ++ version ++ gap' ++ rest ∧ version ≠ [] ∧
      (∀ c ∈ version, isVersionChar c) ∧ (∀ c ∈ gap, c = ' ') ∧ (∀ c ∈ gap', c = ' ') ∧
      (rest = [] ∨ ∃ more, rest = ',' :: more) := by
  obtain ⟨rest, read, ended⟩ : ∃ rest, Requirement.comparator? ('=' :: cs) = some rest ∧
      (rest = [] ∨ ∃ more, rest = ',' :: more) := by
    change Requirement.comparators (31 + 1) ('=' :: cs) = true at accepted
    rw [Requirement.comparators] at accepted
    split at accepted
    case h_1 read => exact ⟨[], read, .inl rfl⟩
    case h_2 more read => exact ⟨_, read, .inr ⟨more, rfl⟩⟩
    case h_3 => cases accepted
    case h_4 => cases accepted
  obtain ⟨version, tail, split, filled, version_only, spaces⟩ := Requirement.comparator?_eq_some read
  obtain ⟨gap, gap_split, gaps⟩ := Requirement.dropSpaces_split cs
  obtain ⟨gap', gap_split', gaps'⟩ := Requirement.dropSpaces_split tail
  refine ⟨gap, version, gap', rest, ?_, filled, version_only, gaps, gaps', ended⟩
  rw [List.append_assoc, List.append_assoc, ← spaces, ← gap_split', ← split]
  exact gap_split

theorem single_beforeComma (bound : isBound cs) : IsSingle (trim (cs.takeWhile (· ≠ ','))) := by
  obtain ⟨gap, version, gap', rest, split, filled, version_only, gaps, gaps', ended⟩ :=
    bound_split (isBound_iff.mp bound).2
  have before : cs.takeWhile (· ≠ ',') = gap ++ version ++ gap' := by
    have passed : ∀ c ∈ gap ++ version ++ gap', decide (c ≠ ',') = true := by
      intro c mem
      simp only [List.mem_append] at mem
      rcases mem with (mem | mem) | mem
      · rw [gaps c mem]; rfl
      · exact decide_eq_true (plain_of_isVersionChar (version_only c mem)).1
      · rw [gaps' c mem]; rfl
    rw [split, List.takeWhile_append_of_pos passed]
    rcases ended with rfl | ⟨more, rfl⟩
    all_goals simp
  have trimmed : trim (gap ++ version ++ gap') = version := by
    rw [Text.trim_surrounded (fun c mem => by rw [gaps c mem]; rfl) (fun c mem => by rw [gaps' c mem]; rfl)]
    exact Text.trim_of_filled fun c mem => (plain_of_isVersionChar (version_only c mem)).2.1
  rw [before, trimmed]
  exact ⟨filled, fun c mem => plain_of_isVersionChar (version_only c mem)⟩

theorem single_iff (bound : isBound (trim cs)) : IsSingle (trim cs) ↔ ',' ∉ trim cs := by
  constructor
  · intro ⟨_, plain⟩ mem
    exact (plain ',' mem).1 rfl
  · intro off
    have whole : (trim cs).takeWhile (· ≠ ',') = trim cs :=
      List.takeWhile_eq_self_iff.mpr fun c mem => decide_eq_true fun comma => off (comma ▸ mem)
    simpa only [whole, Text.trim_trim] using single_beforeComma bound

theorem isBound_of_alternative {low high : List Char} (alternative : isAlternative cs)
    (hyphen : splitHyphen? cs = some (low, high)) : isBound (trim low) ∧ isBound (trim high) := by
  simp only [isAlternative, hyphen, Bool.and_eq_true] at alternative
  exact alternative.2

theorem single_bounds_iff {text : String} {v : VersionRange} (read : ofText text = .ok v)
    {part low high : List Char} (among : part ∈ splitBars text.toList)
    (hyphen : splitHyphen? (trim part) = some (low, high)) :
    (IsSingle (trim low) ↔ ',' ∉ trim low) ∧ (IsSingle (trim high) ↔ ',' ∉ trim high) := by
  have alternative := union_iff.mp (ofText_iff_union.mp ⟨v, read⟩) part among
  obtain ⟨lower, upper⟩ := isBound_of_alternative alternative hyphen
  exact ⟨single_iff lower, single_iff upper⟩

-- The lower bound is a single version, the upper one is a list of two.
theorem single_bounds_iff_mixed :
    ∃ v, ofText "* || 1.2 - 2.0.0-rc.1, <3" = .ok v ∧
      " 1.2 - 2.0.0-rc.1, <3".toList ∈ splitBars "* || 1.2 - 2.0.0-rc.1, <3".toList ∧
      splitHyphen? (trim " 1.2 - 2.0.0-rc.1, <3".toList) = some ("1.2".toList, "2.0.0-rc.1, <3".toList) ∧
      IsSingle (trim "1.2".toList) ∧ ¬IsSingle (trim "2.0.0-rc.1, <3".toList) := by
  obtain ⟨v, read⟩ : ∃ v, ofText "* || 1.2 - 2.0.0-rc.1, <3" = .ok v :=
    ofText_iff_union.mpr (union_iff.mpr (by decide +kernel))
  have among : " 1.2 - 2.0.0-rc.1, <3".toList ∈ splitBars "* || 1.2 - 2.0.0-rc.1, <3".toList := by
    decide +kernel
  have hyphen : splitHyphen? (trim " 1.2 - 2.0.0-rc.1, <3".toList) =
      some ("1.2".toList, "2.0.0-rc.1, <3".toList) := by
    decide +kernel
  obtain ⟨lower, upper⟩ := single_bounds_iff read among hyphen
  exact ⟨v, read, among, hyphen, lower.mpr (by decide), upper.not.mpr (by decide)⟩

-- A list of comparators is taken for a bound if the first one has no operator.
theorem not_single_of_list :
    ¬∀ text v, ofText text = .ok v → ∀ part ∈ splitBars text.toList, ∀ low high,
      splitHyphen? (trim part) = some (low, high) → IsSingle (trim low) ∧ IsSingle (trim high) := by
  intro single
  obtain ⟨v, read⟩ : ∃ v, ofText "1.0.0, >=2.0.0 - 3.0.0" = .ok v :=
    ofText_iff_union.mpr (union_iff.mpr (by decide +kernel))
  have bounds := single _ v read "1.0.0, >=2.0.0 - 3.0.0".toList (by decide +kernel) "1.0.0, >=2.0.0".toList
    "3.0.0".toList (by decide +kernel)
  exact absurd bounds.1 (by decide)

end AirRelease.VersionRange
