import Mathlib.Data.List.TakeWhile
import AirRelease.VersionRange

namespace AirRelease.Requirement

open VersionRange (isOperator)

variable {cs ds rest : List Char} {c : Char}

def isVersionChar (c : Char) : Bool :=
  c.isAlphanum || c = '-' || c = '.' || c = '+' || c = '*'

theorem isVersionChar_of_isDigit (digit : c.isDigit) : isVersionChar c := by
  simp [isVersionChar, Char.isAlphanum, digit]

theorem isVersionChar_of_isWildcard (wildcard : isWildcard c) : isVersionChar c := by
  simp only [isWildcard, Bool.or_eq_true, decide_eq_true_eq] at wildcard
  rcases wildcard with (rfl | rfl) | rfl <;> decide

theorem isVersionChar_of_isIdentifierChar (identifier : isIdentifierChar c) : isVersionChar c := by
  simp only [isIdentifierChar, Bool.or_eq_true, decide_eq_true_eq] at identifier
  simp [isVersionChar, identifier]

section Passes

-- From one text to the other, a part of a version is passed.
def Passes (cs rest : List Char) : Prop :=
  ∃ part, part ++ rest = cs ∧ ∀ c ∈ part, isVersionChar c

theorem Passes.refl (cs : List Char) : Passes cs cs :=
  ⟨[], rfl, nofun⟩

theorem Passes.trans (first : Passes cs ds) (second : Passes ds rest) : Passes cs rest := by
  obtain ⟨part, rfl, passed⟩ := first
  obtain ⟨part', rfl, passed'⟩ := second
  exact ⟨part ++ part', List.append_assoc .., List.forall_mem_append.mpr ⟨passed, passed'⟩⟩

theorem Passes.cons (passed : isVersionChar c) (on : Passes cs rest) : Passes (c :: cs) rest := by
  obtain ⟨part, rfl, others⟩ := on
  exact ⟨c :: part, rfl, List.forall_mem_cons.mpr ⟨passed, others⟩⟩

theorem passes_dropWhile {p : Char → Bool} (kind : ∀ c, p c → isVersionChar c) (cs : List Char) :
    Passes cs (cs.dropWhile p) :=
  ⟨cs.takeWhile p, List.takeWhile_append_dropWhile, fun _ mem => kind _ (List.mem_takeWhile_imp mem)⟩

theorem number?_eq_some (read : number? cs = some rest) :
    cs.dropWhile Char.isDigit = rest ∧ cs.takeWhile Char.isDigit ≠ [] := by
  unfold number? at read
  dsimp only at read
  split at read
  case h_1 => cases read
  case h_2 => cases read
  case h_3 filled _ =>
    split at read
    case isTrue => exact ⟨Option.some.inj read, filled⟩
    case isFalse => cases read

theorem passes_number? (read : number? cs = some rest) : Passes cs rest :=
  (number?_eq_some read).1 ▸ passes_dropWhile (fun _ => isVersionChar_of_isDigit) cs

theorem passes_component? {k : Component} (read : component? cs = some (k, rest)) : Passes cs rest := by
  unfold component? at read
  split at read
  case h_1 =>
    split at read
    case isTrue wildcard =>
      cases read
      exact .cons (by decide) (.cons (isVersionChar_of_isWildcard wildcard) (.refl _))
    case isFalse =>
      simp only [Option.map_eq_some_iff, Prod.mk.injEq] at read
      obtain ⟨_, read, _, rfl⟩ := read
      exact .cons (by decide) (passes_number? read)
  case h_2 => cases read
  case h_3 =>
    cases read
    exact .refl _

theorem passes_identifier? {strict : Bool} (read : identifier? strict cs = some rest) : Passes cs rest := by
  unfold identifier? at read
  dsimp only at read
  split at read
  case isTrue =>
    cases read
    refine passes_dropWhile (fun c part => ?_) cs
    simp only [Bool.or_eq_true, decide_eq_true_eq] at part
    rcases part with identifier | rfl
    · exact isVersionChar_of_isIdentifierChar identifier
    · decide
  case isFalse => cases read

theorem passes_preRelease? (read : preRelease? cs = some rest) : Passes cs rest := by
  unfold preRelease? at read
  split at read
  case h_1 => exact .cons (by decide) (passes_identifier? read)
  case h_2 =>
    cases read
    exact .refl _

theorem passes_build? (read : build? cs = some rest) : Passes cs rest := by
  unfold build? at read
  split at read
  case h_1 => exact .cons (by decide) (passes_identifier? read)
  case h_2 =>
    cases read
    exact .refl _

end Passes

-- A comparator is a version behind an operator and spaces. The spaces after it are passed too.
theorem comparator?_eq_some (read : comparator? cs = some rest) :
    ∃ version tail, dropSpaces (dropOperator cs) = version ++ tail ∧ version ≠ [] ∧
      (∀ c ∈ version, isVersionChar c) ∧ dropSpaces tail = rest := by
  simp only [comparator?, Option.bind_eq_bind, Option.bind_eq_some_iff, Prod.exists] at read
  obtain ⟨cs₁, major, k, cs₂, minor, k', cs₃, patch, read⟩ := read
  have passed : Passes cs₁ cs₃ := (passes_component? minor).trans (passes_component? patch)
  obtain ⟨tail, on, spaces⟩ : ∃ tail, Passes cs₃ tail ∧ dropSpaces tail = rest := by
    split at read
    case h_1 => cases read
    case h_2 =>
      simp only [Option.bind_eq_some_iff, Option.pure_def, Option.some.injEq] at read
      obtain ⟨cs₄, pre, tail, build, spaces⟩ := read
      exact ⟨tail, (passes_preRelease? pre).trans (passes_build? build), spaces⟩
    case h_3 => exact ⟨cs₃, .refl _, Option.some.inj read⟩
  obtain ⟨part, split, version⟩ := passed.trans on
  obtain ⟨rfl, filled⟩ := number?_eq_some major
  refine ⟨(dropSpaces (dropOperator cs)).takeWhile Char.isDigit ++ part, tail, ?_, ?_, ?_, spaces⟩
  · rw [List.append_assoc, split, List.takeWhile_append_dropWhile]
  · simp [filled]
  · refine List.forall_mem_append.mpr ⟨fun c mem => ?_, version⟩
    exact isVersionChar_of_isDigit (List.mem_takeWhile_imp mem)

theorem dropSpaces_split (cs : List Char) :
    ∃ gap, cs = gap ++ dropSpaces cs ∧ ∀ c ∈ gap, c = ' ' :=
  ⟨cs.takeWhile (· = ' '), List.takeWhile_append_dropWhile.symm, fun c mem => by
    simpa using List.mem_takeWhile_imp mem⟩

theorem dropOperator_split (cs : List Char) :
    ∃ operator, cs = operator ++ dropOperator cs ∧ ∀ c ∈ operator, isOperator c := by
  unfold dropOperator
  split
  · exact ⟨['>', '='], rfl, by simp [isOperator]⟩
  · exact ⟨['<', '='], rfl, by simp [isOperator]⟩
  · exact ⟨['='], rfl, by simp [isOperator]⟩
  · exact ⟨['>'], rfl, by simp [isOperator]⟩
  · exact ⟨['<'], rfl, by simp [isOperator]⟩
  · exact ⟨['~'], rfl, by simp [isOperator]⟩
  · exact ⟨['^'], rfl, by simp [isOperator]⟩
  · exact ⟨[], rfl, nofun⟩

-- What may stand in a requirement.
def isMark (c : Char) : Bool :=
  isVersionChar c || isOperator c || c = ' ' || c = ','

theorem mark_of_comparator? (read : comparator? cs = some rest) :
    ∃ part, cs = part ++ rest ∧ ∀ c ∈ part, isMark c := by
  obtain ⟨version, tail, split, _, version_only, spaces⟩ := comparator?_eq_some read
  obtain ⟨operator, operator_split, operators⟩ := dropOperator_split cs
  obtain ⟨gap, gap_split, gaps⟩ := dropSpaces_split (dropOperator cs)
  obtain ⟨gap', gap_split', gaps'⟩ := dropSpaces_split tail
  refine ⟨operator ++ gap ++ version ++ gap', ?_, fun c mem => ?_⟩
  · rw [operator_split, gap_split, split, gap_split', spaces]
    simp
  · simp only [List.mem_append] at mem
    rcases mem with ((mem | mem) | mem) | mem
    · simp [isMark, operators c mem]
    · simp [isMark, gaps c mem]
    · simp [isMark, version_only c mem]
    · simp [isMark, gaps' c mem]

theorem mark_of_comparators {n : Nat} (accepted : comparators n cs) : ∀ c ∈ cs, isMark c := by
  induction n generalizing cs with
  | zero => cases accepted
  | succ n ih =>
    rw [comparators] at accepted
    split at accepted
    case h_1 read =>
      obtain ⟨part, split, marks⟩ := mark_of_comparator? read
      rwa [split, List.append_nil]
    case h_2 rest read =>
      obtain ⟨part, split, marks⟩ := mark_of_comparator? read
      obtain ⟨gap, gap_split, gaps⟩ := dropSpaces_split rest
      rw [split, gap_split]
      simp only [List.forall_mem_append, List.forall_mem_cons]
      exact ⟨marks, by decide, fun c mem => by simp [isMark, gaps c mem], ih accepted⟩
    case h_3 => cases accepted
    case h_4 => cases accepted

theorem mark_of_accepts (accepted : accepts cs) : ∀ c ∈ cs, isMark c := by
  obtain ⟨gap, gap_split, gaps⟩ := dropSpaces_split cs
  rw [gap_split]
  refine List.forall_mem_append.mpr ⟨fun c mem => by simp [isMark, gaps c mem], ?_⟩
  unfold accepts at accepted
  split at accepted
  case h_1 => cases accepted
  case h_2 c rest eq =>
    rw [eq]
    split at accepted
    case isTrue wildcard =>
      obtain ⟨gap, gap_split, gaps⟩ := dropSpaces_split rest
      rw [gap_split, of_decide_eq_true accepted, List.append_nil]
      refine List.forall_mem_cons.mpr ⟨?_, fun c mem => by simp [isMark, gaps c mem]⟩
      simp [isMark, isVersionChar_of_isWildcard wildcard]
    case isFalse => exact mark_of_comparators accepted

end AirRelease.Requirement
