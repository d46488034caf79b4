import Mathlib.Data.List.Infix
import AirRelease.Proofs.Text.Words
import AirRelease.Proofs.VersionRange.Union

namespace AirRelease.VersionRange

open Text (isBlank trim words)

variable {cs p o w v q token : List Char} {rest rest' : List (List Char)}

theorem not_isBlank_of_isOperator {c : Char} (operator : isOperator c) : isBlank c = false := by
  simp only [isOperator, Bool.or_eq_true, decide_eq_true_eq] at operator
  rcases operator with (((rfl | rfl) | rfl) | rfl) | rfl <;> rfl

section Glue

theorem glue_operator (operator : token.all isOperator) (pending : List Char) :
    glue?.go pending (token :: rest) = glue?.go (pending ++ token) rest := by
  rw [glue?.go, if_pos operator]

theorem glue_version (version : ¬token.all isOperator) (pending : List Char) :
    glue?.go pending (token :: rest) = (glue?.go [] rest).map ((pending ++ token) :: ·) := by
  rw [glue?.go, if_neg version]

-- One step more for the operator, with the same outcome whatever is pending.
theorem glue_join (operator : o.all isOperator) (pending : List Char) :
    glue?.go pending (o :: v :: rest) = glue?.go pending ((o ++ v) :: rest) := by
  rw [glue_operator operator]
  by_cases bare : v.all isOperator
  case pos =>
    have joined : (o ++ v).all isOperator := by simp [List.all_append, operator, bare]
    rw [glue_operator bare, glue_operator joined, List.append_assoc]
  case neg =>
    have joined : ¬(o ++ v).all isOperator := by simp [List.all_append, operator, bare]
    rw [glue_version bare, glue_version joined, List.append_assoc]

-- The tokens in front leave the same operators pending for both rests.
theorem glue_append_congr (alike : ∀ pending, glue?.go pending rest = glue?.go pending rest')
    (before : List (List Char)) (pending : List Char) :
    glue?.go pending (before ++ rest) = glue?.go pending (before ++ rest') := by
  induction before generalizing pending with
  | nil => exact alike pending
  | cons token before ih =>
    by_cases operator : token.all isOperator
    case pos => rw [List.cons_append, List.cons_append, glue_operator operator, glue_operator operator, ih]
    case neg => rw [List.cons_append, List.cons_append, glue_version operator, glue_version operator, ih]

theorem glue?_join (operator : o.all isOperator) (before rest : List (List Char)) :
    glue? (before ++ o :: v :: rest) = glue? (before ++ (o ++ v) :: rest) :=
  glue_append_congr (glue_join operator) before []

end Glue

-- Within a text, an operator, a gap and the word behind it. The word may be anything, and so may the
-- words around.
structure OperatorGap (p o w v q : List Char) : Prop where
  before   : ∀ c ∈ p.getLast?, isBlank c
  operator : o ≠ [] ∧ ∀ c ∈ o, isOperator c
  gap      : w ≠ [] ∧ ∀ c ∈ w, isBlank c
  word     : v ≠ [] ∧ ∀ c ∈ v, isBlank c = false
  after    : ∀ c ∈ q.head?, isBlank c

-- Checked along the texts, not over all characters.
instance : Decidable (OperatorGap p o w v q) :=
  decidable_of_iff
    (p.getLast?.all isBlank ∧ (o ≠ [] ∧ o.all isOperator) ∧ (w ≠ [] ∧ w.all isBlank) ∧
      (v ≠ [] ∧ v.all (isBlank · = false)) ∧ q.head?.all isBlank) <| by
    simp only [List.all_eq_true, Option.all_eq_true, decide_eq_true_eq]
    exact ⟨fun ⟨before, operator, gap, word, after⟩ => ⟨before, operator, gap, word, after⟩,
      fun h => ⟨h.before, h.operator, h.gap, h.word, h.after⟩⟩

namespace OperatorGap

theorem all_isOperator (h : OperatorGap p o w v q) : o.all isOperator :=
  List.all_eq_true.mpr h.operator.2

theorem filled_operator (h : OperatorGap p o w v q) : ∀ c ∈ o, isBlank c = false :=
  fun c mem => not_isBlank_of_isOperator (h.operator.2 c mem)

theorem words_apart (h : OperatorGap p o w v q) :
    words (p ++ o ++ w ++ v ++ q) = words p ++ o :: v :: words q := by
  rw [Text.words_append (.inr h.after), Text.words_gap h.gap.1 h.gap.2, Text.words_append (.inl h.before),
    Text.words_of_filled h.operator.1 h.filled_operator, Text.words_of_filled h.word.1 h.word.2]
  simp

theorem words_joined (h : OperatorGap p o w v q) :
    words (p ++ o ++ v ++ q) = words p ++ (o ++ v) :: words q := by
  have nonempty : o ++ v ≠ [] := List.append_ne_nil_of_left_ne_nil h.operator.1 v
  have filled : ∀ c ∈ o ++ v, isBlank c = false :=
    List.forall_mem_append.mpr ⟨h.filled_operator, h.word.2⟩
  rw [Text.words_append (.inr h.after), List.append_assoc, Text.words_append (.inl h.before),
    Text.words_of_filled nonempty filled]
  simp

theorem isComparatorList_eq (h : OperatorGap p o w v q) :
    isComparatorList (p ++ o ++ w ++ v ++ q) = isComparatorList (p ++ o ++ v ++ q) := by
  rw [isComparatorList, isComparatorList, h.words_apart, h.words_joined, glue?_join h.all_isOperator]

end OperatorGap

section Plain

-- A text that can only be a list of comparators.
structure IsPlain (cs : List Char) : Prop where
  unbarred   : ¬"||".toList <:+: cs
  unhyphened : ¬" - ".toList <:+: cs

instance : DecidablePred IsPlain :=
  fun _ => decidable_of_iff (_ ∧ _) ⟨fun h => ⟨h.1, h.2⟩, fun h => ⟨h.unbarred, h.unhyphened⟩⟩

theorem infix_of_trim (cs : List Char) : trim cs <:+: cs := by
  obtain ⟨l, r, split, _, _⟩ := Text.trim_split cs
  exact ⟨l, r, split.symm⟩

theorem union_of_plain (plain : IsPlain cs) : Union cs ↔ isAlternative (trim cs) := by
  constructor
  case mp =>
    intro union
    cases union with
    | last alternative => exact alternative
    | @more p ds => exact absurd ⟨p, ds, by simp⟩ plain.unbarred
  case mpr => exact .last

theorem splitHyphen?_of_plain (plain : IsPlain cs) : splitHyphen? (trim cs) = none := by
  cases split : splitHyphen? (trim cs) with
  | none => rfl
  | some sides =>
    have hyphen : " - ".toList <:+: trim cs := ⟨sides.1, sides.2, by simp [splitHyphen?_eq_some split]⟩
    exact absurd (hyphen.trans (infix_of_trim cs)) plain.unhyphened

theorem isAlternative_of_plain (plain : IsPlain cs) : isAlternative (trim cs) = isComparatorList cs := by
  have trimmed : isComparatorList (trim cs) = isComparatorList cs := by
    rw [isComparatorList, isComparatorList, Text.words_trim]
  simp only [isAlternative, splitHyphen?_of_plain plain, trimmed]
  by_cases empty : trim cs = []
  case pos =>
    rw [← trimmed, empty]
    rfl
  case neg => simp [empty]

theorem ofText_iff_isComparatorList {text : String} (plain : IsPlain text.toList) :
    (∃ r, ofText text = .ok r) ↔ isComparatorList text.toList := by
  rw [ofText_iff_union, union_of_plain plain, isAlternative_of_plain plain]

end Plain

theorem ofText_gap_iff {p o w v q : String}
    (gap : OperatorGap p.toList o.toList w.toList v.toList q.toList)
    (apart : IsPlain (p ++ o ++ w ++ v ++ q).toList) (joined : IsPlain (p ++ o ++ v ++ q).toList) :
    (∃ r, ofText (p ++ o ++ w ++ v ++ q) = .ok r) ↔ ∃ r, ofText (p ++ o ++ v ++ q) = .ok r := by
  rw [ofText_iff_isComparatorList apart, ofText_iff_isComparatorList joined]
  simp only [String.toList_append]
  rw [gap.isComparatorList_eq]

-- The operator is the second half of `<=`, and another one follows with a gap of its own.
theorem ofText_gap_iff_pending :
    OperatorGap ">= 1.0.0 < ".toList "=".toList " \t".toList "2.0.0".toList " ^\n3".toList ∧
    IsPlain ">= 1.0.0 < = \t2.0.0 ^\n3".toList ∧ IsPlain ">= 1.0.0 < =2.0.0 ^\n3".toList ∧
    (∃ r, ofText ">= 1.0.0 < =2.0.0 ^\n3" = .ok r) ∧ ∃ r, ofText ">= 1.0.0 < = \t2.0.0 ^\n3" = .ok r := by
  have gap : OperatorGap ">= 1.0.0 < ".toList "=".toList " \t".toList "2.0.0".toList " ^\n3".toList := by
    decide +kernel
  have apart : IsPlain ">= 1.0.0 < = \t2.0.0 ^\n3".toList := by decide +kernel
  have joined : IsPlain ">= 1.0.0 < =2.0.0 ^\n3".toList := by decide +kernel
  have read : ∃ r, ofText ">= 1.0.0 < =2.0.0 ^\n3" = .ok r :=
    (ofText_iff_isComparatorList joined).mpr (by decide +kernel)
  exact ⟨gap, apart, joined, read, (ofText_gap_iff gap apart joined).mpr read⟩

end AirRelease.VersionRange
