import Mathlib.Data.List.TakeDrop
import Mathlib.Data.List.TakeWhile
import AirRelease.Email
import AirRelease.Proofs.Success
import AirRelease.Proofs.Text.Lowercase
import AirRelease.Proofs.Text.Trim

namespace AirRelease.Email

open Text (isBlank lowercase trim Settled)

-- The address as it is kept.
def Canonical (e : Email) : Prop :=
  ofText e.text = .ok e

theorem span_at {user : List Char} (domain : List Char) (user_only : '@' ∉ user) :
    (user ++ '@' :: domain).span (· ≠ '@') = (user, '@' :: domain) := by
  have pass : ∀ c ∈ user, decide (c ≠ '@') = true := fun c mem =>
    decide_eq_true (ne_of_mem_of_not_mem mem user_only)
  rw [List.span_eq_takeWhile_dropWhile, List.takeWhile_append_of_pos pass,
    List.dropWhile_append_of_pos pass]
  simp

theorem wellFormed_iff {cs : List Char} : wellFormed cs ↔ ∃ user domain,
    cs = user ++ '@' :: domain ∧ user ≠ [] ∧ domain ≠ [] ∧ '@' ∉ user ∧ '@' ∉ domain ∧
      ∀ c ∈ cs, isBlank c = false := by
  constructor
  case mp =>
    intro formed
    have whole := List.takeWhile_append_dropWhile (p := (· ≠ '@')) (l := cs)
    unfold wellFormed at formed
    rw [List.span_eq_takeWhile_dropWhile] at formed
    split at formed
    case h_2 => cases formed
    case h_1 user c domain eq =>
      obtain ⟨rfl, found⟩ := Prod.mk.inj eq
      have first : c = '@' := by
        have stop := List.head?_dropWhile_not (· ≠ '@') cs
        rw [found] at stop
        simpa using stop
      simp only [Bool.and_eq_true, decide_eq_true_eq, Bool.not_eq_true', List.contains_eq_mem,
        decide_eq_false_iff_not, List.any_eq_false, Bool.not_eq_true] at formed
      obtain ⟨⟨⟨user_filled, domain_filled⟩, domain_only⟩, filled⟩ := formed
      refine ⟨_, domain, ?_, user_filled, domain_filled, fun mem => ?_, domain_only, filled⟩
      · rw [found, first] at whole
        exact whole.symm
      · simpa using List.mem_takeWhile_imp mem
  case mpr =>
    rintro ⟨user, domain, rfl, user_filled, domain_filled, user_only, domain_only, filled⟩
    simp only [wellFormed, span_at domain user_only]
    simp only [user_filled, domain_filled, domain_only, ne_eq, not_false_eq_true, decide_true,
      List.contains_eq_mem, decide_false, Bool.not_false, Bool.and_true, Bool.true_and,
      Bool.not_eq_true', List.any_eq_false, Bool.not_eq_true]
    exact filled

theorem wellFormed_lowercase {cs : List Char} (formed : wellFormed cs) :
    wellFormed (lowercase cs) ∧ ∀ c ∈ lowercase cs, Settled c := by
  obtain ⟨user, domain, rfl, user_filled, domain_filled, user_only, domain_only, filled⟩ :=
    wellFormed_iff.mp formed
  have within (part : List Char) (sub : part ⊆ user ++ '@' :: domain) : ∀ c ∈ part, isBlank c = false :=
    fun c mem => filled c (sub mem)
  have sub : domain ⊆ user ++ '@' :: domain := fun c mem => by simp [mem]
  obtain ⟨front, lowered, settled, front_filled⟩ :=
    Text.go_append (within user (List.subset_append_left ..)) [] ('@' :: domain)
  obtain ⟨back, lowered', settled', back_filled⟩ :=
    Text.go_append (within domain sub) ('@' :: (user.reverse ++ [])) []
  have middle (before rest : List Char) : lowercase.lowered before '@' rest = ['@'] := rfl
  have lowercase_eq : lowercase (user ++ '@' :: domain) = front ++ '@' :: back := by
    rw [lowercase, lowered, lowercase.go, middle, ← List.append_nil domain, lowered', lowercase.go]
    simp
  have settled_all : ∀ c ∈ front ++ '@' :: back, Settled c := by
    intro c mem
    simp only [List.mem_append, List.mem_cons] at mem
    rcases mem with mem | rfl | mem
    · exact (settled c mem).1
    · exact ⟨by decide, by decide, by decide⟩
    · exact (settled' c mem).1
  rw [lowercase_eq]
  refine ⟨wellFormed_iff.mpr ⟨front, back, rfl, mt front_filled user_filled,
    mt back_filled domain_filled, fun mem => user_only ((settled _ mem).2 rfl),
    fun mem => domain_only ((settled' _ mem).2 rfl), fun c mem => (settled_all c mem).filled⟩, settled_all⟩

theorem ofText_eq_ok {text : String} {e : Email} : ofText text = .ok e ↔
    wellFormed (trim text.toList) ∧ ⟨String.ofList (lowercase (trim text.toList))⟩ = e := by
  simp only [ofText, ite_else_error_eq_ok, Except.ok.injEq]

-- An address is in lower case and has no blanks.
theorem settled_of_ofText {text : String} {e : Email} (read : ofText text = .ok e) :
    ∀ c ∈ e.text.toList, Settled c := by
  obtain ⟨formed, rfl⟩ := ofText_eq_ok.mp read
  rw [String.toList_ofList]
  exact (wellFormed_lowercase formed).2

theorem parts_of_ofText {text : String} {e : Email} (read : ofText text = .ok e) :
    ∃ user domain, e.text.toList = user ++ '@' :: domain ∧ user ≠ [] ∧ domain ≠ [] := by
  obtain ⟨formed, rfl⟩ := ofText_eq_ok.mp read
  obtain ⟨user, domain, split, user_filled, domain_filled, _⟩ := wellFormed_iff.mp (wellFormed_lowercase formed).1
  exact ⟨user, domain, by rw [String.toList_ofList, split], user_filled, domain_filled⟩

theorem canonical_of_ofText {text : String} {e : Email} (read : ofText text = .ok e) : e.Canonical := by
  have settled := settled_of_ofText read
  obtain ⟨formed, rfl⟩ := ofText_eq_ok.mp read
  have trimmed : trim (lowercase (trim text.toList)) = lowercase (trim text.toList) :=
    Text.trim_of_filled fun c mem => (settled c (by rwa [String.toList_ofList])).filled
  rw [Canonical, ofText_eq_ok, String.toList_ofList, trimmed]
  refine ⟨(wellFormed_lowercase formed).1, ?_⟩
  rw [Text.lowercase_settled (wellFormed_lowercase formed).2]

end AirRelease.Email
