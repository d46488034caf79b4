import Mathlib.Data.List.TakeWhile
import AirRelease.Text.Blank

namespace AirRelease.Text

variable {cs l r : List Char}

theorem trimLeft_append (blank : ∀ c ∈ l, isBlank c) (cs : List Char) :
    trimLeft (l ++ cs) = trimLeft cs :=
  List.dropWhile_append_of_pos blank

theorem trimLeft_append_of_ne_nil (filled : trimLeft cs ≠ []) (r : List Char) :
    trimLeft (cs ++ r) = trimLeft cs ++ r := by
  induction cs with
  | nil => exact absurd rfl filled
  | cons c cs ih =>
    cases blank : isBlank c
    case true =>
      have pass (ds : List Char) : trimLeft (c :: ds) = trimLeft ds := List.dropWhile_cons_of_pos blank
      rw [pass] at filled
      rw [List.cons_append, pass, pass]
      exact ih filled
    case false => rw [List.cons_append, trimLeft_of_head blank, trimLeft_of_head blank, List.cons_append]

theorem trimLeft_eq_nil : trimLeft cs = [] ↔ ∀ c ∈ cs, isBlank c :=
  List.dropWhile_eq_nil_iff

-- Blanks around a text are trimmed.
theorem trim_surrounded (left : ∀ c ∈ l, isBlank c) (right : ∀ c ∈ r, isBlank c) (cs : List Char) :
    trim (l ++ cs ++ r) = trim cs := by
  rw [List.append_assoc, trim, trim, trimLeft_append left]
  by_cases empty : trimLeft cs = []
  case pos =>
    have blank : ∀ c ∈ cs ++ r, isBlank c := List.forall_mem_append.mpr ⟨trimLeft_eq_nil.mp empty, right⟩
    rw [empty, trimLeft_eq_nil.mpr blank]
  case neg =>
    have right : ∀ c ∈ r.reverse, isBlank c := fun c mem => right c (List.mem_reverse.mp mem)
    rw [trimLeft_append_of_ne_nil empty, List.reverse_append, trimLeft_append right]

theorem trim_of_blank (blank : ∀ c ∈ cs, isBlank c) : trim cs = [] := by
  rw [trim, trimLeft_eq_nil.mpr blank]
  rfl

theorem trimLeft_split (cs : List Char) : ∃ l, cs = l ++ trimLeft cs ∧ ∀ c ∈ l, isBlank c :=
  ⟨cs.takeWhile isBlank, List.takeWhile_append_dropWhile.symm, fun _ => List.mem_takeWhile_imp⟩

theorem trim_split (cs : List Char) :
    ∃ l r, cs = l ++ trim cs ++ r ∧ (∀ c ∈ l, isBlank c) ∧ ∀ c ∈ r, isBlank c := by
  obtain ⟨l, left_split, left⟩ := trimLeft_split cs
  obtain ⟨r, right_split, right⟩ := trimLeft_split (trimLeft cs).reverse
  refine ⟨l, r.reverse, ?_, left, fun c mem => right c (List.mem_reverse.mp mem)⟩
  rw [List.append_assoc, trim, ← List.reverse_append, ← right_split, List.reverse_reverse]
  exact left_split

theorem mem_trim {c : Char} (filled : isBlank c = false) : c ∈ trim cs ↔ c ∈ cs := by
  obtain ⟨l, r, split, left, right⟩ := trim_split cs
  have off_left : c ∉ l := fun mem => by simp [left c mem] at filled
  have off_right : c ∉ r := fun mem => by simp [right c mem] at filled
  conv => rhs; rw [split]
  simp [off_left, off_right]

theorem trim_of_filled (filled : ∀ c ∈ cs, isBlank c = false) : trim cs = cs := by
  have keep {ds : List Char} (filled : ∀ c ∈ ds, isBlank c = false) : trimLeft ds = ds :=
    trimLeft_eq_self_of_head? fun c first => filled c (List.mem_of_mem_head? first)
  rw [trim, keep filled, keep fun c mem => filled c (List.mem_reverse.mp mem), List.reverse_reverse]

end AirRelease.Text
