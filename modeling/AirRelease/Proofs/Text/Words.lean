import AirRelease.Proofs.Text.Trim

namespace AirRelease.Text

variable {cs ds l r : List Char} {c : Char}

theorem words_eq_filter (cs : List Char) : words cs = (cs.splitOnP isBlank).filter (· ≠ []) := by
  have go (word : List Char) : words.go word cs = (cs.splitOnPPrepend isBlank word).filter (· ≠ []) := by
    have close (word : List Char) (rest : List (List Char)) :
        words.close word (rest.filter (· ≠ [])) = (word.reverse :: rest).filter (· ≠ []) := by
      rw [words.close]
      split
      case isTrue empty => simp [empty]
      case isFalse filled => simp [filled]
    induction cs generalizing word with
    | nil => exact close word []
    | cons c cs ih =>
      rw [words.go, List.splitOnPPrepend]
      split
      case isTrue => rw [ih, close]
      case isFalse => exact ih _
  exact go []

theorem words_of_filled (nonempty : cs ≠ []) (filled : ∀ c ∈ cs, isBlank c = false) :
    words cs = [cs] := by
  rw [words_eq_filter, List.splitOnP_eq_singleton filled]
  simp [nonempty]

theorem words_append_cons (blank : isBlank c) (cs ds : List Char) :
    words (cs ++ c :: ds) = words cs ++ words ds := by
  rw [words_eq_filter, List.splitOnP_append_cons cs ds blank, List.filter_append, ← words_eq_filter,
    ← words_eq_filter]

theorem words_blanks_append (blank : ∀ c ∈ l, isBlank c) (cs : List Char) : words (l ++ cs) = words cs := by
  induction l with
  | nil => rfl
  | cons c l ih =>
    obtain ⟨first, others⟩ := List.forall_mem_cons.mp blank
    exact (words_append_cons first [] (l ++ cs)).trans (ih others)

theorem words_gap {gap : List Char} (nonempty : gap ≠ []) (blank : ∀ c ∈ gap, isBlank c)
    (cs ds : List Char) : words (cs ++ gap ++ ds) = words cs ++ words ds := by
  obtain ⟨c, gap, rfl⟩ := List.exists_cons_of_ne_nil nonempty
  obtain ⟨first, others⟩ := List.forall_mem_cons.mp blank
  rw [List.append_assoc, List.cons_append, words_append_cons first, words_blanks_append others]

theorem words_append_blanks (blank : ∀ c ∈ r, isBlank c) (cs : List Char) : words (cs ++ r) = words cs := by
  by_cases empty : r = []
  case pos => rw [empty, List.append_nil]
  case neg => simpa [words_nil] using words_gap empty blank cs []

-- No word goes across a place where one side ends in a blank or the other one begins with it.
theorem words_append (apart : (∀ c ∈ cs.getLast?, isBlank c) ∨ ∀ c ∈ ds.head?, isBlank c) :
    words (cs ++ ds) = words cs ++ words ds := by
  rcases apart with ended | begun
  case inl =>
    cases last : cs.getLast? with
    | none =>
      rw [List.getLast?_eq_none_iff.mp last]
      rfl
    | some c =>
      obtain ⟨cs, rfl⟩ := List.getLast?_eq_some_iff.mp last
      have blank : ∀ d ∈ [c], isBlank d := List.forall_mem_singleton.mpr (ended c last)
      rw [words_gap (List.cons_ne_nil c []) blank, words_append_blanks blank]
  case inr =>
    cases ds with
    | nil => rw [List.append_nil, words_nil, List.append_nil]
    | cons c ds =>
      have blank : isBlank c := begun c rfl
      have pass : words (c :: ds) = words ds := words_append_cons blank [] ds
      rw [words_append_cons blank, pass]

theorem words_trim (cs : List Char) : words (trim cs) = words cs := by
  obtain ⟨l, r, split, left, right⟩ := trim_split cs
  conv => rhs; rw [split]
  rw [words_append_blanks right, words_blanks_append left]

end AirRelease.Text
