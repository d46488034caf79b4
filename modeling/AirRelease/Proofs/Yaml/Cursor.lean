import Mathlib.Data.List.TakeWhile
import AirRelease.Yaml.Token.Plain

namespace AirRelease.Yaml

variable {c : Cursor} {d : Char} {word rest : List Char} {p : Char → Bool}

-- Neither a blank nor a line break.
def isSolid (d : Char) : Bool :=
  !isBlank d && !isBreak d

theorem isGap_cons (d : Char) (rest : List Char) : isGap (d :: rest) = !isSolid d := by
  simp [isGap, isSolid]

-- No gap is before the colon behind a word.
theorem isGap_colon (filled : ∀ d ∈ word, isSolid d) : isGap (word ++ ':' :: rest) = false := by
  cases word with
  | nil => rfl
  | cons d word => simp [isGap_cons, filled d List.mem_cons_self]

theorem not_isBlank_of_isSolid (solid : isSolid d) : isBlank d = false := by
  simp only [isSolid, Bool.and_eq_true, Bool.not_eq_true'] at solid
  exact solid.1

theorem not_isBreak_of_isSolid (solid : isSolid d) : isBreak d = false := by
  simp only [isSolid, Bool.and_eq_true, Bool.not_eq_true'] at solid
  exact solid.2

-- A character of a kind that no line break is of.
theorem not_isBreak_of_kind (apart : ['\n', '\r', '\u0085', '\u2028', '\u2029'].all (!p ·)) (kind : p d) :
    isBreak d = false := by
  by_contra broken
  simp only [isBreak, Bool.not_eq_false, Bool.or_eq_true, decide_eq_true_eq, or_assoc] at broken
  have mem : d ∈ ['\n', '\r', '\u0085', '\u2028', '\u2029'] := by simpa using broken
  simpa [kind] using List.all_eq_true.mp apart d mem

namespace Cursor

theorem skip_skip (c : Cursor) (m n : Nat) : (c.skip m).skip n = c.skip (m + n) := by
  simp [skip, Nat.add_assoc]

theorem skipWhile_of_split (word : List Char) (split : c.rest = word ++ rest) (passed : ∀ d ∈ word, p d)
    (stopped : ∀ d, rest.head? = some d → p d = false) : c.skipWhile p = c.skip word.length := by
  have stop : rest.takeWhile p = [] := by
    cases rest with
    | nil => rfl
    | cons d rest => simp [stopped d rfl]
  rw [skipWhile, split, List.takeWhile_append_of_pos passed, stop, List.append_nil]

theorem skipWhile_of_head (stopped : ∀ d, c.rest.head? = some d → p d = false) : c.skipWhile p = c :=
  skipWhile_of_split [] rfl nofun stopped

-- Marks between documents stand at the start of a line.
theorem not_atDocumentMark (inner : c.column ≠ 0) : c.atDocumentMark = false := by
  simp [atDocumentMark, atMarks, inner]

theorem readBreak?_of_not_isBreak (solid : ∀ d, c.rest.head? = some d → isBreak d = false) :
    c.readBreak? = none := by
  unfold readBreak?
  split
  case h_1 rest eq => exact absurd (solid '\r' (by rw [eq]; rfl)) (by decide)
  case h_2 d rest _ eq => exact if_neg (by rw [solid d (by rw [eq]; rfl)]; exact nofun)
  case h_3 => rfl

-- Farther on in the same line.
def Along (c c' : Cursor) : Prop :=
  ∃ passed, c.rest = passed ++ c'.rest ∧ c' = c.skip passed.length ∧ ∀ d ∈ passed, isBreak d = false

namespace Along

variable {c' c'' : Cursor}

theorem trans (first : c.Along c') (second : c'.Along c'') : c.Along c'' := by
  obtain ⟨passed, split, rfl, inside⟩ := first
  obtain ⟨passed', split', rfl, inside'⟩ := second
  refine ⟨passed ++ passed', ?_, ?_, List.forall_mem_append.mpr ⟨inside, inside'⟩⟩
  · rw [split, split', List.append_assoc]
  · rw [skip_skip, List.length_append]

theorem skip (passed : List Char) (here : c.rest = passed ++ rest) (inside : ∀ d ∈ passed, isBreak d = false) :
    c.Along (c.skip passed.length) :=
  ⟨passed, by simp [Cursor.skip, here], rfl, inside⟩

theorem skipWhile (inside : ∀ d, p d → isBreak d = false) : c.Along (c.skipWhile p) :=
  skip _ List.takeWhile_append_dropWhile.symm fun d mem => inside d (List.mem_takeWhile_imp mem)

-- Along a word at the end of a line, some of the word is left.
theorem in_word (along : c.Along c') (word : List Char) (here : c.rest = word ++ '\n' :: rest) :
    ∃ front back, word = front ++ back ∧ c'.rest = back ++ '\n' :: rest ∧ c' = c.skip front.length := by
  obtain ⟨passed, split, eq, inside⟩ := along
  rcases List.append_eq_append_iff.mp (here.symm.trans split) with ⟨more, rfl, outside⟩ | ⟨more, rfl, ended⟩
  case inr => exact ⟨passed, more, rfl, ended, eq⟩
  case inl =>
    cases more with
    | nil => exact ⟨word, [], (List.append_nil _).symm, outside.symm, by rwa [List.append_nil] at eq⟩
    | cons d more =>
      cases outside
      exact absurd (inside '\n' (by simp)) (by decide)

end Along

end Cursor

-- Line breaks and the spaces of an indentation are one gap, which ends before what is no gap.
theorem Gap.read?_lines {tabs : Nat} (m : Nat) (solid : ∀ d, rest.head? = some d → isSolid d) :
    ∀ {k fuel : Nat} {g : Gap} {line column index : Nat}, k + m < fuel → k ≠ 0 ∨ g.breaks ≠ [] →
      ∃ g', Gap.read? tabs g
          ⟨List.replicate k '\n' ++ (List.replicate m ' ' ++ rest), line, column, index⟩ fuel =
        some (g', ⟨rest, line + k, (if k = 0 then column else 0) + m, index + k + m⟩) ∧ g'.breaks ≠ [] := by
  intro k
  induction k with
  | zero =>
    induction m with
    | zero =>
      intro fuel g line column index enough broken
      obtain ⟨fuel, rfl⟩ := Nat.exists_eq_add_one_of_ne_zero (Nat.ne_of_gt (Nat.zero_lt_of_lt enough))
      refine ⟨g, ?_, broken.resolve_left (· rfl)⟩
      have unbroken : (Cursor.mk rest line column index).readBreak? = none :=
        Cursor.readBreak?_of_not_isBreak fun d first => not_isBreak_of_isSolid (solid d first)
      simp only [List.replicate_zero, List.nil_append, Gap.read?, unbroken]
      split
      case h_1 => exact absurd (solid ' ' rfl) (by decide)
      case h_2 => exact absurd (solid '\t' rfl) (by decide)
      case h_3 => rfl
    | succ m ih =>
      intro fuel g line column index enough broken
      obtain ⟨fuel, rfl⟩ := Nat.exists_eq_add_one_of_ne_zero (Nat.ne_of_gt (Nat.zero_lt_of_lt enough))
      have broken := broken.resolve_left (· rfl)
      obtain ⟨g', read, broken'⟩ :=
        @ih fuel (g.addBlank ' ') line (column + 1) (index + 1) (by omega) (.inr (by simp [Gap.addBlank, broken]))
      refine ⟨g', ?_, broken'⟩
      simp only [List.replicate_zero, List.nil_append, if_true] at read ⊢
      rw [List.replicate_succ, List.cons_append, Gap.read?]
      refine read.trans ?_
      simp [Nat.add_assoc, Nat.add_comm 1]
  | succ k ih =>
    intro fuel g line column index enough _
    obtain ⟨fuel, rfl⟩ := Nat.exists_eq_add_one_of_ne_zero (Nat.ne_of_gt (Nat.zero_lt_of_lt enough))
    obtain ⟨g', read, broken'⟩ :=
      @ih fuel { g with breaks := g.breaks ++ ['\n'] } (line + 1) 0 (index + 1) (by omega) (.inr (by simp))
    refine ⟨g', ?_, broken'⟩
    rw [List.replicate_succ, List.cons_append, Gap.read?]
    refine read.trans ?_
    simp [Nat.add_assoc, Nat.add_comm 1]

namespace Plain

-- A run goes over a word as long as its last character is no colon before a gap.
theorem run?_append (filled : ∀ d ∈ word, isSolid d) (last : isGap rest → word.getLast? ≠ some ':') :
    run? false (word ++ rest) = (run? false rest).map (word ++ ·) := by
  induction word with
  | nil => simp
  | cons d word ih =>
    have solid := filled d List.mem_cons_self
    have colon : (d = ':' && isGap (word ++ rest)) = false := by
      cases word with
      | nil =>
        by_cases gap : isGap rest
        · simpa [gap] using last gap
        · simp [gap]
      | cons d' word => simp [isGap_cons, filled d' (by simp)]
    have on : run? false (word ++ rest) = (run? false rest).map (word ++ ·) := by
      refine ih (fun d' mem => filled d' (List.mem_cons_of_mem _ mem)) fun gap same => last gap ?_
      cases word with
      | nil => cases same
      | cons => rwa [List.getLast?_cons_cons]
    have inside : (isBlank d || isBreak d) = false := by
      rw [not_isBlank_of_isSolid solid, not_isBreak_of_isSolid solid, Bool.or_false]
    simp only [List.cons_append, run?, inside, colon, on, Bool.false_and, Bool.or_false, Bool.false_eq_true,
      if_false, Option.map_map]
    rfl

theorem run?_of_isGap (gap : isGap rest) : run? false rest = some [] := by
  cases rest with
  | nil => rfl
  | cons d rest => exact if_pos gap

theorem run?_colon (gap : isGap rest) : run? false (':' :: rest) = some [] := by
  simp [run?, gap, isBlank, isBreak]

end Plain
end AirRelease.Yaml
