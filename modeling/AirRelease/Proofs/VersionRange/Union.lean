import AirRelease.Proofs.Success
import AirRelease.Proofs.Text.Trim
import AirRelease.Proofs.VersionRange.Requirement

namespace AirRelease.VersionRange

open Text (isBlank trim)

-- The text is an alternative or several of them.
inductive Union : List Char → Prop
  | last (alternative : isAlternative (trim p)) : Union p
  | more (alternative : isAlternative (trim p)) (rest : Union cs) : Union (p ++ '|' :: '|' :: cs)

variable {cs ds p l r : List Char} {c : Char}

section Bars

-- No character but blanks is lost between the words.
theorem flatten_words (cs : List Char) : (Text.words cs).flatten = cs.filter (!isBlank ·) := by
  have go (word : List Char) : (Text.words.go word cs).flatten = word.reverse ++ cs.filter (!isBlank ·) := by
    have close (word : List Char) (rest : List (List Char)) :
        (Text.words.close word rest).flatten = word.reverse ++ rest.flatten := by
      rw [Text.words.close]
      split
      case isTrue empty => simp [empty]
      case isFalse => rfl
    induction cs generalizing word with
    | nil => rw [Text.words.go, close]; rfl
    | cons c cs ih =>
      rw [Text.words.go]
      split
      case isTrue blank => rw [close, ih, List.filter_cons_of_neg (by simp [blank])]; rfl
      case isFalse filled => rw [ih, List.filter_cons_of_pos (by simp [filled])]; simp
  exact go []

theorem flatten_glue? {pending : List Char} {tokens glued : List (List Char)}
    (read : glue?.go pending tokens = some glued) : glued.flatten = pending ++ tokens.flatten := by
  induction tokens generalizing pending glued with
  | nil =>
    rw [glue?.go] at read
    split at read
    case isTrue empty =>
      cases read
      simp [empty]
    case isFalse => cases read
  | cons token rest ih =>
    rw [glue?.go] at read
    split at read
    case isTrue => simp [ih read]
    case isFalse =>
      obtain ⟨others, other_read, rfl⟩ := Option.map_eq_some_iff.mp read
      simp [ih other_read]

theorem flatten_subset_intercalate (separator : List Char) (parts : List (List Char)) :
    parts.flatten ⊆ separator.intercalate parts := by
  induction parts with
  | nil => exact List.nil_subset _
  | cons first parts ih =>
    cases parts with
    | nil => simp
    | cons =>
      rw [List.intercalate_cons_cons, List.flatten_cons, List.append_assoc]
      intro c mem
      simp only [List.mem_append] at mem ⊢
      exact mem.imp_right fun mem => .inr (ih mem)

theorem splitHyphen?_eq_some {low high : List Char} (split : splitHyphen? cs = some (low, high)) :
    cs = low ++ ' ' :: '-' :: ' ' :: high := by
  fun_induction splitHyphen? cs generalizing low with
  | case1 => cases split
  | case2 =>
    cases split
    rfl
  | case3 c cs _ ih =>
    obtain ⟨⟨low', high'⟩, split, eq⟩ := Option.map_eq_some_iff.mp split
    cases eq
    rw [ih split, List.cons_append]

theorem bar_notMem_of_accepts (accepted : Requirement.accepts cs) : '|' ∉ cs := fun mem =>
  absurd (Requirement.mark_of_accepts accepted '|' mem) (by decide)

theorem isBound_iff : isBound cs ↔
    (∃ c ds, cs = c :: ds ∧ isOperator c = false) ∧ Requirement.accepts ('=' :: cs) := by
  cases cs <;> simp [isBound]

theorem bar_notMem_of_isBound (bound : isBound (trim cs)) : '|' ∉ cs := by
  rw [← Text.mem_trim (by decide)]
  exact mt (List.mem_cons_of_mem _) (bar_notMem_of_accepts (isBound_iff.mp bound).2)

theorem bar_notMem_of_isComparatorList (listed : isComparatorList cs) : '|' ∉ cs := by
  intro mem
  unfold isComparatorList at listed
  split at listed
  case h_1 => cases listed
  case h_2 => cases listed
  case h_3 glued _ read =>
    have kept : '|' ∈ glued.flatten := by
      rw [flatten_glue? read, flatten_words, List.nil_append, List.mem_filter]
      exact ⟨mem, by decide⟩
    exact bar_notMem_of_accepts listed (flatten_subset_intercalate _ _ kept)

theorem bar_notMem_of_isAlternative (alternative : isAlternative (trim p)) : '|' ∉ p := by
  simp only [isAlternative, Bool.and_eq_true] at alternative
  rw [← Text.mem_trim (by decide)]
  cases split : splitHyphen? (trim p) with
  | none =>
    rw [split] at alternative
    exact bar_notMem_of_isComparatorList alternative.2
  | some sides =>
    simp only [split, Bool.and_eq_true] at alternative
    rw [splitHyphen?_eq_some split]
    simp [bar_notMem_of_isBound alternative.2.1, bar_notMem_of_isBound alternative.2.2]

theorem not_isAlternative_of_blank (blank : ∀ c ∈ p, isBlank c) : ¬isAlternative (trim p) := by
  simp [Text.trim_of_blank blank, isAlternative]

end Bars

namespace Union

theorem ne_blank (union : Union cs) : ¬∀ c ∈ cs, isBlank c := by
  intro blank
  cases union with
  | last alternative => exact not_isAlternative_of_blank blank alternative
  | more => exact absurd (blank '|' (by simp)) (by decide)

theorem append (first : Union cs) (second : Union ds) : Union (cs ++ '|' :: '|' :: ds) := by
  induction first with
  | last alternative => exact .more alternative second
  | more alternative _ ih =>
    rw [List.append_assoc]
    exact .more alternative ih

-- The bars that end an alternative are the first two of their row.
theorem not_bar (ds : List Char) : ¬Union ('|' :: ds) := by
  generalize eq : '|' :: ds = cs
  intro union
  cases union with
  | last alternative => exact bar_notMem_of_isAlternative alternative (by simp [← eq])
  | more alternative =>
    rcases List.cons_eq_append_iff.mp eq with ⟨rfl, _⟩ | ⟨_, rfl, _⟩
    · exact absurd alternative (by decide)
    · exact bar_notMem_of_isAlternative alternative (by simp)

theorem split {a b : List Char} (union : Union (a ++ '|' :: '|' :: b)) : Union a ∧ Union b := by
  generalize whole : a ++ '|' :: '|' :: b = cs at union
  induction union generalizing a with
  | last alternative => exact absurd (by simp [← whole]) (bar_notMem_of_isAlternative alternative)
  | @more p ds alternative rest ih =>
    rcases List.append_eq_append_iff.mp whole with ⟨q, p_eq, tail⟩ | ⟨q, a_eq, tail⟩
    case inl =>
      have off := bar_notMem_of_isAlternative alternative
      match q, tail with
      | [], tail =>
        cases tail
        exact ⟨.last (by simpa [p_eq] using alternative), rest⟩
      | _ :: q, tail =>
        obtain ⟨rfl, _⟩ := List.cons.inj tail
        simp [p_eq] at off
    case inr =>
      match q, tail with
      | [], tail =>
        cases tail
        exact ⟨.last (by simpa [a_eq] using alternative), rest⟩
      | [_], tail =>
        cases tail
        exact absurd rest (not_bar b)
      | _ :: _ :: q, tail =>
        cases tail
        obtain ⟨front, back⟩ := ih rfl
        rw [a_eq]
        exact ⟨.more alternative front, back⟩

theorem pad_left (blank : ∀ c ∈ l, isBlank c) : Union (l ++ cs) ↔ Union cs := by
  have padded (p : List Char) : trim (l ++ p) = trim p := by simpa using Text.trim_surrounded blank (r := []) nofun p
  constructor
  case mp =>
    generalize eq : l ++ cs = ds
    intro union
    cases union with
    | last alternative =>
      rw [← eq, padded] at alternative
      exact .last alternative
    | more alternative rest =>
      rcases List.append_eq_append_iff.mp eq with ⟨q, rfl, rfl⟩ | ⟨q, rfl, eq⟩
      · rw [padded] at alternative
        exact .more alternative rest
      · exact absurd alternative (not_isAlternative_of_blank fun c mem => blank c (List.mem_append_left _ mem))
  case mpr =>
    intro union
    cases union with
    | last alternative => exact .last (by rwa [padded])
    | more alternative rest =>
      rw [← List.append_assoc]
      exact .more (by rwa [padded]) rest

theorem pad_right (blank : ∀ c ∈ r, isBlank c) : Union (cs ++ r) ↔ Union cs := by
  have padded (p : List Char) : trim (p ++ r) = trim p := Text.trim_surrounded (l := []) nofun blank p
  constructor
  case mp =>
    generalize whole : cs ++ r = ds
    intro union
    induction union generalizing cs with
    | last alternative =>
      rw [← whole, padded] at alternative
      exact .last alternative
    | @more p ds alternative rest ih =>
      have whole : cs ++ r = p ++ ['|', '|'] ++ ds := by simpa using whole
      rcases List.append_eq_append_iff.mp whole with ⟨q, _, r_eq⟩ | ⟨q, cs_eq, ds_eq⟩
      case inl => exact absurd (fun c mem => blank c (by simp [r_eq, mem])) rest.ne_blank
      case inr =>
        rw [cs_eq, List.append_assoc]
        exact .more alternative (ih ds_eq.symm)
  case mpr =>
    intro union
    induction union with
    | last alternative => exact .last (by rwa [padded])
    | more alternative _ ih =>
      rw [List.append_assoc]
      exact .more alternative ih

theorem trim_iff : Union (trim cs) ↔ Union cs := by
  obtain ⟨l, r, split, left, right⟩ := Text.trim_split cs
  conv => rhs; rw [split]
  rw [pad_right right, pad_left left]

end Union

section Split

theorem splitBars_ne_nil (cs : List Char) : splitBars cs ≠ [] := by
  fun_cases splitBars cs <;> simp_all

theorem splitBars_cons {part : List Char} {parts : List (List Char)} (other : c ≠ '|')
    (split : splitBars cs = part :: parts) : splitBars (c :: cs) = (c :: part) :: parts := by
  rw [splitBars, split]
  exact fun _ bar _ => other bar

theorem splitBars_of_notMem (off : '|' ∉ p) : splitBars p = [p] := by
  induction p with
  | nil => rfl
  | cons c p ih =>
    rw [List.mem_cons, not_or] at off
    exact splitBars_cons (Ne.symm off.1) (ih off.2)

theorem splitBars_append (off : '|' ∉ p) (cs : List Char) :
    splitBars (p ++ '|' :: '|' :: cs) = p :: splitBars cs := by
  induction p with
  | nil => rfl
  | cons c p ih =>
    rw [List.mem_cons, not_or] at off
    exact splitBars_cons (Ne.symm off.1) (ih off.2)

theorem splitBars_eq_cons {parts : List (List Char)} (split : splitBars cs = p :: parts) :
    parts = [] ∧ cs = p ∨ ∃ ds, cs = p ++ '|' :: '|' :: ds ∧ splitBars ds = parts := by
  fun_induction splitBars cs generalizing p with
  | case1 =>
    cases split
    exact .inl ⟨rfl, rfl⟩
  | case2 ds =>
    cases split
    exact .inr ⟨ds, rfl, rfl⟩
  | case3 _ _ _ empty => exact absurd empty (splitBars_ne_nil _)
  | case4 c cs _ q parts' eq ih =>
    cases split
    rcases ih eq with ⟨rfl, rfl⟩ | ⟨ds, rfl, rest⟩
    · exact .inl ⟨rfl, rfl⟩
    · exact .inr ⟨ds, rfl, rest⟩

theorem union_iff : Union cs ↔ ∀ p ∈ splitBars cs, isAlternative (trim p) := by
  constructor
  case mp =>
    intro union
    induction union with
    | last alternative =>
      rw [splitBars_of_notMem (bar_notMem_of_isAlternative alternative)]
      exact List.forall_mem_singleton.mpr alternative
    | more alternative _ ih =>
      rw [splitBars_append (bar_notMem_of_isAlternative alternative)]
      exact List.forall_mem_cons.mpr ⟨alternative, ih⟩
  case mpr =>
    intro alternatives
    generalize split : splitBars cs = parts at alternatives
    induction parts generalizing cs with
    | nil => exact absurd split (splitBars_ne_nil cs)
    | cons p parts ih =>
      obtain ⟨alternative, others⟩ := List.forall_mem_cons.mp alternatives
      rcases splitBars_eq_cons split with ⟨_, rfl⟩ | ⟨ds, rfl, rest⟩
      · exact .last alternative
      · exact .more alternative (ih rest others)

end Split

theorem isRange_iff_union : isRange cs ↔ Union cs := by
  rw [union_iff, isRange, Bool.and_eq_true, List.all_eq_true, and_iff_right_of_imp]
  intro alternatives
  refine decide_eq_true fun empty => ?_
  rw [empty] at alternatives
  exact absurd (alternatives [] (by decide)) (by decide)

theorem ofText_iff_union {text : String} : (∃ v, ofText text = .ok v) ↔ Union text.toList := by
  rw [← Union.trim_iff, ← isRange_iff_union, ofText]
  split
  case isTrue range => simp [range]
  case isFalse refused => simp [refused]

theorem ofText_append_bars (a b : String) :
    (∃ v, ofText (a ++ "||" ++ b) = .ok v) ↔ (∃ v, ofText a = .ok v) ∧ ∃ v, ofText b = .ok v := by
  have bars : (a ++ "||" ++ b).toList = a.toList ++ '|' :: '|' :: b.toList := by simp
  rw [ofText_iff_union, ofText_iff_union, ofText_iff_union, bars]
  exact ⟨Union.split, fun ⟨first, second⟩ => first.append second⟩

end AirRelease.VersionRange
