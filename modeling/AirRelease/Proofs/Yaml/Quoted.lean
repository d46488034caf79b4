import AirRelease.Proofs.Text.Width
import AirRelease.Proofs.Yaml.Cursor
import AirRelease.Yaml.Token.Quoted

namespace AirRelease.Yaml

open Text (width Settled)

variable {c c' : Cursor} {text text' : List Char} {fuel : Nat}

theorem width_of_break {b : Char} (broken : c.readBreak? = some (b, c')) :
    ∃ passed, c.rest = passed ++ c'.rest ∧ width [b] ≤ width passed := by
  have line : width ['\n'] = 1 := Text.width_of_fixed (by decide)
  unfold Cursor.readBreak? at broken
  split at broken
  case h_1 rest eq =>
    cases broken
    refine ⟨['\r', '\n'], eq, ?_⟩
    rw [line]
    exact (Nat.le_succ 1).trans (Text.length_le_width ['\r', '\n'])
  case h_2 d rest _ eq =>
    split at broken <;> cases broken
    refine ⟨[d], eq, ?_⟩
    split
    case isTrue => exact Nat.le_refl _
    case isFalse =>
      rw [line]
      exact Text.length_le_width [d]
  case h_3 => cases broken

namespace Gap

variable {g g' : Gap} {tabs : Nat}

def width (g : Gap) : Nat :=
  Text.width g.blanks + Text.width g.breaks

theorem width_addBlank (g : Gap) (b : Char) : (g.addBlank b).width ≤ g.width + Text.width [b] := by
  unfold addBlank
  split
  · simp only [width, Text.width_append]
    omega
  · omega

-- A gap is not wider than what has been passed.
theorem width_of_read? (read : Gap.read? tabs g c fuel = some (g', c')) :
    ∃ passed, c.rest = passed ++ c'.rest ∧ g'.width ≤ g.width + Text.width passed := by
  induction fuel generalizing g c with
  | zero =>
    cases read
    exact ⟨[], rfl, Nat.le_add_right _ _⟩
  | succ fuel ih =>
    have blank {b : Char} {rest : List Char} (here : c.rest = b :: rest)
        (read : Gap.read? tabs (g.addBlank b) (c.skip 1) fuel = some (g', c')) :
        ∃ passed, c.rest = passed ++ c'.rest ∧ g'.width ≤ g.width + Text.width passed := by
      obtain ⟨passed, split, narrow⟩ := ih read
      have split : rest = passed ++ c'.rest := by simpa [Cursor.skip, here] using split
      refine ⟨b :: passed, by rw [here, split, List.cons_append], ?_⟩
      have added := width_addBlank g b
      rw [← List.singleton_append, Text.width_append]
      omega
    rw [Gap.read?] at read
    split at read
    case h_1 b c₁ broken =>
      obtain ⟨front, front_split, front_narrow⟩ := width_of_break broken
      obtain ⟨passed, split, narrow⟩ := ih read
      refine ⟨front ++ passed, by rw [front_split, split, List.append_assoc], ?_⟩
      simp only [width, Text.width_append] at narrow ⊢
      omega
    case h_2 =>
      split at read
      case h_1 here => exact blank here read
      case h_2 here =>
        split at read
        · cases read
        · exact blank here read
      case h_3 =>
        cases read
        exact ⟨[], rfl, Nat.le_add_right _ _⟩

theorem width_text_le (g : Gap) : Text.width g.text ≤ g.width := by
  have folded (bs : List Char) : Text.width (fold bs) ≤ Text.width bs := by
    unfold fold
    split
    · exact Nat.le_refl _
    · exact Nat.le_of_eq (by decide)
    · rw [← List.singleton_append, Text.width_append]
      exact Nat.le_add_left _ _
    · exact Nat.le_refl _
  unfold text
  split
  · exact Nat.le_add_right _ _
  · exact (folded _).trans (Nat.le_add_left _ _)

end Gap

namespace Quoted

variable {single : Bool} {cs run : List Char} {n : Nat} {stop : Stop}

def mark (single : Bool) : Char :=
  if single then '\'' else '"'

theorem length_of_escape? {e : Char} (escaped : escape? cs = some (e, n)) : 1 ≤ n ∧ n ≤ cs.length := by
  have wide {k : Nat} {ds : List Char} {x : Char} (coded : (code? k ds).map (·, k + 1) = some (x, n)) :
      1 ≤ n ∧ n ≤ ds.length + 1 := by
    obtain ⟨d, coded, eq⟩ := Option.map_eq_some_iff.mp coded
    cases eq
    unfold code? at coded
    by_cases short : ds.length < k
    · simp [short] at coded
    · omega
  unfold escape? at escaped
  split at escaped
  case h_1 => cases escaped
  case h_2 | h_3 | h_4 => exact wide escaped
  case h_5 =>
    obtain ⟨d, _, eq⟩ := Option.map_eq_some_iff.mp escaped
    cases eq
    simp

-- A run is not wider than the part of the text that it takes, and a quote follows if it stops for one.
def Takes (single : Bool) (cs run : List Char) (n : Nat) (stop : Stop) : Prop :=
  ∃ passed rest, cs = passed ++ rest ∧ passed.length = n ∧ width run ≤ width passed ∧
    (stop = .quote → ∃ back, rest = mark single :: back)

theorem Takes.nothing (ended : stop ≠ .quote) : Takes single cs [] 0 stop :=
  ⟨[], cs, rfl, rfl, Nat.le_refl _, fun same => absurd same ended⟩

theorem Takes.closed (back : List Char) : Takes single (mark single :: back) [] 0 .quote :=
  ⟨[], _, rfl, rfl, Nat.le_refl _, fun _ => ⟨back, rfl⟩⟩

-- Some characters stand for a single one, and the run goes on behind them.
theorem Takes.next {d : Char} {front rest : List Char} (narrow : width [d] ≤ width front)
    (takes : Takes single rest run n stop) : Takes single (front ++ rest) (d :: run) (front.length + n) stop := by
  obtain ⟨passed, rest, rfl, rfl, narrow', closed⟩ := takes
  refine ⟨front ++ passed, rest, by rw [List.append_assoc], List.length_append, ?_, closed⟩
  rw [← List.singleton_append, Text.width_append, Text.width_append]
  exact Nat.add_le_add narrow narrow'

theorem takes_of_run? (ran : run? single cs fuel = some (run, n, stop)) : Takes single cs run n stop := by
  induction fuel generalizing cs run n with
  | zero => simp [run?] at ran
  | succ fuel ih =>
    have next {d : Char} (front : List Char) {rest : List Char} (narrow : width [d] ≤ width front)
        (ran : run?.next single d front.length rest fuel = some (run, n, stop)) :
        Takes single (front ++ rest) run n stop := by
      rw [run?.next] at ran
      obtain ⟨⟨run', m, stop'⟩, ran, eq⟩ := Option.map_eq_some_iff.mp ran
      cases eq
      exact .next narrow (ih ran)
    rw [run?.eq_def] at ran
    cases cs with
    | nil =>
      cases ran
      exact .nothing fun same => by cases same
    | cons d rest =>
      dsimp only at ran
      split at ran
      case isTrue =>
        cases ran
        exact .nothing fun same => by cases same
      case isFalse =>
        cases single with
        | true =>
          rw [if_pos rfl] at ran
          split at ran
          case isTrue => exact next [d] (Nat.le_refl _) ran
          case isFalse same =>
            cases Decidable.not_not.mp same
            split at ran
            case isTrue doubled =>
              obtain ⟨rest, rfl⟩ := List.head?_eq_some_iff.mp doubled
              refine next ['\'', '\''] ?_ ran
              rw [← List.singleton_append, Text.width_append]
              exact Nat.le_add_right _ _
            case isFalse =>
              cases ran
              exact .closed rest
        | false =>
          rw [if_neg Bool.false_ne_true] at ran
          split at ran
          case isTrue same =>
            cases same
            cases ran
            exact .closed rest
          case isFalse =>
            split at ran
            case isFalse => exact next [d] (Nat.le_refl _) ran
            case isTrue =>
              split at ran
              case isTrue =>
                cases ran
                exact ⟨[d], rest, rfl, rfl, Nat.zero_le _, fun same => by cases same⟩
              case isFalse =>
                split at ran
                case h_2 => cases ran
                case h_1 e m escaped =>
                  obtain ⟨some_read, within⟩ := length_of_escape? escaped
                  have length : (d :: rest.take m).length = m + 1 := by simp [within]
                  have wide := Text.length_le_width (d :: rest.take m)
                  rw [← List.take_append_drop m rest, ← List.cons_append]
                  refine next _ ?_ (length ▸ ran)
                  rcases Text.width_singleton e with one | two <;> omega

-- The text is not wider than what stands before the closing quote.
theorem width_of_read? (read : read? single text c fuel = some (text', c')) :
    ∃ front back, c.rest = front ++ mark single :: back ∧ width text' ≤ width text + width front := by
  induction fuel generalizing text c with
  | zero => cases read
  | succ fuel ih =>
    rw [read?] at read
    split at read
    case isTrue => cases read
    case isFalse =>
      split at read
      case h_1 => cases read
      case h_2 run n stop ran =>
        obtain ⟨passed, rest, split, rfl, narrow, closed⟩ := takes_of_run? ran
        have behind : (c.skip passed.length).rest = rest := by simp [Cursor.skip, split]
        -- Behind a gap the scalar goes on.
        have on {gap : Gap} {c₁ : Cursor} {between : List Char} {tabs : Nat} {g : Gap} {fuel' : Nat}
            (empty : g.width = 0) (gap_read : Gap.read? tabs g (c.skip passed.length) fuel' = some (gap, c₁))
            (within : width between ≤ gap.width)
            (read : read? single (text ++ run ++ between) c₁ fuel = some (text', c')) :
            ∃ front back, c.rest = front ++ mark single :: back ∧ width text' ≤ width text + width front := by
          obtain ⟨gap_passed, gap_split, gap_narrow⟩ := Gap.width_of_read? gap_read
          obtain ⟨front, back, front_split, front_narrow⟩ := ih read
          refine ⟨passed ++ gap_passed ++ front, back, ?_, ?_⟩
          · rw [split, ← behind, gap_split, front_split]
            simp only [List.append_assoc]
          · simp only [Text.width_append] at front_narrow ⊢
            omega
        cases stop with
        | quote =>
          cases read
          obtain ⟨back, rfl⟩ := closed rfl
          exact ⟨passed, back, split, by rw [Text.width_append]; omega⟩
        | gap =>
          dsimp only at read
          split at read
          case h_1 => cases read
          case h_2 gap_read => exact on rfl gap_read (Gap.width_text_le _) read
        | joint =>
          dsimp only at read
          split at read
          case h_1 => cases read
          case h_2 gap c₁ gap_read =>
            refine on rfl gap_read ?_ read
            have whole : width gap.breaks = width (gap.breaks.take 1) + width (gap.breaks.drop 1) := by
              rw [← Text.width_append, List.take_append_drop]
            simp only [Gap.width]
            omega

-- What is quoted in a word is shorter than the word with its quotes.
theorem width_of_ofCursor? {word rest : List Char} (settled : ∀ d ∈ word, Settled d)
    (unquoted : mark single ∉ rest) (split : c.rest = mark single :: (word ++ rest))
    (read : ofCursor? single c = some (text, c')) : width text ≤ word.length := by
  obtain ⟨front, back, closed, narrow⟩ := width_of_read? read
  have closed : word ++ rest = front ++ mark single :: back := by simpa [Cursor.skip, split] using closed
  rw [Text.width_nil, Nat.zero_add] at narrow
  rcases List.append_eq_append_iff.mp closed with ⟨more, rfl, outside⟩ | ⟨more, rfl, _⟩
  · exact absurd (outside ▸ by simp) unquoted
  · rw [Text.width_of_settled fun d mem => settled d (List.mem_append_left _ mem)] at narrow
    rw [List.length_append]
    omega

end Quoted
end AirRelease.Yaml
