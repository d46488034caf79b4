import AirRelease.Proofs.Yaml.Reader

namespace AirRelease.Yaml

variable {c : Cursor} {word rest : List Char} {line column index k m : Nat}

namespace Plain

variable {flow : Bool} {indent : Nat}

-- A scalar may be the word that a run over the text gives.
theorem ofCursor?_of_run (split : c.rest = word ++ rest) (ne : word ≠ []) (unmarked : c.atDocumentMark = false)
    (first : word.head? ≠ some '#') (ran : run? flow (word ++ rest) = some word) :
    ofCursor? flow indent c =
      if rest = [] || !isGap rest then some ⟨word, false, c.skip word.length⟩
      else
        match Gap.read? indent .empty (c.skip word.length) (rest.length + 1) with
        | none => none
        | some (gap, c') =>
          if !flow && c'.column < indent then some ⟨word, gap.breaks ≠ [], c'⟩
          else read? flow indent word gap c' c.rest.length := by
  have after : (c.skip word.length).rest = rest := by simp [Cursor.skip, split]
  have first : (word ++ rest).head? ≠ some '#' := by
    cases word with
    | nil => exact absurd rfl ne
    | cons => simpa using first
  have ran : run? flow c.rest = some word := split ▸ ran
  rw [ofCursor?, read?, unmarked, split, if_neg (by simpa using first), ← split, ran]
  obtain ⟨d, word, rfl⟩ := List.exists_cons_of_ne_nil ne
  simp only [after]
  rfl

theorem ofCursor?_colon (split : c.rest = word ++ ':' :: rest) (ne : word ≠ [])
    (unmarked : c.atDocumentMark = false) (first : word.head? ≠ some '#') (filled : ∀ d ∈ word, isSolid d)
    (gap : isGap rest) : ofCursor? false indent c = some ⟨word, false, c.skip word.length⟩ := by
  have ran : run? false (word ++ ':' :: rest) = some word := by
    rw [run?_append filled (by simp [isGap_cons, isSolid, isBlank, isBreak]), run?_colon gap]
    simp
  rw [ofCursor?_of_run split ne unmarked first ran]
  exact if_pos (by simp [isGap_cons, isSolid, isBlank, isBreak])

theorem ofCursor?_line (ne : word ≠ []) (first : word.head? ≠ some '#') (filled : ∀ d ∈ word, isSolid d)
    (last : word.getLast? ≠ some ':') (start : 0 < column) (less : m < indent)
    (solid : ∀ d, rest.head? = some d → isSolid d) : ofCursor? false indent
        ⟨word ++ (List.replicate (k + 1) '\n' ++ (List.replicate m ' ' ++ rest)), line, column, index⟩ =
      some ⟨word, true, ⟨rest, line + (k + 1), m, index + word.length + (k + 1) + m⟩⟩ := by
  have gap : isGap (List.replicate (k + 1) '\n' ++ (List.replicate m ' ' ++ rest)) := by
    simp [List.replicate_succ, isGap, isBreak]
  have ran : run? false (word ++ (List.replicate (k + 1) '\n' ++ (List.replicate m ' ' ++ rest))) = some word := by
    rw [run?_append filled fun _ => last, run?_of_isGap gap]
    simp
  obtain ⟨g, read, broken⟩ := @Gap.read?_lines rest indent m solid (k + 1) (k + 1 + m + rest.length + 1) .empty line
    (column + word.length) (index + word.length) (by omega) (.inl (Nat.succ_ne_zero k))
  rw [ofCursor?_of_run rfl ne ?_ first ran, if_neg (by simp [List.replicate_succ, isGap, isBreak])]
  · have behind : (Cursor.mk (word ++ (List.replicate (k + 1) '\n' ++ (List.replicate m ' ' ++ rest))) line column
        index).skip word.length = ⟨List.replicate (k + 1) '\n' ++ (List.replicate m ' ' ++ rest), line,
          column + word.length, index + word.length⟩ := by
      simp [Cursor.skip]
    have enough : (List.replicate (k + 1) '\n' ++ (List.replicate m ' ' ++ rest)).length + 1 =
        k + 1 + m + rest.length + 1 := by
      simp [Nat.add_assoc]
    rw [behind, enough, read]
    simp [broken, less]
  · exact Cursor.not_atDocumentMark (Nat.ne_of_gt start)

end Plain

namespace Token

variable {r r' : Reader} {first : Char} {n fuel : Nat} {indent : Int} {outer : List Int} {allowed : Bool}

-- Characters that begin something else than a plain scalar.
def indicators : List Char :=
  ['[', ']', '\x7b', '\x7d', ',', '*', '&', '!', '\'', '"', '|', '>', '#', '%', '@', '\x60']

namespace Reader

theorem readToken?_plain (outside : r.inFlow = false) (unmarked : r.cursor.atDocumentMark = false)
    (solid : isSolid first) (other : first ∉ indicators) (word : first ∈ ['-', '?', ':'] → isGap rest = false) :
    r.readToken? first rest = r.readPlain? := by
  simp only [Cursor.atDocumentMark, Bool.or_eq_false_iff] at unmarked
  have inside : (isBlank first || isBreak first) = false := by
    rw [not_isBlank_of_isSolid solid, not_isBreak_of_isSolid solid, Bool.or_false]
  have percent : first ≠ '%' := by rintro rfl; exact other (by decide)
  unfold readToken?
  rw [if_neg (by simp [percent]), if_neg (by simp [unmarked.1]), if_neg (by simp [unmarked.2])]
  split
  case h_11 | h_12 | h_13 => simp [outside, word (by decide)]
  case h_20 => rw [inside]; rfl
  all_goals exact absurd (by decide) other

theorem readToken?_colon (here : r.cursor.rest = ':' :: rest) (gap : isGap rest) :
    r.readToken? ':' rest = r.readValue? := by
  simp [readToken?, Cursor.atMarks, here, gap]

-- A value turns what is held back into a key, and begins a mapping if the key is farther right.
theorem readValue?_of_candidate {b : Bool} {k : Candidate} {t : Token} (inside : indent ≤ k.place.column)
    (number : k.number = n) : (⟨c, indent, outer, b, [some k], n, [t]⟩ : Reader).readValue? =
      some ⟨c.skip 1, k.place.column, if k.place.column ≤ indent then outer else indent :: outer, false, [none], n,
        (if k.place.column ≤ indent then [] else [blockMappingStart]) ++ [key, t, value]⟩ := by
  have inFlow (b : Bool) (ts : List Token) (k : Option Candidate) :
      (⟨c, indent, outer, b, [k], n, ts⟩ : Reader).inFlow = false := rfl
  by_cases level : k.place.column ≤ indent
  case pos =>
    have same : indent = k.place.column := Int.le_antisymm inside level
    simp [readValue?, insert, openBlock, inFlow, number, allowKey, skip, push, ← same]
  case neg =>
    simp [readValue?, insert, openBlock, inFlow, number, level, allowKey, skip, push]

theorem readToken?_entry (unmarked : r.cursor.column ≠ 0) (gap : isGap rest) :
    r.readToken? '-' rest = r.readBlockEntry? := by
  simp [readToken?, Cursor.atMarks, unmarked, gap]

theorem readBlockEntry?_clear (inside : indent ≤ c.column) : readBlockEntry? (clear c indent outer true n) =
    some ⟨c.skip 1, c.column, if c.column ≤ indent then outer else indent :: outer, true, [none], n,
      (if c.column ≤ indent then [] else [blockSequenceStart]) ++ [blockEntry]⟩ := by
  by_cases level : c.column ≤ indent
  case pos =>
    have same : indent = c.column := Int.le_antisymm inside level
    simp [openBlockHere?, readBlockEntry?, openBlock, dropCandidate?, clear, inFlow, allowKey, skip, push, ← same]
  case neg =>
    simp [openBlockHere?, readBlockEntry?, openBlock, dropCandidate?, clear, inFlow, level, allowKey, skip, push]

theorem readPlain?_clear : (clear c indent outer allowed n).readPlain? =
    (Plain.ofCursor? false (indent + 1).toNat c).map fun s => ⟨s.cursor, indent, outer, s.lineEnded,
      [if allowed then some ⟨indent = c.column, n, c⟩ else none], n, [scalar (String.ofList s.text) true]⟩ := by
  have inFlow (b : Bool) (k : Option Candidate) : (⟨c, indent, outer, b, [k], n, []⟩ : Reader).inFlow = false := rfl
  cases allowed <;> cases read : Plain.ofCursor? false (indent + 1).toNat c <;>
    simp [readPlain?, markCandidate?, clear, dropCandidate?, allowKey, push, inFlow, read]

-- A step that reads a plain scalar.
theorem step?_plain {s : Plain.Scan} (here : c.rest = first :: rest) (solid : isSolid first)
    (other : first ∉ indicators) (word : first ∈ ['-', '?', ':'] → isGap rest = false) (passed : 0 < c.index)
    (inside : indent ≤ c.column) (unmarked : c.atDocumentMark = false)
    (read : Plain.ofCursor? false (indent + 1).toNat c = some s) : (clear c indent outer allowed n).step? =
      dropStale? ⟨s.cursor, indent, outer, s.lineEnded, [if allowed then some ⟨indent = c.column, n, c⟩ else none],
        n, [scalar (String.ofList s.text) true]⟩ := by
  have ne : first ≠ '#' := by rintro rfl; exact other (by decide)
  have fresh : (clear c indent outer allowed n).dropStale? = some (clear c indent outer allowed n) := rfl
  rw [step?_of_head here solid ne passed fresh inside, readToken?_plain rfl unmarked solid other word,
    readPlain?_clear, read]
  rfl

end Reader

-- A word that is a plain scalar by itself.
def isWord : List Char → Bool
  | [] => false
  | first :: rest =>
    first ∉ indicators && (first ∉ ['-', '?', ':'] || rest ≠ []) && (first :: rest).all isSolid

theorem isWord_iff : isWord word ↔ ∃ first rest, word = first :: rest ∧ first ∉ indicators ∧
    (first ∈ ['-', '?', ':'] → rest ≠ []) ∧ ∀ d ∈ word, isSolid d := by
  cases word with
  | nil => simp [isWord]
  | cons first rest =>
    simp only [isWord, Bool.and_eq_true, Bool.or_eq_true, decide_eq_true_eq, List.all_eq_true, and_assoc]
    constructor
    · rintro ⟨other, mark, filled⟩
      exact ⟨first, rest, rfl, other, fun mem => mark.resolve_left (· mem), filled⟩
    · rintro ⟨_, _, eq, other, mark, filled⟩
      cases eq
      exact ⟨other, Decidable.not_or_of_imp mark, filled⟩

-- The word is read as a plain scalar.
def Stands (word : List Char) : Prop :=
  isWord word ∧ word.getLast? ≠ some ':'

instance : Decidable (Stands word) :=
  inferInstanceAs (Decidable (_ ∧ _))

-- The word may be the key of a member.
def IsKey (word : List Char) : Prop :=
  isWord word ∧ word.head?.all (· ∉ ['-', '.']) ∧ word.length ≤ Reader.maxKeyLength

instance : Decidable (IsKey word) :=
  inferInstanceAs (Decidable (_ ∧ _))

-- The tokens of the text are such, at this column of any line.
def Gives (cs : List Char) (column : Nat) (indent : Int) (outer : List Int) (allowed : Bool)
    (P : List Token → Prop) : Prop :=
  ∀ line index n fuel, 0 < index → cs.length < fuel →
    P (tokens (.clear ⟨cs, line, column, index⟩ indent outer allowed n) fuel)

namespace Gives

variable {P : List Token → Prop} {text : List Char}

theorem apply {cs : List Char} (gives : Gives cs c.column indent outer allowed P) (here : c.rest = cs)
    (passed : 0 < c.index) (enough : cs.length < fuel) : P (tokens (.clear c indent outer allowed n) fuel) := by
  cases here
  exact gives c.line c.index n fuel passed enough

theorem newline (more : Gives rest 0 indent outer true P) :
    Gives ('\n' :: rest) column indent outer allowed P := by
  intro line index n fuel _ enough
  rw [tokens_congr (Reader.step?_congr (Reader.skipped_newline ..))]
  exact more _ _ _ _ (Nat.succ_pos _) (Nat.lt_of_succ_lt enough)

theorem space (more : Gives rest (column + 1) indent outer allowed P) :
    Gives (' ' :: rest) column indent outer allowed P := by
  intro line index n fuel _ enough
  rw [tokens_congr (Reader.step?_congr Reader.skipped_space)]
  exact more _ _ _ _ (Nat.succ_pos _) (Nat.lt_of_succ_lt enough)

theorem comment (inside : text.all (!isBreak ·)) (more : Gives rest 0 indent outer true P) :
    Gives ('#' :: text ++ '\n' :: rest) column indent outer allowed P := by
  intro line index n fuel _ enough
  have inside : ∀ d ∈ text, isBreak d = false := fun d mem => by simpa using List.all_eq_true.mp inside d mem
  rw [tokens_congr (Reader.step?_congr (Reader.skipped_comment inside))]
  exact more _ _ _ _ (Nat.succ_pos _) (by simp at enough; omega)

-- A value that stands at the end of its line.
theorem ofWord (stands : Stands word) (start : 0 < column) (inside : indent ≤ column) (less : m ≤ indent)
    (free : allowed = true → indent ≠ column) (solid : ∀ d, rest.head? = some d → isSolid d)
    (more : Gives rest m indent outer true fun ts => P (scalar (String.ofList word) true :: ts)) :
    Gives (word ++ (List.replicate (k + 1) '\n' ++ (List.replicate m ' ' ++ rest))) column indent outer allowed
      P := by
  intro line index n fuel passed enough
  obtain ⟨fuel, rfl⟩ := Nat.exists_eq_add_one_of_ne_zero (Nat.ne_of_gt (Nat.zero_lt_of_lt enough))
  obtain ⟨plain, last⟩ := stands
  obtain ⟨first, tail, rfl, other, mark, filled⟩ := isWord_iff.mp plain
  have solid_first := filled first List.mem_cons_self
  have unmarked : (Cursor.mk (first :: tail ++ (List.replicate (k + 1) '\n' ++ (List.replicate m ' ' ++ rest)))
      line column index).atDocumentMark = false := Cursor.not_atDocumentMark (Nat.ne_of_gt start)
  have no_gap (among : first ∈ ['-', '?', ':']) :
      isGap (tail ++ (List.replicate (k + 1) '\n' ++ (List.replicate m ' ' ++ rest))) = false := by
    obtain ⟨d, tail, rfl⟩ := List.exists_cons_of_ne_nil (mark among)
    simp [isGap_cons, filled d (by simp)]
  have ne_comment : first ≠ '#' := by rintro rfl; exact other (by decide)
  have read := @Plain.ofCursor?_line _ rest line column index k m (indent + 1).toNat (List.cons_ne_nil first tail)
    (by simpa using ne_comment) filled last start (by omega) solid
  have taken : (Reader.clear ⟨first :: tail ++ (List.replicate (k + 1) '\n' ++ (List.replicate m ' ' ++ rest)), line,
      column, index⟩ indent outer allowed n).step? = some ⟨⟨rest, line + (k + 1), m,
        index + (first :: tail).length + (k + 1) + m⟩, indent, outer, true, [none], n,
          [scalar (String.ofList (first :: tail)) true]⟩ := by
    rw [Reader.step?_plain rfl solid_first other no_gap passed inside unmarked read]
    cases allowed with
    | false => rfl
    | true =>
      refine Reader.dropStale?_of_stale rfl (.inl ?_) (by simpa using free rfl)
      exact Nat.lt_add_of_pos_right (Nat.succ_pos k)
  rw [tokens_of_step taken rfl rfl]
  exact more _ _ _ _ (by omega) (by simp at enough; omega)

-- A key, which the colon behind it makes one. The first key of a mapping begins the mapping.
theorem ofKey (keyed : IsKey word) (gap : isGap rest) (inside : indent ≤ column)
    (more : Gives rest (column + (word.length + 1)) column (if column ≤ indent then outer else indent :: outer) false
      fun ts => P ((if column ≤ indent then [] else [blockMappingStart]) ++
        key :: scalar (String.ofList word) true :: value :: ts)) :
    Gives (word ++ ':' :: rest) column indent outer true P := by
  intro line index n fuel passed enough
  obtain ⟨plain, unmarked, short⟩ := keyed
  obtain ⟨first, tail, rfl, other, mark, filled⟩ := isWord_iff.mp plain
  obtain ⟨fuel, rfl⟩ : ∃ m, fuel = m + 1 + 1 := ⟨fuel - 2, by simp at enough; omega⟩
  have solid_first := filled first List.mem_cons_self
  let c : Cursor := ⟨first :: tail ++ ':' :: rest, line, column, index⟩
  let k : Candidate := ⟨indent = column, n, c⟩
  have unmarked : c.atDocumentMark = false := by
    simp only [List.head?_cons, Option.all_some, decide_eq_true_eq] at unmarked
    simp only [List.mem_cons, List.not_mem_nil, or_false, not_or] at unmarked
    simp [c, Cursor.atDocumentMark, Cursor.atMarks, unmarked]
  have no_gap : isGap (tail ++ ':' :: rest) = false := isGap_colon fun d mem => filled d (List.mem_cons_of_mem _ mem)
  have ne_comment : first ≠ '#' := by rintro rfl; exact other (by decide)
  have read : Plain.ofCursor? false (indent + 1).toNat c =
      some ⟨first :: tail, false, c.skip (first :: tail).length⟩ :=
    Plain.ofCursor?_colon rfl (List.cons_ne_nil first tail) unmarked (by simpa using ne_comment) filled gap
  have behind : c.skip ((first :: tail).length + 1) =
      ⟨rest, line, column + ((first :: tail).length + 1), index + ((first :: tail).length + 1)⟩ := by
    simp [c, Cursor.skip]
  -- The reader at the colon, with the word held back.
  let r : Reader := ⟨c.skip (first :: tail).length, indent, outer, false, [some k], n,
    [scalar (String.ofList (first :: tail)) true]⟩
  have kept : r.dropStale? = some r := by
    refine Reader.dropStale?_of_fresh rfl ?_
    simp only [Reader.Candidate.Stale, r, k, c, Cursor.skip]
    omega
  have taken : (Reader.clear c indent outer true n).step? = some r := by
    rw [Reader.step?_plain rfl solid_first other (fun _ => no_gap) passed inside unmarked read]
    exact kept
  have marked : r.step? = some ⟨c.skip ((first :: tail).length + 1), column,
      if column ≤ indent then outer else indent :: outer, false, [none], n,
        (if column ≤ indent then [] else [blockMappingStart]) ++
          [key, scalar (String.ofList (first :: tail)) true, value]⟩ := by
    have here : r.cursor.rest = ':' :: rest := by simp [r, c, Cursor.skip]
    rw [Reader.step?_of_head here rfl (by decide) (Nat.add_pos_left passed _) kept
      (Int.le_trans inside (Int.ofNat_le.mpr (Nat.le_add_right column _))), Reader.readToken?_colon here gap,
      Reader.readValue?_of_candidate inside rfl, Cursor.skip_skip]
    rfl
  rw [tokens_of_held taken rfl rfl, tokens_of_step marked rfl (by split <;> rfl), List.append_assoc, behind]
  exact more _ _ _ _ (by omega) (by simp at enough; omega)

-- A word as the value of a key. An empty line and a comment follow it.
theorem ofMember {word' : List Char} (keyed : IsKey word) (stands : Stands word') (inside : text.all (!isBreak ·))
    (more : Gives rest 0 0 [-1] true fun ts =>
      P (key :: scalar (String.ofList word) true :: value :: scalar (String.ofList word') true :: ts)) :
    Gives (word ++ ':' :: ' ' :: (word' ++ '\n' :: '\n' :: ('#' :: text ++ '\n' :: rest))) 0 0 [-1] true P := by
  refine .ofKey keyed rfl (Int.le_refl 0) (.space ?_)
  exact .ofWord (k := 1) (m := 0) stands (Nat.succ_pos _) (Int.natCast_nonneg _) (Int.le_refl 0) nofun
    (fun d head => by cases head; rfl) (.comment inside more)

-- An item of a sequence. The first one begins the sequence.
theorem ofEntry (gap : isGap rest) (start : 0 < column) (inside : indent ≤ column)
    (more : Gives rest (column + 1) column (if column ≤ indent then outer else indent :: outer) true
      fun ts => P ((if column ≤ indent then [] else [blockSequenceStart]) ++ blockEntry :: ts)) :
    Gives ('-' :: rest) column indent outer true P := by
  intro line index n fuel passed enough
  obtain ⟨fuel, rfl⟩ := Nat.exists_eq_add_one_of_ne_zero (Nat.ne_of_gt (Nat.zero_lt_of_lt enough))
  have fresh : (Reader.clear ⟨'-' :: rest, line, column, index⟩ indent outer true n).dropStale? =
    some (Reader.clear ⟨'-' :: rest, line, column, index⟩ indent outer true n) := rfl
  have taken : (Reader.clear ⟨'-' :: rest, line, column, index⟩ indent outer true n).step? =
      some ⟨⟨rest, line, column + 1, index + 1⟩, column, if column ≤ indent then outer else indent :: outer, true,
        [none], n, (if column ≤ indent then [] else [blockSequenceStart]) ++ [blockEntry]⟩ := by
    rw [Reader.step?_of_head rfl rfl (by decide) passed fresh inside,
      Reader.readToken?_entry (Nat.ne_of_gt start) gap, Reader.readBlockEntry?_clear inside]
    rfl
  rw [tokens_of_step taken rfl (by split <;> rfl), List.append_assoc]
  exact more _ _ _ _ (Nat.succ_pos _) (Nat.lt_of_succ_lt_succ enough)

-- The end of the text closes a sequence in a mapping.
theorem ofNil (inner : 0 < k) (ended : P [blockEnd, blockEnd, streamEnd]) : Gives [] 0 k [0, -1] allowed P := by
  intro line index n fuel _ enough
  obtain ⟨fuel, rfl⟩ := Nat.exists_eq_add_one_of_ne_zero (Nat.ne_of_gt (Nat.zero_lt_of_lt enough))
  have closed (c : Cursor) : (Reader.clear c k [0, -1] allowed n).closeBlocks 0 =
      ⟨c, 0, [-1], allowed, [none], n, [blockEnd]⟩ := by
    simp [Reader.closeBlocks, Reader.closeBlocks.go, Reader.clear, Reader.inFlow, Reader.push, inner]
  have taken : (Reader.clear ⟨[], line, 0, index⟩ k [0, -1] allowed n).step? =
      some ⟨⟨[], line, 0, index⟩, -1, [], false, [none], n, [blockEnd, blockEnd, streamEnd]⟩ := by
    rw [Reader.step?_eq, Reader.skipped_nil, Reader.dropStale?_of_none rfl, Option.bind_some]
    exact congrArg (fun r : Reader => r.read?.bind Reader.dropStale?) (closed _)
  rw [tokens_of_end taken rfl rfl]
  exact ended

end Gives

-- A byte order mark is allowed, so that it does not matter that it is passed over.
theorem ofText_of_forbidden {text : String} (forbidden : text.toList.all isAllowed = false) : ofText text = [] := by
  unfold ofText
  split
  case h_1 cs marked =>
    have mark : isAllowed '\ufeff' = true := by decide
    rw [marked, List.all_cons, mark, Bool.true_and] at forbidden
    simp [forbidden]
  case h_2 => simp [forbidden]

-- The tokens of a text that begins with a comment are those of its other lines.
theorem ofText_of_gives {P : List Token → Prop} {comment : List Char} {text : String}
    (split : text.toList = '#' :: comment ++ '\n' :: rest) (allowed : text.toList.all isAllowed)
    (inside : comment.all (!isBreak ·)) (gives : Gives rest 0 (-1) [] true P) : P (ofText text) := by
  have start : ofText text =
      tokens (.clear ⟨'#' :: comment ++ '\n' :: rest, 0, 0, 0⟩ (-1) [] true 0) (text.toList.length + 2) := by
    rw [split] at allowed ⊢
    simp only [ofText, split]
    exact if_pos allowed
  have inside : ∀ d ∈ comment, isBreak d = false := fun d mem => by simpa using List.all_eq_true.mp inside d mem
  rw [start, tokens_congr (Reader.step?_congr (Reader.skipped_comment inside))]
  exact gives _ _ _ _ (Nat.succ_pos _) (by simp [split]; omega)

end Token
end AirRelease.Yaml
