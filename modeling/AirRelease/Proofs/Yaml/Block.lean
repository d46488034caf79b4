import AirRelease.Proofs.Yaml.Cursor
import AirRelease.Yaml.Token.Block

namespace AirRelease.Yaml

variable {c c' : Cursor} {text : List Char} {fuel : Nat}

namespace Block

variable {word rest : List Char} {folded : Bool} {line column index : Nat}

theorem not_isBreak_of_chomp? {d : Char} {chomp : Chomp} (marks : chomp? d = some chomp) : isBreak d = false := by
  unfold chomp? at marks
  split at marks
  · rfl
  · rfl
  · cases marks

theorem not_isBreak_of_isDigit {d : Char} (digit : d.isDigit) : isBreak d = false :=
  not_isBreak_of_kind (by decide) digit

theorem indent?_ne_zero (d : Char) : indent? d ≠ some 0 := by
  intro zero
  unfold indent? at zero
  split at zero
  case isFalse => cases zero
  case isTrue digit =>
    have code : d.toNat - '0'.toNat = 0 := Option.some.inj zero
    have least : '0'.toNat ≤ d.toNat := (of_decide_eq_true (Bool.and_eq_true_iff.mp digit.1).1 : _)
    have same : d.toNat = '0'.toNat := by omega
    exact digit.2 (Char.toNat_inj.mp same)

-- The header stands on its line, and an indentation that it gives is not zero.
theorem along_of_header? {header : Header} (read : header? c = some (header, c')) :
    c.Along c' ∧ header.indent ≠ some 0 := by
  have given {d : Char} {chomp : Chomp} (passed : List Char) {rest : List Char} (here : c.rest = passed ++ rest)
      (inside : ∀ d ∈ passed, isBreak d = false)
      (read : (indent? d).map (fun k => (Header.mk chomp (some k), c.skip passed.length)) = some (header, c')) :
      c.Along c' ∧ header.indent ≠ some 0 := by
    obtain ⟨k, digit, eq⟩ := Option.map_eq_some_iff.mp read
    cases eq
    exact ⟨.skip _ here inside, fun zero => indent?_ne_zero d (digit.trans zero)⟩
  have free {chomp : Chomp} (passed : List Char) {rest : List Char} (here : c.rest = passed ++ rest)
      (inside : ∀ d ∈ passed, isBreak d = false)
      (read : some (Header.mk chomp none, c.skip passed.length) = some (header, c')) :
      c.Along c' ∧ header.indent ≠ some 0 := by
    cases read
    exact ⟨.skip _ here inside, nofun⟩
  unfold header? at read
  split at read
  case h_1 a b rest here =>
    split at read
    case h_1 chomp marks =>
      have first := not_isBreak_of_chomp? marks
      split at read
      case isTrue digit =>
        exact given [a, b] here (by simp [first, not_isBreak_of_isDigit digit]) read
      case isFalse => exact free [a] here (by simp [first]) read
    case h_2 chomp _ marks =>
      split at read
      case isTrue digit =>
        exact given [a, b] here
          (by simp [not_isBreak_of_chomp? marks, not_isBreak_of_isDigit digit]) read
      case isFalse => exact free [] rfl nofun read
    case h_3 =>
      split at read
      case isTrue digit => exact given [a] here (by simp [not_isBreak_of_isDigit digit]) read
      case isFalse => exact free [] rfl nofun read
  case h_2 a here =>
    split at read
    case h_1 chomp marks => exact free [a] here (by simp [not_isBreak_of_chomp? marks]) read
    case h_2 =>
      split at read
      case isTrue digit => exact given [a] here (by simp [not_isBreak_of_isDigit digit]) read
      case isFalse => exact free [] rfl nofun read
  case h_3 => exact free [] rfl nofun read

theorem readBreak?_newline (here : c.rest = '\n' :: rest) :
    c.readBreak? = some ('\n', ⟨rest, c.line + 1, 0, c.index + 1⟩) := by
  simp [Cursor.readBreak?, here, isBreak]

-- If a line can end behind a word, the word is empty or begins a comment.
theorem endOfLine?_word (solid : ∀ d ∈ word, isSolid d) (here : c.rest = word ++ '\n' :: rest)
    (ended : endOfLine? c = some c') : c'.rest = rest ∧ c'.column = 0 := by
  have blanks : c.skipBlanks = c := Cursor.skipWhile_of_head fun d head => by
    cases word with
    | nil =>
      rw [here] at head
      cases head
      rfl
    | cons e word =>
      rw [here] at head
      cases head
      exact not_isBlank_of_isSolid (solid d List.mem_cons_self)
  have broken {c : Cursor} (here : c.rest = '\n' :: rest)
      (ended : (if c.rest = [] then some c else c.readBreak?.map (·.2)) = some c') :
      c'.rest = rest ∧ c'.column = 0 := by
    rw [if_neg (by simp [here]), readBreak?_newline here] at ended
    cases ended
    exact ⟨rfl, rfl⟩
  rw [endOfLine?, blanks] at ended
  cases word with
  | nil => exact broken here (by simpa [here] using ended)
  | cons d word =>
    by_cases comment : d = '#'
    case pos =>
      have line : c.skipToBreak = c.skip (d :: word).length :=
        Cursor.skipWhile_of_split _ here (fun e mem => by simp [not_isBreak_of_isSolid (solid e mem)])
          fun e head => by cases head; rfl
      have head : c.rest.head? = some '#' := by rw [here, ← comment]; rfl
      rw [if_pos head, line] at ended
      exact broken (by simp [Cursor.skip, here]) ended
    case neg =>
      have head : c.rest.head? ≠ some '#' := by simp [here, comment]
      have solid : ∀ e, c.rest.head? = some e → isBreak e = false := fun e first => by
        rw [here] at first
        cases first
        exact not_isBreak_of_isSolid (solid d List.mem_cons_self)
      rw [if_neg head, if_neg (by simp [here]), Cursor.readBreak?_of_not_isBreak solid] at ended
      cases ended

theorem blanks?_newline {given : Option Nat} (here : c.rest = '\n' :: '#' :: rest) (start : c.column = 0) :
    blanks? given [] 0 c (fuel + 2) = some ⟨['\n'], 0, ⟨'#' :: rest, c.line + 1, 0, c.index + 1⟩⟩ := by
  have first : c.readBreak? = some ('\n', ⟨'#' :: rest, c.line + 1, 0, c.index + 1⟩) := readBreak?_newline here
  have second : (Cursor.mk ('#' :: rest) (c.line + 1) 0 (c.index + 1)).readBreak? = none :=
    Cursor.readBreak?_of_not_isBreak fun d head => by cases head; rfl
  have stay (c : Cursor) : c.skip 0 = c := rfl
  cases given <;> simp [blanks?, here, start, stay, first, second]

-- A block holds no line if the next one is not indented.
theorem blank_of_ofCursor? {outer : Nat} {d : Char} (solid : ∀ d ∈ word, isSolid d)
    (here : c.rest = d :: (word ++ '\n' :: '\n' :: '#' :: rest))
    (read : ofCursor? folded outer c = some (text, c')) : ∀ d ∈ text, d = '\n' := by
  simp only [ofCursor?, Option.bind_eq_bind, Option.bind_eq_some_iff] at read
  obtain ⟨⟨header, c₁⟩, header_read, c₂, ended, b, blanks, s, lines, eq⟩ := read
  obtain ⟨along, given⟩ := along_of_header? header_read
  have behind : (c.skip 1).rest = word ++ '\n' :: '\n' :: '#' :: rest := by simp [Cursor.skip, here]
  obtain ⟨front, back, rfl, left, _⟩ := along.in_word _ behind
  obtain ⟨next, start⟩ := endOfLine?_word (fun d mem => solid d (List.mem_append_right _ mem)) left ended
  have enough : c₂.rest.length + 1 = rest.length + 1 + 2 := by simp [next]
  rw [enough, blanks?_newline next start] at blanks
  cases blanks
  dsimp only at lines eq
  have farther : (0 : Nat) ≠ (header.indent.map fun n => if 0 ≤ (outer : Int) then (outer : Int).toNat + n else n).getD
      (max 0 (max ((outer : Int) + 1).toNat 1)) := by
    cases indent : header.indent with
    | none =>
      simp only [Option.map_none, Option.getD_none]
      omega
    | some n =>
      have pos : n ≠ 0 := fun zero => given (indent.trans (congrArg some zero))
      simp
      omega
  generalize (header.indent.map fun n => if 0 ≤ (outer : Int) then (outer : Int).toNat + n else n).getD
    (max 0 (max ((outer : Int) + 1).toNat 1)) = indent at farther lines
  rw [lines?, if_pos (by simp [farther])] at lines
  cases lines
  cases eq
  cases header.chomp <;> simp

end Block
end AirRelease.Yaml
