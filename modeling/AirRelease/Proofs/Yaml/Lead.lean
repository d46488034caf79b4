import AirRelease.Proofs.Yaml.Block
import AirRelease.Proofs.Yaml.Line
import AirRelease.Proofs.Yaml.Quoted
import AirRelease.Proofs.Yaml.Tag

namespace AirRelease.Yaml.Token

open Text (width Settled)

variable {c : Cursor} {w more : List Char} {text : String} {column n : Nat} {indent : Int} {outer : List Int}
  {ts : List Token}

theorem isSolid_of_filled {d : Char} (filled : Text.isBlank d = false) : isSolid d := by
  by_contra gap
  simp only [isSolid, isBlank, isBreak, Bool.and_eq_true, Bool.not_eq_true', Bool.or_eq_false_iff,
    decide_eq_false_iff_not, not_and_or, Decidable.not_not] at gap
  rcases gap with (rfl | rfl) | (((rfl | rfl) | rfl) | rfl) | rfl <;> revert filled <;> decide

def isProperty : Token → Bool
  | anchor _ | tag _ => true
  | _ => false

-- The scalar that the tokens begin with, behind an anchor and a tag.
def lead (ts : List Token) : Option String :=
  match ts.dropWhile isProperty with
  | scalar text _ :: _ => some text
  | _ => none

theorem lead_property {t : Token} (property : isProperty t) (ts : List Token) : lead (t :: ts) = lead ts := by
  rw [lead, List.dropWhile_cons_of_pos property, lead]

-- The text cannot be the word in other letters.
def Lacks (text : String) (w : List Char) : Prop :=
  (∀ d ∈ text.toList, Text.isBlank d) ∨ width text.toList < w.length

-- A value that begins with these tokens is the word, or a text that cannot be the word.
def ReadAs (w : List Char) (ts : List Token) : Prop :=
  ∀ text, lead ts = some text → Stands w ∧ text.toList = w ∨ Lacks text w

theorem ReadAs.of_none (none : lead ts = none) : ReadAs w ts := by
  intro text found
  rw [none] at found
  cases found

namespace Reader

section Clear

variable {r : Reader}

theorem readTag?_clear : (clear c indent outer false n).readTag? =
    (Tag.ofCursor? false c).map fun (t, c) => ⟨c, indent, outer, false, [none], n, [tag t]⟩ := by
  cases read : Tag.ofCursor? false c <;> simp [readTag?, markCandidate?, clear, allowKey, push, inFlow, read]

theorem readBlock?_clear (folded : Bool) : (clear c indent outer false n).readBlock? folded =
    (Block.ofCursor? folded indent c).map fun (text, c) =>
      ⟨c, indent, outer, true, [none], n, [scalar (String.ofList text) false]⟩ := by
  cases read : Block.ofCursor? folded indent c <;>
    simp [readBlock?, dropCandidate?, clear, allowKey, push, read]

theorem readQuoted?_clear (single : Bool) : (clear c indent outer false n).readQuoted? single =
    (Quoted.ofCursor? single c).map fun (text, c) =>
      ⟨c, indent, outer, false, [none], n, [scalar (String.ofList text) false]⟩ := by
  cases read : Quoted.ofCursor? single c <;> simp [readQuoted?, markCandidate?, clear, allowKey, push, read]

theorem readAnchor?_clear (t : String → Token) : (clear c indent outer false n).readAnchor? t =
    let name := (c.skip 1).rest.takeWhile isNameChar
    let c := (c.skip 1).skipWhile isNameChar
    if name = [] || !endsName c.rest then none
    else some ⟨c, indent, outer, false, [none], n, [t (String.ofList name)]⟩ :=
  rfl

theorem along_of_readAnchor? {t : String → Token} (read : (clear c indent outer false n).readAnchor? t = some r) :
    ∃ c' name, (c.skip 1).Along c' ∧ r = ⟨c', indent, outer, false, [none], n, [t name]⟩ := by
  rw [readAnchor?_clear] at read
  dsimp only at read
  split at read
  case isTrue => cases read
  case isFalse =>
    cases read
    refine ⟨_, _, Cursor.Along.skipWhile (p := isNameChar) fun d name => ?_, rfl⟩
    exact Tag.not_isBreak_of_isWideUriChar (by simp [Tag.isWideUriChar, Tag.isUriChar, name])

end Clear

end Reader

-- A colon at the end of a word ends the scalar before it.
theorem Gives.ofColon {u rest : List Char} {P : List Token → Prop} (plain : isWord (u ++ [':'])) (filled : u ≠ [])
    (gap : isGap rest) (start : 0 < column) (fault : P [])
    (holds : ∀ ts, P (scalar (String.ofList u) true :: ts)) : Gives (u ++ ':' :: rest) column 0 [-1] false P := by
  obtain ⟨first, u, rfl⟩ := List.exists_cons_of_ne_nil filled
  obtain ⟨_, _, eq, other, _, solid⟩ := isWord_iff.mp plain
  cases eq
  intro line index n fuel passed enough
  obtain ⟨fuel, rfl⟩ := Nat.exists_eq_add_one_of_ne_zero (Nat.ne_of_gt (Nat.zero_lt_of_lt enough))
  have comment : first ≠ '#' := by rintro rfl; exact other (by decide)
  have solid_u : ∀ d ∈ first :: u, isSolid d := fun d mem => solid d (List.mem_append_left _ mem)
  have here : (Reader.clear ⟨first :: u ++ ':' :: rest, line, column, index⟩ 0 [-1] false n).cursor.rest =
      first :: (u ++ ':' :: rest) := rfl
  have unmarked : (Cursor.mk (first :: u ++ ':' :: rest) line column index).atDocumentMark = false :=
    Cursor.not_atDocumentMark (Nat.ne_of_gt start)
  have no_gap : isGap (u ++ ':' :: rest) = false := isGap_colon fun d mem => solid_u d (List.mem_cons_of_mem _ mem)
  have scanned : Plain.ofCursor? false 1 ⟨first :: u ++ ':' :: rest, line, column, index⟩ = some ⟨first :: u, false,
      Cursor.skip ⟨first :: u ++ ':' :: rest, line, column, index⟩ (first :: u).length⟩ :=
    Plain.ofCursor?_colon rfl filled unmarked (by simpa using comment) solid_u gap
  refine tokens_cases (P := P) here (solid_u first List.mem_cons_self) comment passed rfl (Int.natCast_nonneg _) fault
    fun r' read => ?_
  rw [Reader.readToken?_plain rfl unmarked (solid_u first List.mem_cons_self) other fun _ => no_gap,
    Reader.readPlain?_clear] at read
  cases (congrArg (Option.map _) scanned).symm.trans read
  exact .single rfl (holds _)

section Special

variable {first : Char} {rest : List Char} {r : Reader} {fuel : Nat}

theorem ReadAs.anchor {back : List Char} (settled : ∀ d ∈ back, Settled d) (shorter : back.length < w.length)
    (name : String) (read : ReadAs back ts) : ReadAs w (anchor name :: ts) := by
  intro text found
  rw [lead_property rfl] at found
  rcases read text found with ⟨_, same⟩ | blank | narrow
  · exact .inr (.inr (by rwa [same, Text.width_of_settled settled]))
  · exact .inr (.inl blank)
  · exact .inr (.inr (narrow.trans shorter))

theorem ReadAs.tag (t : Tag) (read : ReadAs w ts) : ReadAs w (tag t :: ts) := by
  intro text found
  rw [lead_property rfl] at found
  exact read text found

-- What is read of a word that is special in its first character, or that is but a mark.
theorem yields_of_special (here : c.rest = first :: (rest ++ '\n' :: '\n' :: '#' :: more)) (inner : c.column ≠ 0)
    (passed : 0 < c.index) (enough : (rest ++ '\n' :: '\n' :: '#' :: more).length < fuel)
    (settled : ∀ d ∈ first :: rest, Settled d) (special : first ∈ indicators ∨ first ∈ ['-', '?', ':'] ∧ rest = [])
    (unquoted : ∀ single, Quoted.mark single ∉ more)
    (next : Gives ('#' :: more) 0 0 [-1] true (lead · = none))
    (shorter : ∀ back column, back.length < (first :: rest).length → (∀ d ∈ back, Settled d) → 0 < column →
      Gives (back ++ '\n' :: '\n' :: '#' :: more) column 0 [-1] false (ReadAs back))
    (read : (Reader.clear c 0 [-1] false n).readToken? first (rest ++ '\n' :: '\n' :: '#' :: more) = some r) :
    r.Yields fuel (ReadAs (first :: rest)) := by
  have behind : (c.skip 1).rest = rest ++ '\n' :: '\n' :: '#' :: more := by simp [Cursor.skip, here]
  have solid : ∀ d ∈ rest, isSolid d := fun d mem => isSolid_of_filled (settled d (List.mem_cons_of_mem _ mem)).filled
  have quoted (single : Bool) (read : (Reader.clear c 0 [-1] false n).readQuoted? single = some r)
      (mark : first = Quoted.mark single) : r.Yields fuel (ReadAs (first :: rest)) := by
    rw [Reader.readQuoted?_clear] at read
    obtain ⟨⟨text, c'⟩, quoted, eq⟩ := Option.map_eq_some_iff.mp read
    cases eq
    refine .single rfl fun text found => .inr (.inr ?_)
    cases found
    have outside : Quoted.mark single ∉ '\n' :: '\n' :: '#' :: more := by
      have other := unquoted single
      cases single <;> simpa [Quoted.mark] using other
    rw [String.toList_ofList]
    exact Nat.lt_succ_of_le (Quoted.width_of_ofCursor? (fun d mem => settled d (List.mem_cons_of_mem _ mem)) outside
      (mark ▸ here) quoted)
  have block (folded : Bool) (read : (Reader.clear c 0 [-1] false n).readBlock? folded = some r) :
      r.Yields fuel (ReadAs (first :: rest)) := by
    rw [Reader.readBlock?_clear] at read
    obtain ⟨⟨text, c'⟩, block, eq⟩ := Option.map_eq_some_iff.mp read
    cases eq
    refine .single rfl fun text found => .inr (.inl ?_)
    cases found
    rw [String.toList_ofList]
    intro d mem
    rw [@Block.blank_of_ofCursor? _ _ _ _ _ _ 0 _ solid here block d mem]
    rfl
  unfold Reader.readToken? at read
  rw [if_neg (by simp [inner]), if_neg (by simp [Cursor.atMarks, inner]),
    if_neg (by simp [Cursor.atMarks, inner])] at read
  split at read
  case h_1 | h_2 =>
    cases read
    exact ⟨rfl, rfl, rfl, .of_none rfl⟩
  case h_3 | h_4 | h_5 =>
    cases read
    exact .single rfl (.of_none rfl)
  case h_6 =>
    obtain ⟨c', name, _, rfl⟩ := Reader.along_of_readAnchor? read
    exact .single rfl (.of_none rfl)
  case h_7 =>
    obtain ⟨c', name, along, rfl⟩ := Reader.along_of_readAnchor? read
    obtain ⟨front, back, rfl, left, rfl⟩ := along.in_word _ behind
    have settled : ∀ d ∈ back, Settled d := fun d mem =>
      settled d (List.mem_cons_of_mem _ (List.mem_append_right _ mem))
    have less : back.length < ('&' :: (front ++ back)).length := by
      simp only [List.length_cons, List.length_append]
      omega
    refine .single rfl (.anchor settled less name ?_)
    refine (shorter back _ less settled ?_).apply left ?_ ?_
    · simp only [Cursor.skip]
      omega
    · simp only [Cursor.skip]
      omega
    · simp only [List.length_append] at enough ⊢
      omega
  case h_8 =>
    rw [Reader.readTag?_clear] at read
    obtain ⟨⟨t, c'⟩, tag_read, eq⟩ := Option.map_eq_some_iff.mp read
    cases eq
    obtain ⟨along, gap⟩ := Tag.along_of_ofCursor? here tag_read
    obtain ⟨front, back, split, left, rfl⟩ := along.in_word ('!' :: rest) here
    have whole : back = [] := by
      cases back with
      | nil => rfl
      | cons d back =>
        have filled : isSolid d := isSolid_of_filled (settled d (by simp [split])).filled
        simp [left, isGap_cons, filled] at gap
    subst whole
    refine .single rfl (.tag t (.of_none ?_))
    refine (Gives.newline (.newline next)).apply left ?_ ?_
    · exact Nat.add_pos_left passed _
    · simp only [List.length_append] at enough
      omega
  case h_9 => exact quoted true read rfl
  case h_10 => exact quoted false read rfl
  case h_11 | h_12 | h_13 =>
    obtain ⟨_, rfl⟩ := special.resolve_left (by decide)
    cases read
  case h_14 => exact block false read
  case h_15 => exact block true read
  case h_16 | h_17 | h_18 | h_19 => cases read
  case h_20 => simp_all [indicators]

end Special

-- What a word is read as, before an empty line and a comment.
theorem Gives.value (settled : ∀ d ∈ w, Settled d) (start : 0 < column)
    (unquoted : ∀ single, Quoted.mark single ∉ more) (next : Gives ('#' :: more) 0 0 [-1] true (lead · = none)) :
    Gives (w ++ '\n' :: '\n' :: '#' :: more) column 0 [-1] false (ReadAs w) := by
  induction length : w.length using Nat.strongRecOn generalizing w column with | ind _ ih
  have solid : ∀ d ∈ w, isSolid d := fun d mem => isSolid_of_filled (settled d mem).filled
  have none_next : Gives ('\n' :: '#' :: more) 0 0 [-1] true (ReadAs w) :=
    .newline fun line index n fuel passed enough => .of_none (next line index n fuel passed enough)
  cases w with
  | nil => exact .newline none_next
  | cons first rest =>
    by_cases comment : first = '#'
    case pos =>
      subst comment
      refine .comment ?_ none_next
      simpa using fun d mem => not_isBreak_of_isSolid (solid d (List.mem_cons_of_mem _ mem))
    by_cases plain : isWord (first :: rest)
    case pos =>
      by_cases last : (first :: rest).getLast? = some ':'
      case neg =>
        refine .ofWord (k := 1) (m := 0) ⟨plain, last⟩ start (Int.natCast_nonneg _) (Int.le_refl 0) nofun
          (fun d head => by cases head; rfl) fun _ _ _ _ _ _ text found => ?_
        cases found
        exact .inl ⟨⟨plain, last⟩, String.toList_ofList⟩
      case pos =>
        obtain ⟨u, split⟩ := List.getLast?_eq_some_iff.mp last
        have filled : u ≠ [] := by
          rintro rfl
          rw [split] at plain
          exact absurd plain (by decide)
        rw [split] at plain settled ⊢
        rw [List.append_assoc]
        refine .ofColon plain filled rfl start (.of_none rfl) fun ts text found => .inr (.inr ?_)
        cases found
        rw [String.toList_ofList, Text.width_of_settled fun d mem => settled d (List.mem_append_left _ mem)]
        simp
    case neg =>
      have special : first ∈ indicators ∨ first ∈ ['-', '?', ':'] ∧ rest = [] := by
        by_contra ordinary
        obtain ⟨other, mark⟩ := not_or.mp ordinary
        exact plain (isWord_iff.mpr ⟨first, rest, rfl, other, fun among empty => mark ⟨among, empty⟩, solid⟩)
      intro line index n fuel passed enough
      obtain ⟨fuel, rfl⟩ := Nat.exists_eq_add_one_of_ne_zero (Nat.ne_of_gt (Nat.zero_lt_of_lt enough))
      have here : (Reader.clear ⟨first :: rest ++ '\n' :: '\n' :: '#' :: more, line, column, index⟩ 0 [-1] false
        n).cursor.rest = first :: (rest ++ '\n' :: '\n' :: '#' :: more) := rfl
      refine tokens_cases (P := ReadAs (first :: rest)) here (solid first List.mem_cons_self) comment passed rfl
        (Int.natCast_nonneg _) (.of_none rfl) fun r' read => ?_
      exact yields_of_special here (Nat.ne_of_gt start) passed (Nat.lt_of_succ_lt_succ enough) settled special
        unquoted next (fun back column less settled start => ih _ (length ▸ less) settled start rfl) read

end AirRelease.Yaml.Token
