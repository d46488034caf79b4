import Mathlib.Data.List.DropRight
import Mathlib.Data.List.TakeDrop
import AirRelease.Json.Decode

namespace AirRelease.Json

-- A value as programs make it: every text is there, every number is a natural number, and nothing is
-- broken.
inductive Plain : Json → Prop
  | null : Plain null
  | bool (b : Bool) : Plain (bool b)
  | number (n : Nat) : Plain (ofNat n)
  | string (s : String) : Plain (ofString s)
  | array (items : List Json) (plain : ∀ j ∈ items, Plain j) : Plain (array items)
  | object (members : List (Option String × Json)) (keyed : ∀ m ∈ members, m.1.isSome)
    (plain : ∀ m ∈ members, Plain m.2) : Plain (object members)

theorem Plain.ofFields {fields : List (String × Json)} (plain : ∀ f ∈ fields, Plain f.2) :
    Plain (.ofFields fields) := by
  refine .object _ (fun m mem => ?_) fun m mem => ?_
  all_goals obtain ⟨f, among, rfl⟩ := List.mem_map.mp mem
  · rfl
  · exact plain f among

section Text

-- An escaped character reads as one piece, which stands for the character.
theorem joinPieces_unit {n : Nat} (small : n < 0x20) (pieces : List Piece) :
    joinPieces (.unit n :: pieces) = (joinPieces pieces).map (Char.ofNat n :: ·) := by
  have high : isHigh n = false := by simp [isHigh]; omega
  have low : isLow n = false := by simp [isLow]; omega
  match pieces with
  | [] => simp [joinPieces, high, low]
  | .char c :: rest => simp [joinPieces, high, low]
  | .unit m :: rest => simp [joinPieces, high, low]

theorem hex?_control {n : Nat} (small : n < 0x20) :
    Text.hex? ['0', '0', Text.hexDigit (n / 16), Text.hexDigit n] = some n := by
  revert n
  decide

-- The string goes on after a piece.
def onward (piece : Piece) (scanned : Option (List Piece × List Char)) :
    Option (List Piece × List Char) :=
  scanned.map fun (pieces, rest) => (piece :: pieces, rest)

theorem scanString_short {c e : Char} (short : unescape? e = some c) (tail : List Char) :
    scanString ('\\' :: e :: tail) = onward (.char c) (scanString tail) := by
  have other : e ≠ 'u' := by rintro rfl; exact nomatch short
  rw [scanString.eq_4 _ _ (by simp [other])]
  simp only [short, onward]
  cases scanString tail <;> rfl

theorem scanString_unit {n : Nat} {a b c d : Char} (unit : Text.hex? [a, b, c, d] = some n)
    (tail : List Char) :
    scanString ('\\' :: 'u' :: a :: b :: c :: d :: tail) = onward (.unit n) (scanString tail) := by
  rw [scanString]
  simp only [unit, onward]
  cases scanString tail <;> rfl

theorem scanString_plain {c : Char} (quote : c ≠ '"') (escape : c ≠ '\\') (large : ¬c.toNat < 0x20)
    (tail : List Char) : scanString (c :: tail) = onward (.char c) (scanString tail) := by
  rw [scanString, if_neg large]
  · simp only [onward]
    cases scanString tail <;> rfl
  all_goals simp [quote, escape]

theorem scanString_escapeChar (c : Char) (tail : List Char) : ∃ piece,
    scanString (escapeChar c ++ tail) = onward piece (scanString tail) ∧
    ∀ pieces, joinPieces (piece :: pieces) = (joinPieces pieces).map (c :: ·) := by
  unfold escapeChar
  split
  case h_8 quote escape _ _ _ _ _ =>
    split
    case isTrue control =>
      refine ⟨.unit c.toNat, scanString_unit (hex?_control control) tail, fun pieces => ?_⟩
      rw [joinPieces_unit control, Char.ofNat_toNat]
    case isFalse large =>
      exact ⟨.char c, scanString_plain quote escape large tail, fun _ => by rw [joinPieces]⟩
  all_goals exact ⟨.char _, scanString_short rfl tail, fun _ => by rw [joinPieces]⟩

theorem scanString_quote (cs rest : List Char) : ∃ pieces,
    scanString (cs.flatMap escapeChar ++ '"' :: rest) = some (pieces, rest) ∧
      joinPieces pieces = some cs := by
  induction cs with
  | nil => exact ⟨[], by simp [scanString], by rw [joinPieces]⟩
  | cons c cs ih =>
    obtain ⟨pieces, scanned, joined⟩ := ih
    obtain ⟨piece, first, join⟩ := scanString_escapeChar c (cs.flatMap escapeChar ++ '"' :: rest)
    refine ⟨piece :: pieces, ?_, by rw [join, joined, Option.map_some]⟩
    rw [List.flatMap_cons, List.append_assoc, first, scanned, onward, Option.map_some]

theorem scanString_text (s : String) (rest : List Char) : ∃ pieces,
    scanString (s.toList.flatMap escapeChar ++ '"' :: rest) = some (pieces, rest) ∧
      stringText pieces = some s := by
  obtain ⟨pieces, scanned, joined⟩ := scanString_quote s.toList rest
  exact ⟨pieces, scanned, by rw [stringText, joined, Option.map_some, String.ofList_toList]⟩

end Text

section Number

-- What follows does not go on with a number.
def Ended (rest : List Char) : Prop :=
  ∀ c, rest.head? = some c → c = ',' ∨ c = '\n' ∨ c = '\x7d'

theorem head?_writeDecimal {n : Nat} (pos : 0 < n) : (Text.writeDecimal n).head? ≠ some '0' := by
  induction n using Nat.strongRecOn with
  | ind n ih =>
    rw [Text.writeDecimal, Nat.toDigits_eq_if (by decide)]
    split
    case isTrue small =>
      have digit : ∀ n < 10, 0 < n → n.digitChar ≠ '0' := by decide
      exact fun zero => digit n small pos (Option.some.inj zero)
    case isFalse large =>
      have front := ih (n / 10) (by omega) (by omega)
      rw [List.head?_append, Option.or_of_isSome]
      · exact front
      · exact List.isSome_head?.mpr (Text.writeDecimal_ne_nil (n / 10))

-- It begins with a digit.
theorem writeDecimal_eq_cons (n : Nat) : ∃ c cs, Text.writeDecimal n = c :: cs ∧
    ∀ d : Char, d.isDigit = false → c ≠ d := by
  obtain ⟨c, cs, written⟩ := List.exists_cons_of_ne_nil (Text.writeDecimal_ne_nil n)
  refine ⟨c, cs, written, fun d other same => ?_⟩
  have digit := List.all_eq_true.mp (Text.all_isDigit_writeDecimal n) c (by simp [written])
  rw [same, other] at digit
  cases digit

section Ended

variable {rest : List Char} (ended : Ended rest)
include ended

theorem digits?_writeDecimal (n : Nat) :
    digits? (Text.writeDecimal n ++ rest) = some (Text.writeDecimal n, rest) := by
  have stop : rest.takeWhile Char.isDigit = [] := by
    cases rest with
    | nil => rfl
    | cons c cs => rcases ended c rfl with rfl | rfl | rfl <;> rfl
  have span : (Text.writeDecimal n ++ rest).span Char.isDigit = (Text.writeDecimal n, rest) := by
    have digits := List.all_eq_true.mp (Text.all_isDigit_writeDecimal n)
    have stop' : rest.dropWhile Char.isDigit = rest := by
      have split := List.takeWhile_append_dropWhile (p := Char.isDigit) (l := rest)
      rwa [stop] at split
    rw [List.span_eq_takeWhile_dropWhile, List.takeWhile_append_of_pos digits,
      List.dropWhile_append_of_pos digits, stop, stop', List.append_nil]
  unfold digits?
  rw [span]
  split
  case h_1 empty => exact absurd (congrArg Prod.fst empty) (Text.writeDecimal_ne_nil n)
  case h_2 => rfl

theorem whole?_writeDecimal (n : Nat) :
    whole? (Text.writeDecimal n ++ rest) = some (Text.writeDecimal n, rest) := by
  unfold whole?
  rw [digits?_writeDecimal ended]
  split
  case h_1 zero =>
    have written := (Prod.mk.inj (Option.some.inj zero)).1
    have none : n = 0 := by
      by_contra pos
      exact head?_writeDecimal (Nat.pos_of_ne_zero pos) (by rw [written, List.head?_cons])
    subst none
    exact nomatch (List.cons.inj written).2
  case h_2 empty => cases empty
  case h_3 found => exact found.symm

theorem unsigned?_writeDecimal (n : Nat) :
    unsigned? (Text.writeDecimal n ++ rest) = some (Text.writeDecimal n, rest) := by
  have fraction : fraction? rest = some ([], rest) := by
    cases rest with
    | nil => rfl
    | cons c cs => rcases ended c rfl with rfl | rfl | rfl <;> rfl
  have exponent : exponent? rest = some ([], rest) := by
    cases rest with
    | nil => rfl
    | cons c cs => rcases ended c rfl with rfl | rfl | rfl <;> rfl
  simp [unsigned?, whole?_writeDecimal ended, fraction, exponent]

theorem scanPlain_writeDecimal (n : Nat) :
    scanPlain (Text.writeDecimal n ++ rest) = some (ofNat n, rest) := by
  have unsigned := unsigned?_writeDecimal ended n
  obtain ⟨c, cs, written, ne⟩ := writeDecimal_eq_cons n
  rw [written, List.cons_append] at unsigned
  rw [ofNat, written, List.cons_append, scanPlain, number?, unsigned, Option.map_some]
  · exact fun _ same => ne _ rfl (List.cons.inj same).1
  all_goals simp [ne]

end Ended
end Number

section Spaces

variable (fuel : Nat) (cs : List Char)

theorem skipSpaces_skipSpaces : skipSpaces (skipSpaces cs) = skipSpaces cs :=
  List.dropWhile_idempotent ..

theorem skipSpaces_newline (depth : Nat) : skipSpaces (newline depth ++ cs) = skipSpaces cs := by
  refine List.dropWhile_append_of_pos fun c mem => ?_
  rcases List.mem_cons.mp mem with rfl | mem
  · rfl
  · cases List.eq_of_mem_replicate mem
    rfl

theorem scanValue_skipSpaces : scanValue fuel (skipSpaces cs) = scanValue fuel cs := by
  cases fuel with
  | zero => rfl
  | succ => simp only [scanValue, skipSpaces_skipSpaces]

theorem scanItems_skipSpaces : scanItems fuel (skipSpaces cs) = scanItems fuel cs := by
  cases fuel with
  | zero => rfl
  | succ => simp only [scanItems, scanValue_skipSpaces]

theorem scanMembers_skipSpaces : scanMembers fuel (skipSpaces cs) = scanMembers fuel cs := by
  cases fuel with
  | zero => rfl
  | succ => simp only [scanMembers, skipSpaces_skipSpaces]

theorem scanValue_newline (depth : Nat) : scanValue fuel (newline depth ++ cs) = scanValue fuel cs := by
  rw [← scanValue_skipSpaces, skipSpaces_newline, scanValue_skipSpaces]

end Spaces

-- What is laid out of the value reads back, whatever follows it.
def Reads (j : Json) : Prop :=
  ∀ ⦃depth fuel rest⦄, Ended rest → 2 * (j.layOut depth).length ≤ fuel →
    scanValue fuel (j.layOut depth ++ rest) = (j, some rest)

theorem ended_newline (depth : Nat) (cs : List Char) : Ended (newline depth ++ cs) := by
  intro c first
  exact .inr (.inl (Option.some.inj first).symm)

theorem ended_comma (cs : List Char) : Ended (',' :: cs) := by
  intro c first
  exact .inl (Option.some.inj first).symm

theorem length_newline (depth : Nat) : (newline depth).length = 2 * depth + 1 := by
  simp [newline]

-- Every item takes one step of the fuel, and so does its value.
theorem scanItems_layOut {items : List Json} (ne : items ≠ []) (reads : ∀ j ∈ items, Reads j)
    {depth fuel outer : Nat} {rest : List Char}
    (enough : 2 * (layOutItems depth items).length ≤ fuel) :
    scanItems fuel (layOutItems depth items ++ (newline outer ++ ']' :: rest)) = (items, some rest) := by
  induction items generalizing fuel with
  | nil => exact absurd rfl ne
  | cons item others ih =>
    have first := reads item List.mem_cons_self
    obtain ⟨fuel, rfl⟩ : ∃ less, fuel = less + 1 := by
      refine Nat.exists_eq_succ_of_ne_zero fun none => ?_
      cases others <;> simp only [layOutItems, none, List.length_append, length_newline] at enough <;> omega
    cases others with
    | nil =>
      simp only [layOutItems, List.length_append, length_newline] at enough ⊢
      rw [List.append_assoc, scanItems, scanValue_newline, first (ended_newline _ _) (by omega)]
      simp only [skipSpaces_newline]
      rfl
    | cons other others =>
      simp only [layOutItems, List.length_append, List.length_cons, length_newline] at enough ⊢
      have after := ih (List.cons_ne_nil _ _) (fun j mem => reads j (List.mem_cons_of_mem _ mem))
        (show _ ≤ fuel by omega)
      rw [List.append_assoc, List.append_assoc, scanItems, scanValue_newline, List.cons_append,
        first (ended_comma _) (by omega)]
      have comma (cs : List Char) : skipSpaces (',' :: cs) = ',' :: cs := rfl
      simp only [comma, after]

-- How the members go on when the value of one has been read.
def afterValue (key : String) (fuel : Nat) :
    Json × Option (List Char) → List (Option String × Json) × Option (List Char)
  | (value, none) => ([(some key, value)], none)
  | (value, some rest) =>
    match skipSpaces rest with
    | ',' :: rest => ((some key, value) :: (scanMembers fuel rest).1, (scanMembers fuel rest).2)
    | '\x7d' :: rest => ([(some key, value)], some rest)
    | _ => ([(some key, value), (none, broken)], none)

theorem scanMembers_key (key : String) (fuel : Nat) (cs : List Char) :
    scanMembers (fuel + 1) (quote key ++ ':' :: cs) = afterValue key fuel (scanValue fuel cs) := by
  obtain ⟨pieces, scanned, text⟩ := scanString_text key (':' :: cs)
  have quoted (cs : List Char) : skipSpaces ('"' :: cs) = '"' :: cs := rfl
  have colon (cs : List Char) : skipSpaces (':' :: cs) = ':' :: cs := rfl
  rw [scanMembers, quote, List.cons_append, List.cons_append, List.append_assoc, List.cons_append,
    List.nil_append, quoted]
  simp only [scanned, text, colon]
  rfl

theorem scanMembers_member (key : String) (fuel depth : Nat) (cs : List Char) :
    scanMembers (fuel + 1) (newline depth ++ (quote key ++ ':' :: ' ' :: cs)) =
      scanMembers (fuel + 1) (quote key ++ ':' :: cs) := by
  have value : scanValue fuel (' ' :: cs) = scanValue fuel cs := by
    rw [← scanValue_skipSpaces, ← scanValue_skipSpaces fuel cs]
    rfl
  rw [← scanMembers_skipSpaces, skipSpaces_newline, scanMembers_skipSpaces, scanMembers_key, value,
    scanMembers_key]

theorem scanMembers_layOut {members : List (Option String × Json)} (ne : members ≠ [])
    (keyed : ∀ m ∈ members, m.1.isSome) (reads : ∀ m ∈ members, Reads m.2) {depth fuel outer : Nat}
    {rest : List Char} (enough : 2 * (layOutMembers depth members).length ≤ fuel) :
    scanMembers fuel (layOutMembers depth members ++ (newline outer ++ '\x7d' :: rest)) =
      (members, some rest) := by
  induction members generalizing fuel with
  | nil => exact absurd rfl ne
  | cons member others ih =>
    obtain ⟨key, value⟩ := member
    have first : Reads value := reads _ List.mem_cons_self
    obtain ⟨key, rfl⟩ := Option.isSome_iff_exists.mp (keyed _ List.mem_cons_self)
    obtain ⟨fuel, rfl⟩ : ∃ less, fuel = less + 1 := by
      refine Nat.exists_eq_succ_of_ne_zero fun none => ?_
      cases others <;> simp only [layOutMembers, none, List.length_append, length_newline] at enough <;> omega
    cases others with
    | nil =>
      simp only [layOutMembers, List.length_append, List.length_cons, length_newline] at enough ⊢
      simp only [quoteKey, Option.getD_some, List.append_assoc, List.cons_append, scanMembers_member,
        scanMembers_key]
      rw [first (ended_newline _ _) (by omega)]
      simp only [afterValue, skipSpaces_newline]
      rfl
    | cons other others =>
      simp only [layOutMembers, List.length_append, List.length_cons, length_newline] at enough ⊢
      have after := ih (List.cons_ne_nil _ _) (fun m mem => keyed m (List.mem_cons_of_mem _ mem))
        (fun m mem => reads m (List.mem_cons_of_mem _ mem)) (show _ ≤ fuel by omega)
      simp only [quoteKey, Option.getD_some, List.append_assoc, List.cons_append, scanMembers_member,
        scanMembers_key]
      rw [first (ended_comma _) (by omega)]
      have comma (cs : List Char) : skipSpaces (',' :: cs) = ',' :: cs := rfl
      simp only [afterValue, comma, after]

-- A laid out value begins with a character of its own.
theorem layOut_eq_cons {j : Json} (plain : Plain j) (depth : Nat) : ∃ c cs, j.layOut depth = c :: cs ∧
    isSpace c = false ∧ c ≠ ']' := by
  cases plain with
  | null => exact ⟨_, _, rfl, rfl, by decide⟩
  | bool b => cases b <;> exact ⟨_, _, rfl, rfl, by decide⟩
  | number n =>
    obtain ⟨c, cs, written, ne⟩ := writeDecimal_eq_cons n
    exact ⟨c, cs, written, by simp [isSpace, ne], ne _ rfl⟩
  | string s => exact ⟨_, _, rfl, rfl, by decide⟩
  | array items => cases items <;> exact ⟨_, _, rfl, rfl, by decide⟩
  | object members => cases members <;> exact ⟨_, _, rfl, rfl, by decide⟩

theorem reads_null : Reads null := by
  intro depth fuel rest ended enough
  cases fuel with
  | zero => exact absurd enough (by simp [layOut])
  | succ fuel => rfl

theorem reads_bool (b : Bool) : Reads (bool b) := by
  intro depth fuel rest ended enough
  cases fuel with
  | zero => exact absurd enough (by cases b <;> simp [layOut])
  | succ fuel => cases b <;> rfl

theorem reads_ofNat (n : Nat) : Reads (ofNat n) := by
  intro depth fuel rest ended enough
  cases fuel with
  | zero =>
    have filled := List.length_pos_of_ne_nil (Text.writeDecimal_ne_nil n)
    exact absurd enough (Nat.not_le.mpr (Nat.mul_pos (by decide) filled))
  | succ fuel =>
    obtain ⟨c, cs, written, ne⟩ := writeDecimal_eq_cons n
    have spaces : skipSpaces (Text.writeDecimal n ++ rest) = Text.writeDecimal n ++ rest := by
      rw [written]
      exact List.dropWhile_cons_of_neg (by simp [isSpace, ne])
    rw [ofNat, layOut, scanValue, spaces]
    split
    case h_4 => rw [scanPlain_writeDecimal ended, ofNat]
    all_goals
      rename_i first
      rw [written] at first
      exact absurd (List.cons.inj first).1 (ne _ rfl)

theorem reads_ofString (s : String) : Reads (ofString s) := by
  intro depth fuel rest ended enough
  cases fuel with
  | zero => exact absurd enough (by simp [ofString, layOut, quoteKey, quote])
  | succ fuel =>
    obtain ⟨pieces, scanned, text⟩ := scanString_text s rest
    have quoted (cs : List Char) : skipSpaces ('"' :: cs) = '"' :: cs := rfl
    simp only [ofString, layOut, quoteKey, Option.getD_some, quote, List.append_assoc, List.cons_append,
      List.nil_append, scanValue, quoted, scanned, text]

theorem scanValue_items {c : Char} {cs more : List Char} (first : skipSpaces cs = c :: more)
    (filled : c ≠ ']') (fuel : Nat) : scanValue (fuel + 1) ('[' :: cs) =
      (array (scanItems fuel cs).1, (scanItems fuel cs).2) := by
  have bracket : skipSpaces ('[' :: cs) = '[' :: cs := rfl
  rw [scanValue, bracket]
  simp only [first]
  split
  case h_1 closed => exact absurd (List.cons.inj closed).1 filled
  case h_2 => rw [← first, scanItems_skipSpaces]

theorem scanValue_members {c : Char} {cs more : List Char} (first : skipSpaces cs = c :: more)
    (filled : c ≠ '\x7d') (fuel : Nat) : scanValue (fuel + 1) ('\x7b' :: cs) =
      (object (scanMembers fuel cs).1, (scanMembers fuel cs).2) := by
  have bracket : skipSpaces ('\x7b' :: cs) = '\x7b' :: cs := rfl
  rw [scanValue, bracket]
  simp only [first]
  split
  case h_1 closed => exact absurd (List.cons.inj closed).1 filled
  case h_2 => rw [← first, scanMembers_skipSpaces]

theorem skipSpaces_items {item : Json} (plain : Plain item) (others : List Json) (depth : Nat)
    (cs : List Char) : ∃ c more, skipSpaces (layOutItems depth (item :: others) ++ cs) = c :: more ∧
      c ≠ ']' := by
  obtain ⟨c, rest, first, space, filled⟩ := layOut_eq_cons plain depth
  obtain ⟨more, split⟩ : ∃ more, layOutItems depth (item :: others) ++ cs = newline depth ++ c :: more := by
    cases others with
    | nil => exact ⟨rest ++ cs, by simp [layOutItems, first]⟩
    | cons => exact ⟨rest ++ ',' :: layOutItems depth _ ++ cs, by simp [layOutItems, first]; rfl⟩
  refine ⟨c, more, ?_, filled⟩
  rw [split, skipSpaces_newline]
  exact List.dropWhile_cons_of_neg (by simp [space])

theorem skipSpaces_members (key : String) (value : Json) (others : List (Option String × Json))
    (depth : Nat) (cs : List Char) : ∃ more,
      skipSpaces (layOutMembers depth ((some key, value) :: others) ++ cs) = '"' :: more := by
  obtain ⟨more, split⟩ : ∃ more, layOutMembers depth ((some key, value) :: others) ++ cs =
      newline depth ++ '"' :: more := by
    cases others <;> simp [layOutMembers, quoteKey, quote]
  refine ⟨more, ?_⟩
  rw [split, skipSpaces_newline]
  rfl

theorem reads_array {items : List Json} (plain : ∀ j ∈ items, Plain j) (reads : ∀ j ∈ items, Reads j) :
    Reads (array items) := by
  intro depth fuel rest ended enough
  cases fuel with
  | zero => exact absurd enough (by cases items <;> simp [layOut])
  | succ fuel =>
    cases items with
    | nil => rfl
    | cons item others =>
      simp only [layOut, List.length_append, List.length_cons] at enough
      have scanned := @scanItems_layOut _ (List.cons_ne_nil item others) reads (depth + 1) fuel depth rest
        (by omega)
      have layout : layOut depth (array (item :: others)) ++ rest =
          '[' :: (layOutItems (depth + 1) (item :: others) ++ (newline depth ++ ']' :: rest)) := by
        simp [layOut]
      obtain ⟨c, more, first, filled⟩ := skipSpaces_items (plain item List.mem_cons_self) others
        (depth + 1) (newline depth ++ ']' :: rest)
      rw [layout, scanValue_items first filled, scanned]

theorem reads_object {members : List (Option String × Json)} (keyed : ∀ m ∈ members, m.1.isSome)
    (reads : ∀ m ∈ members, Reads m.2) : Reads (object members) := by
  intro depth fuel rest ended enough
  cases fuel with
  | zero => exact absurd enough (by cases members <;> simp [layOut])
  | succ fuel =>
    cases members with
    | nil => rfl
    | cons member others =>
      simp only [layOut, List.length_append, List.length_cons] at enough
      have scanned := @scanMembers_layOut _ (List.cons_ne_nil member others) keyed reads (depth + 1) fuel
        depth rest (by omega)
      have layout : layOut depth (object (member :: others)) ++ rest =
          '\x7b' :: (layOutMembers (depth + 1) (member :: others) ++ (newline depth ++ '\x7d' :: rest)) := by
        simp [layOut]
      obtain ⟨key, value⟩ := member
      obtain ⟨key, rfl⟩ := Option.isSome_iff_exists.mp (keyed _ List.mem_cons_self)
      obtain ⟨more, first⟩ := skipSpaces_members key value others (depth + 1)
        (newline depth ++ '\x7d' :: rest)
      rw [layout, scanValue_members first nofun, scanned]

theorem reads_of_plain {j : Json} (plain : Plain j) : Reads j := by
  induction plain with
  | null => exact reads_null
  | bool b => exact reads_bool b
  | number n => exact reads_ofNat n
  | string s => exact reads_ofString s
  | array items plain ih => exact reads_array plain ih
  | object members keyed _ ih => exact reads_object keyed ih

theorem scan_pretty {j : Json} (plain : Plain j) : scan j.pretty = (j, true) := by
  have read := @reads_of_plain j plain 0 (2 * (j.layOut 0).length + 2) [] nofun (by omega)
  rw [List.append_nil] at read
  rw [scan, pretty, String.length_ofList, String.toList_ofList, read]
  rfl

theorem decode_pretty {α : Type} {j : Json} (plain : Plain j) (d : Decoder α) : decode d j.pretty = d j := by
  rw [decode, scan_pretty plain]
  cases read : d j <;> simp only [read] <;> rfl

end AirRelease.Json
