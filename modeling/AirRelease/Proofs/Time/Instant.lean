import Mathlib.Algebra.Group.Nat.Defs
import Mathlib.Data.List.TakeDrop
import Mathlib.Data.List.TakeWhile
import AirRelease.Proofs.Time.Date
import AirRelease.Time.Instant

namespace AirRelease.Instant

open Text (decimal? writeDecimal)

-- What a clock shows: no leap second, and a year that can be read.
structure Regular (i : Instant) : Prop where
  nanoseconds : i.nanoseconds < nanosecondsPerSecond
  least : minYear ≤ i.date.year
  most : i.date.year ≤ maxYear

instance (i : Instant) : Decidable i.Regular :=
  decidable_of_iff (i.nanoseconds < nanosecondsPerSecond ∧ minYear ≤ i.date.year ∧ i.date.year ≤ maxYear)
    ⟨fun ⟨nanoseconds, least, most⟩ => ⟨nanoseconds, least, most⟩,
      fun regular => ⟨regular.nanoseconds, regular.least, regular.most⟩⟩

-- A number with zeros in front.
def digits (width n : Nat) : List Char :=
  List.replicate (width - (writeDecimal n).length) '0' ++ writeDecimal n

theorem toList_padded (width n : Nat) : (padded width n).toList = digits width n :=
  String.toList_ofList

section Digits

variable {width n : Nat}

theorem isDigit_digits : ∀ c ∈ digits width n, c.isDigit = true := by
  intro c mem
  rcases List.mem_append.mp mem with mem | mem
  · rw [List.eq_of_mem_replicate mem]
    rfl
  · exact List.all_eq_true.mp (Text.all_isDigit_writeDecimal n) c mem

theorem length_digits (pos : 0 < width) (fits : n < 10 ^ width) : (digits width n).length = width := by
  have short : (writeDecimal n).length ≤ width := (Nat.length_toDigits_le_iff (by decide) pos).mpr fits
  rw [digits, List.length_append, List.length_replicate]
  omega

theorem digits_ne_nil (width n : Nat) : digits width n ≠ [] :=
  List.append_ne_nil_of_right_ne_nil _ (Text.writeDecimal_ne_nil n)

theorem ofDigitChars_zeros (k : Nat) (cs : List Char) :
    Nat.ofDigitChars 10 (List.replicate k '0' ++ cs) 0 = Nat.ofDigitChars 10 cs 0 := by
  induction k with
  | zero => rfl
  | succ k ih => exact ih

theorem decimal?_digits : decimal? (digits width n) = some n := by
  have all : (digits width n).all Char.isDigit := List.all_eq_true.mpr isDigit_digits
  rw [decimal?, if_neg (by simp only [digits_ne_nil, all, false_or, not_true_eq_false, not_false_eq_true]),
    digits, ofDigitChars_zeros, writeDecimal, Nat.ofDigitChars_ten_toDigits]

theorem exists_digits_eq_cons (width n : Nat) : ∃ c cs, digits width n = c :: cs ∧ c.isDigit = true := by
  obtain ⟨c, cs, eq⟩ := List.exists_cons_of_ne_nil (digits_ne_nil width n)
  exact ⟨c, cs, eq, isDigit_digits c (eq ▸ List.mem_cons_self)⟩

theorem takeWhile_digits {rest : List Char} (ended : ∀ c, rest.head? = some c → c.isDigit = false) :
    (digits width n ++ rest).takeWhile Char.isDigit = digits width n := by
  have stop : rest.takeWhile Char.isDigit = [] := by
    cases rest with
    | nil => rfl
    | cons c cs => exact List.takeWhile_cons_of_neg (by simp [ended c rfl])
  rw [List.takeWhile_append_of_pos isDigit_digits, stop, List.append_nil]

-- A number is read up to its width, or up to what does not belong to it.
theorem number?_of_width (pos : 0 < width) (fits : n < 10 ^ width) (rest : List Char) :
    number? width (digits width n ++ rest) = some (n, rest) := by
  have read : ((digits width n ++ rest).take width).takeWhile Char.isDigit = digits width n := by
    rw [List.take_left' (length_digits pos fits)]
    exact List.takeWhile_eq_self_iff.mpr isDigit_digits
  rw [number?, read, decimal?_digits, Option.map_some, List.drop_left]

theorem number?_of_ended {limit : Nat} {rest : List Char} (enough : (digits width n).length ≤ limit)
    (ended : ∀ c, rest.head? = some c → c.isDigit = false) :
    number? limit (digits width n ++ rest) = some (n, rest) := by
  have read : ((digits width n ++ rest).take limit).takeWhile Char.isDigit = digits width n := by
    obtain ⟨more, rfl⟩ := Nat.exists_eq_add_of_le enough
    rw [List.take_length_add_append]
    refine takeWhile_digits fun c first => ended c ?_
    cases more <;> simp_all [List.head?_take]
  rw [number?, read, decimal?_digits, Option.map_some, List.drop_left]

theorem isBlank_of_isDigit {c : Char} (digit : c.isDigit = true) : Text.isBlank c = false := by
  have range : 48 ≤ c.toNat ∧ c.toNat ≤ 57 := by
    simpa [Char.isDigit, UInt32.le_iff_toNat_le] using digit
  simp only [Text.isBlank, Bool.or_eq_false_iff, Bool.and_eq_false_iff, decide_eq_false_iff_not]
  omega

theorem trimLeft_digits (width n : Nat) (rest : List Char) :
    Text.trimLeft (digits width n ++ rest) = digits width n ++ rest := by
  obtain ⟨c, cs, eq, digit⟩ := exists_digits_eq_cons width n
  rw [eq, List.cons_append]
  exact Text.trimLeft_of_head (isBlank_of_isDigit digit) _

theorem field?_digits {low high : Nat} (least : low ≤ n) (most : n ≤ high) (fits : n < 100) (rest : List Char) :
    field? low high (digits 2 n ++ rest) = some (n, rest) := by
  rw [field?, trimLeft_digits, number?_of_width (by decide) fits]
  exact if_pos ⟨least, most⟩

end Digits

theorem mark?_self {c : Char} (filled : Text.isBlank c = false) (rest : List Char) :
    mark? c (c :: rest) = some rest := by
  rw [mark?, Text.trimLeft_of_head filled]
  exact if_pos rfl

theorem toList_yearText (year : Int) : (yearText year).toList =
    if 0 ≤ year ∧ year ≤ 9999 then digits 4 year.toNat
    else (if year < 0 then '-' else '+') :: digits 4 year.natAbs := by
  rw [yearText]
  split
  case isTrue => exact toList_padded ..
  case isFalse =>
    rw [String.toList_append, toList_padded]
    split <;> rfl

-- The mark that ends the year is not taken for a sign.
theorem year?_yearText (year : Int) (rest : List Char) :
    year? ((yearText year).toList ++ '-' :: rest) = some (year, '-' :: rest) := by
  have ended : ∀ c, ('-' :: rest).head? = some c → c.isDigit = false := by
    rintro c ⟨rfl⟩
    rfl
  rw [toList_yearText]
  split
  case isTrue plain =>
    obtain ⟨c, cs, eq, digit⟩ := exists_digits_eq_cons 4 year.toNat
    have small : year.toNat < 10 ^ 4 := by omega
    have number := number?_of_width (by decide) small ('-' :: rest)
    have trimmed := trimLeft_digits 4 year.toNat ('-' :: rest)
    rw [eq, List.cons_append] at number trimmed
    rw [year?, eq, List.cons_append, trimmed]
    split
    case h_1 minus =>
      cases (List.cons.inj minus).1
      cases digit
    case h_2 plus =>
      cases (List.cons.inj plus).1
      cases digit
    case h_3 =>
      rw [number, Option.map_some]
      simp only [Option.some.injEq, Prod.mk.injEq, and_true]
      omega
  case isFalse signed =>
    have enough : (digits 4 year.natAbs).length ≤ (digits 4 year.natAbs ++ '-' :: rest).length := by simp
    have number := number?_of_ended enough ended
    split
    case isTrue negative =>
      rw [year?, List.cons_append, Text.trimLeft_of_head rfl]
      simp only [number, Option.map_some, Option.some.injEq, Prod.mk.injEq, and_true]
      omega
    case isFalse positive =>
      rw [year?, List.cons_append, Text.trimLeft_of_head rfl]
      simp only [number, Option.map_some, Option.some.injEq, Prod.mk.injEq, and_true]
      omega

theorem date?_text {date : Date} (valid : date.Valid) (least : minYear ≤ date.year) (most : date.year ≤ maxYear)
    (rest : List Char) :
    date? ((yearText date.year).toList ++ '-' :: (digits 2 date.month ++ '-' :: (digits 2 date.day ++ rest))) =
      some (date, rest) := by
  have ⟨month_pos, month_le, day_pos, day_le⟩ := valid
  have day_le : date.day ≤ 31 := by
    refine day_le.trans ?_
    rw [Date.daysInMonth]
    split
    · split <;> omega
    · split <;> omega
  have month := field?_digits month_pos month_le (by omega) ('-' :: (digits 2 date.day ++ rest))
  have day := field?_digits day_pos day_le (by omega) rest
  have mark (cs : List Char) : mark? '-' ('-' :: cs) = some cs := mark?_self rfl cs
  simp only [date?, year?_yearText, mark, month, day, bind, Option.bind]
  exact if_pos ⟨valid, least, most⟩

theorem fraction?_digits {width n : Nat} (pos : 0 < width) (le : width ≤ 9) (fits : n < 10 ^ width)
    {rest : List Char} (ended : ∀ c, rest.head? = some c → c.isDigit = false) :
    fraction? ('.' :: (digits width n ++ rest)) = some (n * 10 ^ (9 - width), rest) := by
  have length := length_digits pos fits
  have short : (digits width n).take 9 = digits width n := List.take_of_length_le (by omega)
  have dropped : (digits width n ++ rest).drop width = rest := List.drop_left' length
  simp only [fraction?, takeWhile_digits ended, short, decimal?_digits, bind, Option.bind, length, dropped]
  rfl

theorem fraction?_fractionText {n : Nat} (fits : n < nanosecondsPerSecond) {c : Char} {rest : List Char}
    (digit : c.isDigit = false) (point : c ≠ '.') :
    fraction? ((fractionText n).toList ++ c :: rest) = some (n, c :: rest) := by
  have ended : ∀ d, (c :: rest).head? = some d → d.isDigit = false := by
    rintro d ⟨rfl⟩
    exact digit
  rw [nanosecondsPerSecond] at fits
  have group {width m : Nat} (pos : 0 < width) (le : width ≤ 9) (small : m < 10 ^ width) :
      fraction? (("." ++ padded width m).toList ++ c :: rest) = some (m * 10 ^ (9 - width), c :: rest) := by
    rw [String.toList_append, toList_padded]
    exact fraction?_digits pos le small ended
  unfold fractionText
  split
  case isTrue none =>
    rw [none]
    simp [fraction?, point]
  case isFalse =>
    split
    case isTrue milli =>
      rw [group (by decide) (by decide) (by omega)]
      simp only [Option.some.injEq, Prod.mk.injEq, and_true]
      omega
    case isFalse =>
      split
      case isTrue micro =>
        rw [group (by decide) (by decide) (by omega)]
        simp only [Option.some.injEq, Prod.mk.injEq, and_true]
        omega
      case isFalse =>
        rw [group (by decide) (by decide) (by omega)]
        simp

theorem time?_text {second nanoseconds : Nat} (day : second < 86400) (fits : nanoseconds < nanosecondsPerSecond)
    {c : Char} {rest : List Char} (digit : c.isDigit = false) (point : c ≠ '.') :
    time? (digits 2 (second / 3600) ++ ':' :: (digits 2 (second / 60 % 60) ++ ':' :: (digits 2 (second % 60) ++
      ((fractionText nanoseconds).toList ++ c :: rest)))) = some ((second, nanoseconds), c :: rest) := by
  have hour (cs : List Char) : field? 0 23 (digits 2 (second / 3600) ++ cs) = some (second / 3600, cs) :=
    field?_digits (Nat.zero_le _) (by omega) (by omega) cs
  have minute (cs : List Char) :
      field? 0 59 (digits 2 (second / 60 % 60) ++ cs) = some (second / 60 % 60, cs) :=
    field?_digits (Nat.zero_le _) (by omega) (by omega) cs
  have last (cs : List Char) : field? 0 60 (digits 2 (second % 60) ++ cs) = some (second % 60, cs) :=
    field?_digits (Nat.zero_le _) (by omega) (by omega) cs
  have mark (cs : List Char) : mark? ':' (':' :: cs) = some cs := mark?_self rfl cs
  have common : second % 60 ≠ 60 := by omega
  have sum : second / 3600 * 3600 + second / 60 % 60 * 60 + second % 60 = second := by omega
  simp only [time?, hour, minute, last, mark, fraction?_fractionText fits digit point, bind, Option.bind,
    if_neg common, sum]
  rfl

theorem toList_text {i : Instant} (regular : i.Regular) : i.text.toList =
    (yearText i.date.year).toList ++ '-' :: (digits 2 i.date.month ++ '-' :: (digits 2 i.date.day ++
      'T' :: (digits 2 ((i.seconds % secondsPerDay).toNat / 3600) ++
      ':' :: (digits 2 ((i.seconds % secondsPerDay).toNat / 60 % 60) ++
      ':' :: (digits 2 ((i.seconds % secondsPerDay).toNat % 60) ++
      ((fractionText i.nanoseconds).toList ++ ['Z'])))))) := by
  have leap : ¬nanosecondsPerSecond ≤ i.nanoseconds := Nat.not_le.mpr regular.nanoseconds
  have same (s : String) : toString s = s := rfl
  have dash : "-".toList = ['-'] := rfl
  have colon : ":".toList = [':'] := rfl
  have middle : "T".toList = ['T'] := rfl
  have zone : "Z".toList = ['Z'] := rfl
  simp only [text, if_neg leap, Nat.zero_mul, Nat.sub_zero, Nat.add_zero, same, String.toList_append,
    toList_padded, dash, colon, middle, zone, List.append_assoc, List.cons_append, List.nil_append]

theorem ofText?_text {i : Instant} (regular : i.Regular) : ofText? i.text = some i := by
  have day : (i.seconds % secondsPerDay).toNat < 86400 := by
    rw [secondsPerDay]
    omega
  have date (rest : List Char) := date?_text (Date.valid_ofDayNumber (i.seconds / secondsPerDay)) regular.least
    regular.most rest
  have time := @time?_text _ _ day regular.nanoseconds 'Z' [] rfl (by decide)
  have whole : i.date.dayNumber * secondsPerDay + (i.seconds % secondsPerDay).toNat - 0 = i.seconds := by
    rw [Instant.date, Date.dayNumber_ofDayNumber, secondsPerDay]
    omega
  have offset : offset? (Text.trimLeft ['Z']) = some (0, []) := rfl
  have ended : ¬Text.trimLeft [] ≠ [] := not_not.mpr rfl
  rw [ofText?, toList_text regular, Instant.date, date]
  simp only [bind, Option.bind, time, offset, if_neg ended]
  rw [Instant.date] at whole
  simp only [whole]
  exact if_pos ⟨regular.least, regular.most⟩

end AirRelease.Instant
