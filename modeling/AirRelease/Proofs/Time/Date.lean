import AirRelease.Time.Date

namespace AirRelease.Date

-- A day of an era of 400 years, and its year, counted from March.
section Era

variable {day year : Int} (least : 0 ≤ day) (most : day < daysIn400Years)
  (at_ : year = (day - day / 1460 + day / 36524 - day / 146096) / 365)
include least most at_

theorem year_mem : 0 ≤ year ∧ year < 400 := by
  simp only [daysIn400Years] at most
  omega

-- The last day of the era still belongs to its fourth century.
theorem century_eq : year / 100 = day / 36524 - day / 146096 := by
  simp only [daysIn400Years] at most
  have century : day / 36524 = 0 ∨ day / 36524 = 1 ∨ day / 36524 = 2 ∨ day / 36524 = 3 ∨ day / 36524 = 4 := by
    omega
  rcases century with is | is | is | is | is
  all_goals
    rw [is] at at_ ⊢
    omega

theorem dayOfYear_mem : 0 ≤ day - (365 * year + year / 4 - year / 100) ∧
    day - (365 * year + year / 4 - year / 100) ≤ 365 := by
  have century := century_eq least most at_
  simp only [daysIn400Years] at most
  constructor <;> omega

-- Only a leap year has a 366th day, which is the leap day.
theorem isLeapYear_of_lastDay (last : day - (365 * year + year / 4 - year / 100) = 365) :
    (year + 1) % 4 = 0 ∧ ((year + 1) % 100 ≠ 0 ∨ (year + 1) % 400 = 0) := by
  have century := century_eq least most at_
  simp only [daysIn400Years] at most
  have before : day / 1460 ≤ year / 4 + 1 := by omega
  have after : day / 1460 = year / 4 + 1 := by omega
  have fourth : year + 1 = 4 * (day / 1460) := by omega
  constructor <;> omega

end Era

-- The era, the year and the day of the year that a day number stands for.
structure Splits (n era year dayOfYear : Int) : Prop where
  year_nonneg : 0 ≤ year
  year_lt : year < 400
  day_nonneg : 0 ≤ dayOfYear
  day_le : dayOfYear ≤ 365
  leap : dayOfYear = 365 → (year + 1) % 4 = 0 ∧ ((year + 1) % 100 ≠ 0 ∨ (year + 1) % 400 = 0)
  number : n = era * daysIn400Years + (year * 365 + year / 4 - year / 100 + dayOfYear) - daysBefore1970

-- The date of a day of a year that begins in March.
def ofDayOfYear (year dayOfYear : Int) : Date :=
  let month := (5 * dayOfYear + 2) / 153
  {
    year := if month < 10 then year else year + 1
    month := (if month < 10 then month + 3 else month - 9).toNat
    day := (dayOfYear - (153 * month + 2) / 5 + 1).toNat
  }

theorem ofDayNumber_splits (n : Int) : ∃ era year dayOfYear, Splits n era year dayOfYear ∧
    ofDayNumber n = ofDayOfYear (year + era * 400) dayOfYear := by
  generalize era_eq : (n + daysBefore1970) / daysIn400Years = era
  generalize day_eq : (n + daysBefore1970) % daysIn400Years = day
  generalize at_ : (day - day / 1460 + day / 36524 - day / 146096) / 365 = year
  have least : 0 ≤ day := by rw [← day_eq, daysIn400Years]; omega
  have most : day < daysIn400Years := by rw [← day_eq, daysIn400Years]; omega
  have ⟨year_nonneg, year_lt⟩ := year_mem least most at_.symm
  have ⟨day_nonneg, day_le⟩ := dayOfYear_mem least most at_.symm
  refine ⟨era, year, day - (365 * year + year / 4 - year / 100), ?_, ?_⟩
  · refine ⟨year_nonneg, year_lt, day_nonneg, day_le, isLeapYear_of_lastDay least most at_.symm, ?_⟩
    have whole := Int.mul_ediv_add_emod (n + daysBefore1970) daysIn400Years
    rw [era_eq, day_eq, daysIn400Years] at whole
    rw [daysIn400Years]
    omega
  · simp only [ofDayNumber, era_eq, day_eq, at_]
    rfl

section DayOfYear

variable {n era year dayOfYear : Int} (splits : Splits n era year dayOfYear)
include splits

theorem month_mem : 0 ≤ (5 * dayOfYear + 2) / 153 ∧ (5 * dayOfYear + 2) / 153 ≤ 11 := by
  have ⟨_, _, day_nonneg, day_le, _, _⟩ := splits
  omega

-- February comes last, and has a 29th day only if the year has a 366th one.
theorem day_le_daysInMonth : (ofDayOfYear (year + era * 400) dayOfYear).day ≤
    daysInMonth (ofDayOfYear (year + era * 400) dayOfYear).year (ofDayOfYear (year + era * 400) dayOfYear).month := by
  have ⟨_, _, day_nonneg, day_le, leap, _⟩ := splits
  have ⟨month_nonneg, month_le⟩ := month_mem splits
  generalize date : ofDayOfYear (year + era * 400) dayOfYear = d
  have day : (d.day : Int) = dayOfYear - (153 * ((5 * dayOfYear + 2) / 153) + 2) / 5 + 1 := by
    simp only [← date, ofDayOfYear]
    omega
  have month : (d.month : Int) = if (5 * dayOfYear + 2) / 153 < 10 then (5 * dayOfYear + 2) / 153 + 3
      else (5 * dayOfYear + 2) / 153 - 9 := by
    simp only [← date, ofDayOfYear]
    split <;> omega
  rw [daysInMonth]
  split
  case isTrue february =>
    have later : d.year = year + era * 400 + 1 := by
      simp only [← date, ofDayOfYear]
      split <;> omega
    split
    case isTrue => omega
    case isFalse common =>
      have before : dayOfYear ≠ 365 := fun last => common (by
        have ⟨fourth, century⟩ := leap last
        rw [IsLeapYear, later]
        omega)
      omega
  case isFalse => split <;> omega

theorem valid_ofDayOfYear : (ofDayOfYear (year + era * 400) dayOfYear).Valid := by
  have ⟨_, _, day_nonneg, day_le, _, _⟩ := splits
  have ⟨month_nonneg, month_le⟩ := month_mem splits
  refine ⟨?_, ?_, ?_, day_le_daysInMonth splits⟩
  all_goals
    simp only [ofDayOfYear]
    omega

theorem dayNumber_ofDayOfYear : (ofDayOfYear (year + era * 400) dayOfYear).dayNumber = n := by
  have ⟨year_nonneg, year_lt, day_nonneg, day_le, _, number⟩ := splits
  have ⟨month_nonneg, month_le⟩ := month_mem splits
  generalize date : ofDayOfYear (year + era * 400) dayOfYear = d
  have month : (((d.month + 9) % 12 : Nat) : Int) = (5 * dayOfYear + 2) / 153 := by
    simp only [← date, ofDayOfYear]
    split <;> omega
  have fromMarch : (if d.month ≤ 2 then d.year - 1 else d.year) = year + era * 400 := by
    simp only [← date, ofDayOfYear]
    split <;> split <;> omega
  have day : (d.day : Int) = dayOfYear - (153 * ((5 * dayOfYear + 2) / 153) + 2) / 5 + 1 := by
    simp only [← date, ofDayOfYear]
    omega
  simp only [dayNumber, fromMarch, day]
  push_cast at month ⊢
  rw [month]
  have yearOfEra : (year + era * 400) % 400 = year := by omega
  have eras : (year + era * 400) / 400 = era := by omega
  rw [yearOfEra, eras, number]
  omega

end DayOfYear

theorem valid_ofDayNumber (n : Int) : (ofDayNumber n).Valid := by
  obtain ⟨era, year, dayOfYear, splits, eq⟩ := ofDayNumber_splits n
  exact eq ▸ valid_ofDayOfYear splits

theorem dayNumber_ofDayNumber (n : Int) : (ofDayNumber n).dayNumber = n := by
  obtain ⟨era, year, dayOfYear, splits, eq⟩ := ofDayNumber_splits n
  exact eq ▸ dayNumber_ofDayOfYear splits

example : ofDayNumber 11016 = ⟨2000, 2, 29⟩ :=
  rfl

end AirRelease.Date
