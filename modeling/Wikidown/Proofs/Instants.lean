/-
# Wikidown.Proofs.Instants -- days and seconds counted through

A date has a number: the days of the years before its own, of the months before its own and of
its month (`Date.dayNumber`).  The day after and the day before are one number away
(`dayNumber_next`, `dayNumber_previous`), over the ends of months, leap years and the year 0 alike,
and no two dates share a number (`dayNumber_injective`), since the numbers of a month end where
the next month starts, and those of a year where the next year starts.

So a moment that is no leap second is told by its `instant`, the seconds counted through
(`instant_injective`), and moving it by minutes is adding them (`instant_later?`).
-/
import Wikidown.Calendar
import Mathlib.Algebra.BigOperators.Intervals
import Mathlib.Algebra.Order.BigOperators.Group.Finset

namespace Wikidown.Calendar

set_option autoImplicit false

/-! ## Years and months -/

/-- The number of days from the start of year 1 to the start of a year. -/
def daysBeforeYear (year : Int) : Int :=
  365 * (year - 1) + (year - 1) / 4 - (year - 1) / 100 + (year - 1) / 400

/-- The number of days from the start of a year to the start of one of its months. -/
def daysBeforeMonth (year : Int) (month : Nat) : Nat :=
  ∑ m ∈ Finset.Ico 1 month, monthLength year m

theorem daysBeforeMonth_succ (year : Int) {month : Nat} (first : 1 ≤ month) :
    daysBeforeMonth year (month + 1) = daysBeforeMonth year month + monthLength year month :=
  Finset.sum_Ico_succ_top first _

theorem daysBeforeMonth_mono (year : Int) {month month' : Nat} (le : month ≤ month') :
    daysBeforeMonth year month ≤ daysBeforeMonth year month' :=
  Finset.sum_le_sum_of_subset (Finset.Ico_subset_Ico_right le)

/-- A year has 365 days, a leap year one more. -/
theorem daysBeforeMonth_thirteen (year : Int) :
    daysBeforeMonth year 13 = if isLeap year then 366 else 365 := by
  have months : Finset.Ico 1 13 = {1, 2, 3, 4, 5, 6, 7, 8, 9, 10, 11, 12} := by decide
  rw [daysBeforeMonth, months]
  cases leap : isLeap year <;> simp [monthLength, leap]

/-- A year starts where the months of the year before end. -/
theorem daysBeforeYear_succ (year : Int) :
    daysBeforeYear (year + 1) = daysBeforeYear year + daysBeforeMonth year 13 := by
  rw [daysBeforeMonth_thirteen]
  simp only [daysBeforeYear, isLeap, Bool.and_eq_true, Bool.or_eq_true, beq_iff_eq, bne_iff_ne]
  split <;> omega

theorem daysBeforeYear_mono {year year' : Int} (le : year ≤ year') :
    daysBeforeYear year ≤ daysBeforeYear year' := by
  simp only [daysBeforeYear]
  omega

theorem monthLength_pos (year : Int) (month : Nat) : 1 ≤ monthLength year month := by
  unfold monthLength
  split
  · split <;> omega
  all_goals omega

theorem monthLength_le (year : Int) (month : Nat) : monthLength year month ≤ 31 := by
  unfold monthLength
  split
  · split <;> omega
  all_goals omega

/-! ## Dates -/

namespace Date

/-- The date is in the calendar. -/
structure Exists (d : Date) : Prop where
  month_pos : 1 ≤ d.month
  month_le : d.month ≤ 12
  day_pos : 1 ≤ d.day
  day_le : d.day ≤ monthLength d.year d.month

/-- The number of a date; January 1 of year 1 is day 1. -/
def dayNumber (d : Date) : Int :=
  daysBeforeYear d.year + daysBeforeMonth d.year d.month + d.day

theorem isValid_iff (d : Date) :
    d.isValid = true ↔ (firstYear ≤ d.year ∧ d.year ≤ lastYear) ∧ d.Exists := by
  simp only [isValid, Bool.and_eq_true, decide_eq_true_eq]
  constructor
  · rintro ⟨⟨⟨first, last⟩, month⟩, day⟩
    exact ⟨⟨first, last⟩, month.1, month.2, day.1, day.2⟩
  · rintro ⟨years, month_pos, month_le, day_pos, day_le⟩
    exact ⟨⟨years, month_pos, month_le⟩, day_pos, day_le⟩

variable {d d' : Date}

/-- The day after is in the same month, starts the next month, or starts the next year. -/
theorem Exists.next_cases (h : d.Exists) :
    (d.day < monthLength d.year d.month ∧ d.next = ⟨d.year, d.month, d.day + 1⟩) ∨
    (d.day = monthLength d.year d.month ∧ d.month < 12 ∧ d.next = ⟨d.year, d.month + 1, 1⟩) ∨
    (d.day = monthLength d.year d.month ∧ d.month = 12 ∧ d.next = ⟨d.year + 1, 1, 1⟩) := by
  obtain ⟨month_pos, month_le, day_pos, day_le⟩ := h
  unfold next
  split
  · next within => exact .inl ⟨within, rfl⟩
  · split
    · next within => exact .inr (.inl ⟨by omega, within, rfl⟩)
    · exact .inr (.inr ⟨by omega, by omega, rfl⟩)

/-- The day before is in the same month, ends the month before, or ends the year before. -/
theorem Exists.previous_cases (h : d.Exists) :
    (1 < d.day ∧ d.previous = ⟨d.year, d.month, d.day - 1⟩) ∨
    (d.day = 1 ∧ 1 < d.month ∧
      d.previous = ⟨d.year, d.month - 1, monthLength d.year (d.month - 1)⟩) ∨
    (d.day = 1 ∧ d.month = 1 ∧ d.previous = ⟨d.year - 1, 12, 31⟩) := by
  obtain ⟨month_pos, month_le, day_pos, day_le⟩ := h
  unfold previous
  split
  · next within => exact .inl ⟨within, rfl⟩
  · split
    · next within => exact .inr (.inl ⟨by omega, within, rfl⟩)
    · exact .inr (.inr ⟨by omega, by omega, rfl⟩)

theorem Exists.next (h : d.Exists) : d.next.Exists := by
  have positive := monthLength_pos
  rcases h.next_cases with ⟨within, eq⟩ | ⟨-, within, eq⟩ | ⟨-, -, eq⟩ <;> rw [eq]
  · exact ⟨h.month_pos, h.month_le, Nat.le_add_left .., within⟩
  · exact ⟨Nat.le_add_left .., within, Nat.le_refl 1, positive _ _⟩
  · exact ⟨Nat.le_refl 1, Nat.le_add_left .., Nat.le_refl 1, positive _ _⟩

theorem Exists.previous (h : d.Exists) : d.previous.Exists := by
  have positive := monthLength_pos
  rcases h.previous_cases with ⟨within, eq⟩ | ⟨-, within, eq⟩ | ⟨-, -, eq⟩ <;> rw [eq]
  · exact ⟨h.month_pos, h.month_le, Nat.le_sub_of_add_le within,
      Nat.le_trans (Nat.sub_le ..) h.day_le⟩
  · exact ⟨Nat.le_sub_of_add_le within, Nat.le_trans (Nat.sub_le ..) h.month_le, positive _ _,
      Nat.le_refl _⟩
  · exact ⟨Nat.le_add_left .., Nat.le_refl 12, Nat.le_add_left .., Nat.le_refl 31⟩

/-- The day after the day before is the day itself. -/
theorem Exists.next_previous (h : d.Exists) : d.previous.next = d := by
  have month_le := h.month_le
  have day_le := h.day_le
  rcases h.previous_cases with ⟨within, eq⟩ | ⟨first, within, eq⟩ | ⟨first, january, eq⟩ <;>
    rw [eq, Date.next]
  · rw [if_pos (Nat.lt_of_lt_of_le (Nat.sub_lt h.day_pos Nat.one_pos) day_le)]
    simp only [Nat.sub_add_cancel h.day_pos]
  · rw [if_neg (Nat.lt_irrefl _), if_pos (show d.month - 1 < 12 by omega)]
    simp only [Nat.sub_add_cancel h.month_pos]
    rw [← first]
  · have december : monthLength (d.year - 1) 12 = 31 := rfl
    simp only [december, if_neg (Nat.lt_irrefl _), Int.sub_add_cancel]
    cases d
    simp_all

/-- The day after has the next number. -/
theorem dayNumber_next (h : d.Exists) : d.next.dayNumber = d.dayNumber + 1 := by
  have first : ∀ year, daysBeforeMonth year 1 = 0 := fun _ => rfl
  rcases h.next_cases with ⟨-, eq⟩ | ⟨last, -, eq⟩ | ⟨last, december, eq⟩
  · simp only [eq, dayNumber]
    push_cast
    omega
  · simp only [eq, dayNumber, daysBeforeMonth_succ d.year h.month_pos, last]
    push_cast
    omega
  · have year := daysBeforeMonth_succ d.year h.month_pos
    rw [december] at year last
    simp only [eq, dayNumber, daysBeforeYear_succ, first, last, december, year]
    push_cast
    omega

/-- The day before has the number before. -/
theorem dayNumber_previous (h : d.Exists) : d.previous.dayNumber = d.dayNumber - 1 := by
  have step := dayNumber_next h.previous
  rw [h.next_previous] at step
  omega

/-! ## No two dates share a number -/

/-- The numbers of a month lie before the next month. -/
theorem Exists.within_month (h : d.Exists) :
    daysBeforeMonth d.year d.month + d.day ≤ daysBeforeMonth d.year (d.month + 1) := by
  rw [daysBeforeMonth_succ d.year h.month_pos]
  exact Nat.add_le_add_left h.day_le _

/-- The numbers of a year lie before the next year. -/
theorem Exists.within_year (h : d.Exists) :
    daysBeforeYear d.year < d.dayNumber ∧ d.dayNumber ≤ daysBeforeYear (d.year + 1) := by
  have month := h.within_month
  have le : d.month + 1 ≤ 13 := Nat.succ_le_succ h.month_le
  have year := daysBeforeMonth_mono d.year le
  have := h.day_pos
  rw [daysBeforeYear_succ, dayNumber]
  constructor <;> omega

/-- A date in a later year has a greater number. -/
theorem Exists.dayNumber_lt (h : d.Exists) (h' : d'.Exists) (later : d.year < d'.year) :
    d.dayNumber < d'.dayNumber := by
  have years := daysBeforeYear_mono (Int.add_one_le_of_lt later)
  have := h.within_year.2
  have := h'.within_year.1
  omega

/-- A date in a later month of the year has more days of the year before it. -/
theorem Exists.inYear_lt (h : d.Exists) (h' : d'.Exists) (year : d.year = d'.year)
    (later : d.month < d'.month) :
    daysBeforeMonth d.year d.month + d.day < daysBeforeMonth d'.year d'.month + d'.day := by
  have months := daysBeforeMonth_mono d.year (Nat.succ_le_of_lt later)
  have := h.within_month
  have := h'.day_pos
  rw [← year]
  simp only [Nat.succ_eq_add_one] at months
  omega

/-- No two dates share a number. -/
theorem dayNumber_injective (h : d.Exists) (h' : d'.Exists) (same : d.dayNumber = d'.dayNumber) :
    d = d' := by
  have year : d.year = d'.year := by
    rcases Int.lt_trichotomy d.year d'.year with lt | eq | lt
    · have := h.dayNumber_lt h' lt
      omega
    · exact eq
    · have := h'.dayNumber_lt h lt
      omega
  have inYear :
      daysBeforeMonth d.year d.month + d.day = daysBeforeMonth d'.year d'.month + d'.day := by
    simp only [dayNumber, year] at same ⊢
    omega
  have month : d.month = d'.month := by
    rcases Nat.lt_trichotomy d.month d'.month with lt | eq | lt
    · have := h.inYear_lt h' year lt
      omega
    · exact eq
    · have := h'.inYear_lt h year.symm lt
      omega
  have day : d.day = d'.day := by
    rw [year, month] at inYear
    omega
  cases d
  cases d'
  simp_all

/-- The day after is at most in the year after. -/
theorem Exists.next_year (h : d.Exists) : d.year ≤ d.next.year ∧ d.next.year ≤ d.year + 1 := by
  rcases h.next_cases with ⟨-, eq⟩ | ⟨-, -, eq⟩ | ⟨-, -, eq⟩ <;> simp only [eq] <;>
    constructor <;> omega

/-- The day before is at least in the year before. -/
theorem Exists.previous_year (h : d.Exists) :
    d.year - 1 ≤ d.previous.year ∧ d.previous.year ≤ d.year := by
  rcases h.previous_cases with ⟨-, eq⟩ | ⟨-, -, eq⟩ | ⟨-, -, eq⟩ <;> simp only [eq] <;>
    constructor <;> omega

end Date

/-! ## Moments -/

namespace Moment

/-- The date is in the calendar and the clock can show the time, second 60 included. -/
structure Exists (m : Moment) : Prop where
  date : m.date.Exists
  hour_lt : m.hour < 24
  minute_lt : m.minute < 60
  second_le : m.second ≤ 60

/-- The minutes counted through to the minute of the moment. -/
def minuteNumber (m : Moment) : Int :=
  m.date.dayNumber * dayMinutes + (m.hour * 60 + m.minute : Nat)

/-- The seconds counted through to the moment. -/
def instant (m : Moment) : Int := m.minuteNumber * 60 + m.second

variable {m m' : Moment}

theorem isValid_iff (m : Moment) : m.isValid = true ↔
    (Date.firstYear ≤ m.date.year ∧ m.date.year ≤ Date.lastYear) ∧ m.Exists := by
  simp only [isValid, Bool.and_eq_true, decide_eq_true_eq, Date.isValid_iff]
  constructor
  · rintro ⟨⟨⟨⟨years, date⟩, hour⟩, minute⟩, second⟩
    exact ⟨years, date, hour, minute, second⟩
  · rintro ⟨years, date, hour, minute, second⟩
    exact ⟨⟨⟨⟨years, date⟩, hour⟩, minute⟩, second⟩

/-- A minute of the calendar is told by its number. -/
theorem minuteNumber_injective (h : m.Exists) (h' : m'.Exists)
    (same : m.minuteNumber = m'.minuteNumber) (seconds : m.second = m'.second) : m = m' := by
  obtain ⟨date, hour_lt, minute_lt, -⟩ := h
  obtain ⟨date', hour_lt', minute_lt', -⟩ := h'
  simp only [minuteNumber, dayMinutes] at same
  have day : m.date = m'.date := Date.dayNumber_injective date date' (by omega)
  cases m
  cases m'
  simp_all only [mk.injEq, true_and, and_true]
  omega

/-- A moment that is no leap second is told by its instant. -/
theorem instant_injective (h : m.Exists) (h' : m'.Exists) (plain : m.second < 60)
    (plain' : m'.second < 60) (same : m.instant = m'.instant) : m = m' := by
  simp only [instant] at same
  exact minuteNumber_injective h h' (by omega) (by omega)

/-- The moment some minutes after the start of a day. -/
def ofMinutes (d : Date) (total : Int) (second : Nat) : Moment :=
  ⟨d, total.toNat / 60, total.toNat % 60, second⟩

theorem exists_ofMinutes {d : Date} (inCalendar : d.Exists) {total : Int} (nonneg : 0 ≤ total)
    (within : total < dayMinutes) {second : Nat} (second_le : second ≤ 60) :
    (ofMinutes d total second).Exists ∧
      (ofMinutes d total second).minuteNumber = d.dayNumber * dayMinutes + total := by
  simp only [dayMinutes] at within
  refine ⟨⟨inCalendar, ?_, Nat.mod_lt _ (by decide), second_le⟩, ?_⟩
  · simp only [ofMinutes]
    omega
  · simp only [ofMinutes, minuteNumber, dayMinutes]
    omega

/-- Moving a moment by less than a day leads to the day before, the day after or the same day. -/
theorem Exists.later?_cases (h : m.Exists) {minutes : Int} (above : -dayMinutes < minutes)
    (below : minutes < dayMinutes) : ∃ (d : Date) (total : Int), d.Exists ∧
      (0 ≤ total ∧ total < dayMinutes) ∧
      d.dayNumber * dayMinutes + total = m.minuteNumber + minutes ∧
      (m.date.year - 1 ≤ d.year ∧ d.year ≤ m.date.year + 1) ∧
      m.later? minutes = if d.isValid then some (ofMinutes d total m.second) else none := by
  have day : dayMinutes = 1440 := rfl
  have clock : ((m.hour * 60 + m.minute : Nat) : Int) < dayMinutes := by
    have := h.hour_lt
    have := h.minute_lt
    omega
  simp only [later?, minuteNumber]
  by_cases before : ((m.hour * 60 + m.minute : Nat) : Int) + minutes < 0
  · have number := Date.dayNumber_previous h.date
    have years := h.date.previous_year
    simp only [if_pos before]
    exact ⟨_, _, h.date.previous, ⟨by omega, by omega⟩, by rw [day]; omega,
      ⟨by omega, by omega⟩, rfl⟩
  · by_cases after : dayMinutes ≤ ((m.hour * 60 + m.minute : Nat) : Int) + minutes
    · have number := Date.dayNumber_next h.date
      have years := h.date.next_year
      simp only [if_neg before, if_pos after]
      exact ⟨_, _, h.date.next, ⟨by omega, by omega⟩, by rw [day]; omega,
        ⟨by omega, by omega⟩, rfl⟩
    · simp only [if_neg before, if_neg after]
      exact ⟨_, _, h.date, ⟨by omega, by omega⟩, by omega, ⟨by omega, by omega⟩, rfl⟩

/-- A moment that is moved by less than a day exists, has the same second and that many minutes
more, and is in the same year or in one next to it. -/
theorem Exists.later?_eq (h : m.Exists) {minutes : Int} (above : -dayMinutes < minutes)
    (below : minutes < dayMinutes) : ∃ r : Moment, r.Exists ∧ r.second = m.second ∧
      r.minuteNumber = m.minuteNumber + minutes ∧
      (m.date.year - 1 ≤ r.date.year ∧ r.date.year ≤ m.date.year + 1) ∧
      m.later? minutes = if r.date.isValid then some r else none := by
  obtain ⟨d, total, inCalendar, ⟨nonneg, within⟩, number, years, eq⟩ := h.later?_cases above below
  obtain ⟨inClock, counted⟩ := exists_ofMinutes inCalendar nonneg within h.second_le
  exact ⟨ofMinutes d total m.second, inClock, rfl, counted.trans number, years, eq⟩

theorem later?_zero (valid : m.isValid = true) : m.later? 0 = some m := by
  obtain ⟨years, inCalendar⟩ := m.isValid_iff.1 valid
  have day : -dayMinutes < 0 ∧ 0 < dayMinutes := by decide
  obtain ⟨r, inCalendar', second, number, -, eq⟩ := inCalendar.later?_eq day.1 day.2
  obtain rfl : r = m := minuteNumber_injective inCalendar' inCalendar (by omega) second
  rw [eq, if_pos ((Date.isValid_iff _).2 ⟨years, inCalendar.date⟩)]

/-- In the years that are written with four digits, every moment can be moved by less than a
day, and the instant moves with it. -/
theorem Exists.instant_later? (h : m.Exists) (first : 0 ≤ m.date.year) (last : m.date.year ≤ 9999)
    {minutes : Int} (above : -dayMinutes < minutes) (below : minutes < dayMinutes) :
    ∃ r : Moment, m.later? minutes = some r ∧ r.Exists ∧ r.second = m.second ∧
      r.instant = m.instant + minutes * 60 := by
  obtain ⟨r, inCalendar, second, number, years, eq⟩ := h.later?_eq above below
  have valid : r.date.isValid = true := by
    rw [Date.isValid_iff]
    refine ⟨?_, inCalendar.date⟩
    simp only [Date.firstYear, Date.lastYear]
    omega
  refine ⟨r, by rw [eq, if_pos valid], inCalendar, second, ?_⟩
  simp only [instant]
  omega

end Moment

/-- The first day of 1970, and the leap day of a century that has one. -/
example : Date.dayNumber ⟨1970, 1, 1⟩ = 719163 ∧ Date.dayNumber ⟨2000, 2, 29⟩ = 730179 := by decide

end Wikidown.Calendar
