import Mathlib.Algebra.BigOperators.Intervals
import Mathlib.Algebra.Order.BigOperators.Group.Finset

/-!
# The proleptic Gregorian calendar

Days are counted year by year and month by month from the first day of an epoch year.  The count is
strictly increasing in the date and the time of day.
-/

namespace Gregorian

/-- Every fourth year, except the centuries that are not multiples of 400. -/
def IsLeap (year : Nat) : Prop := 4 ∣ year ∧ (100 ∣ year → 400 ∣ year)

instance : DecidablePred IsLeap := fun _ => inferInstanceAs (Decidable (_ ∧ _))

/-- Number of days of a year. -/
def yearDays (year : Nat) : Nat := if IsLeap year then 366 else 365

/-- One day more for every fourth year, one less for every century, one more for every fourth
century. -/
theorem yearDays_add (year : Nat) :
    yearDays year + (if 100 ∣ year then 1 else 0) =
      365 + (if 4 ∣ year then 1 else 0) + if 400 ∣ year then 1 else 0 := by
  have fourth_of_century : 100 ∣ year → 4 ∣ year := (dvd_trans (by decide) ·)
  have century_of_era : 400 ∣ year → 100 ∣ year := (dvd_trans (by decide) ·)
  by_cases fourth : 4 ∣ year
  · by_cases century : 100 ∣ year
    · by_cases era : 400 ∣ year <;> simp [yearDays, IsLeap, fourth, century, era]
    · simp [yearDays, IsLeap, fourth, century, mt century_of_era century]
  · have common := mt fourth_of_century fourth
    simp [yearDays, IsLeap, fourth, common, mt century_of_era common]

/-- The number of multiples of a period that have gone by grows at the multiples. -/
theorem multiples_succ (period : Nat) {start year : Nat} (multiple : period ∣ start)
    (order : start < year) :
    (year + 1 - (start + 1)) / period =
      (year - (start + 1)) / period + if period ∣ year then 1 else 0 := by
  obtain ⟨elapsed, rfl⟩ := Nat.exists_eq_add_of_lt order
  have same : period ∣ start + elapsed + 1 ↔ period ∣ elapsed + 1 := by
    rw [Nat.add_assoc, Nat.dvd_add_right multiple]
  rw [show start + elapsed + 1 + 1 - (start + 1) = elapsed + 1 by omega,
    show start + elapsed + 1 - (start + 1) = elapsed by omega, Nat.succ_div]
  simp only [same]

/-- Number of days of a month, counted from 1. -/
def monthDays (year : Nat) : Nat → Nat
  | 2 => if IsLeap year then 29 else 28
  | 4 | 6 | 9 | 11 => 30
  | _ => 31

theorem monthDays_le (year month : Nat) : monthDays year month ≤ 31 := by
  unfold monthDays
  split
  · split <;> omega
  all_goals omega

/-- A date and a time of day. -/
structure DateTime where
  year : Nat
  month : Nat
  day : Nat
  hour : Nat
  minute : Nat
  second : Nat
  monthValid : 1 ≤ month ∧ month ≤ 12
  dayValid : 1 ≤ day ∧ day ≤ monthDays year month
  hourValid : hour < 24
  minuteValid : minute < 60
  secondValid : second < 60

/-- Days from the beginning of `epoch` to the beginning of `year`. -/
def daysBeforeYear (epoch year : Nat) : Nat := ∑ earlier ∈ Finset.Ico epoch year, yearDays earlier

/-- Days from the beginning of `year` to the beginning of `month`. -/
def daysBeforeMonth (year month : Nat) : Nat :=
  ∑ earlier ∈ Finset.Ico 1 month, monthDays year earlier

theorem daysBeforeYear_succ {epoch year : Nat} (order : epoch ≤ year) :
    daysBeforeYear epoch (year + 1) = daysBeforeYear epoch year + yearDays year :=
  Finset.sum_Ico_succ_top order _

theorem daysBeforeMonth_succ {year month : Nat} (order : 1 ≤ month) :
    daysBeforeMonth year (month + 1) = daysBeforeMonth year month + monthDays year month :=
  Finset.sum_Ico_succ_top order _

theorem daysBeforeYear_mono (epoch : Nat) : Monotone (daysBeforeYear epoch) :=
  fun _ _ order => Finset.sum_le_sum_of_subset (Finset.Ico_subset_Ico_right order)

theorem daysBeforeMonth_mono (year : Nat) : Monotone (daysBeforeMonth year) :=
  fun _ _ order => Finset.sum_le_sum_of_subset (Finset.Ico_subset_Ico_right order)

/-- The months make up the year. -/
theorem daysBeforeMonth_thirteen (year : Nat) : daysBeforeMonth year 13 = yearDays year := by
  rw [daysBeforeMonth, Finset.sum_Ico_eq_sum_range, yearDays]
  simp only [Finset.sum_range_succ, Finset.sum_range_zero, monthDays]
  split <;> rfl

namespace DateTime

variable (date other : DateTime)

/-- Days since the beginning of the year. -/
def dayOfYear : Nat := daysBeforeMonth date.year date.month + (date.day - 1)

/-- Seconds since midnight. -/
def secondOfDay : Nat := date.hour * 3600 + date.minute * 60 + date.second

/-- Seconds since the beginning of `epoch`. -/
def secondsSince (epoch : Nat) : Nat :=
  (daysBeforeYear epoch date.year + date.dayOfYear) * 86400 + date.secondOfDay

/-- Years are compared first, seconds last. -/
def Before : Prop :=
  date.year < other.year ∨ date.year = other.year ∧
    (date.month < other.month ∨ date.month = other.month ∧
      (date.day < other.day ∨ date.day = other.day ∧
        (date.hour < other.hour ∨ date.hour = other.hour ∧
          (date.minute < other.minute ∨ date.minute = other.minute ∧
            date.second < other.second))))

theorem secondOfDay_lt : date.secondOfDay < 86400 := by
  have hour := date.hourValid
  have minute := date.minuteValid
  have second := date.secondValid
  rw [secondOfDay]
  omega

/-- A date lies before the first day of the next month. -/
theorem dayOfYear_lt_next : date.dayOfYear < daysBeforeMonth date.year (date.month + 1) := by
  obtain ⟨first, last⟩ := date.dayValid
  rw [daysBeforeMonth_succ date.monthValid.1, dayOfYear]
  omega

theorem dayOfYear_lt : date.dayOfYear < yearDays date.year := by
  refine date.dayOfYear_lt_next.trans_le ?_
  rw [← daysBeforeMonth_thirteen]
  exact daysBeforeMonth_mono _ (Nat.succ_le_succ date.monthValid.2)

variable {date other} {epoch : Nat}

/-- A day that comes first has the smaller number. -/
theorem secondsSince_lt_of_day
    (earlier : daysBeforeYear epoch date.year + date.dayOfYear <
      daysBeforeYear epoch other.year + other.dayOfYear) :
    date.secondsSince epoch < other.secondsSince epoch := by
  have midnight := date.secondOfDay_lt
  rw [secondsSince, secondsSince]
  omega

/-- Seconds since the epoch are strictly increasing. -/
theorem secondsSince_lt (order : epoch ≤ date.year) (before : date.Before other) :
    date.secondsSince epoch < other.secondsSince epoch := by
  rcases before with year | ⟨year, month | ⟨month, day | ⟨day, clock⟩⟩⟩
  · apply secondsSince_lt_of_day
    have inYear := date.dayOfYear_lt
    have next := daysBeforeYear_succ order
    have later := daysBeforeYear_mono epoch year
    rw [Nat.succ_eq_add_one] at later
    omega
  · apply secondsSince_lt_of_day
    have inMonth := date.dayOfYear_lt_next
    have later := daysBeforeMonth_mono date.year month
    have start : daysBeforeMonth other.year other.month ≤ other.dayOfYear := Nat.le_add_right _ _
    rw [Nat.succ_eq_add_one, year] at later
    rw [year] at inMonth ⊢
    omega
  · apply secondsSince_lt_of_day
    have first := date.dayValid.1
    rw [dayOfYear, dayOfYear, year, month]
    omega
  · have minute := date.minuteValid
    have second := date.secondValid
    rw [secondsSince, secondsSince, dayOfYear, dayOfYear, secondOfDay, secondOfDay, year, month,
      day]
    omega

/-! ### The next second -/

theorem monthDays_pos (year month : Nat) : 1 ≤ monthDays year month := by
  unfold monthDays
  split
  · split <;> omega
  all_goals omega

/-- The same time of the next day. -/
def nextDay (date : DateTime) : DateTime :=
  if inMonth : date.day < monthDays date.year date.month then
    { date with day := date.day + 1, dayValid := ⟨Nat.le_add_left _ _, inMonth⟩ }
  else if inYear : date.month < 12 then
    { date with
      month := date.month + 1
      day := 1
      monthValid := ⟨Nat.le_add_left _ _, inYear⟩
      dayValid := ⟨Nat.le_refl _, monthDays_pos _ _⟩ }
  else
    { date with
      year := date.year + 1
      month := 1
      day := 1
      monthValid := by decide
      dayValid := ⟨Nat.le_refl _, monthDays_pos _ _⟩ }

/-- The same day at another hour. -/
def setHour (date : DateTime) (hour : Nat) (valid : hour < 24) : DateTime :=
  { date with hour, hourValid := valid }

/-- The same hour at another minute. -/
def setMinute (date : DateTime) (minute : Nat) (valid : minute < 60) : DateTime :=
  { date with minute, minuteValid := valid }

/-- The same minute at another second. -/
def setSecond (date : DateTime) (second : Nat) (valid : second < 60) : DateTime :=
  { date with second, secondValid := valid }

/-- The same minute and second of the next hour. -/
def nextHour (date : DateTime) : DateTime :=
  if inDay : date.hour < 23 then
    date.setHour (date.hour + 1) (Nat.succ_lt_succ inDay)
  else
    date.nextDay.setHour 0 (Nat.zero_lt_of_lt date.hourValid)

/-- The same second of the next minute. -/
def nextMinute (date : DateTime) : DateTime :=
  if inHour : date.minute < 59 then
    date.setMinute (date.minute + 1) (Nat.succ_lt_succ inHour)
  else
    date.nextHour.setMinute 0 (Nat.zero_lt_of_lt date.minuteValid)

/-- The next second. -/
def nextSecond (date : DateTime) : DateTime :=
  if inMinute : date.second < 59 then
    date.setSecond (date.second + 1) (Nat.succ_lt_succ inMinute)
  else
    date.nextMinute.setSecond 0 (Nat.zero_lt_of_lt date.secondValid)

theorem secondsSince_setHour (epoch : Nat) (date : DateTime) (hour : Nat) (valid : hour < 24) :
    (date.setHour hour valid).secondsSince epoch + date.hour * 3600 =
      date.secondsSince epoch + hour * 3600 := by
  simp only [setHour, secondsSince, dayOfYear, secondOfDay]
  omega

theorem secondsSince_setMinute (epoch : Nat) (date : DateTime) (minute : Nat)
    (valid : minute < 60) :
    (date.setMinute minute valid).secondsSince epoch + date.minute * 60 =
      date.secondsSince epoch + minute * 60 := by
  simp only [setMinute, secondsSince, dayOfYear, secondOfDay]
  omega

theorem secondsSince_setSecond (epoch : Nat) (date : DateTime) (second : Nat)
    (valid : second < 60) :
    (date.setSecond second valid).secondsSince epoch + date.second =
      date.secondsSince epoch + second := by
  simp only [setSecond, secondsSince, dayOfYear, secondOfDay]
  omega

@[simp]
theorem hour_nextDay : date.nextDay.hour = date.hour := by
  unfold nextDay
  split
  · rfl
  · split <;> rfl

@[simp]
theorem minute_nextDay : date.nextDay.minute = date.minute := by
  unfold nextDay
  split
  · rfl
  · split <;> rfl

@[simp]
theorem second_nextDay : date.nextDay.second = date.second := by
  unfold nextDay
  split
  · rfl
  · split <;> rfl

@[simp]
theorem minute_nextHour : date.nextHour.minute = date.minute := by
  unfold nextHour
  split
  · rfl
  · exact minute_nextDay

@[simp]
theorem second_nextHour : date.nextHour.second = date.second := by
  unfold nextHour
  split
  · rfl
  · exact second_nextDay

@[simp]
theorem second_nextMinute : date.nextMinute.second = date.second := by
  unfold nextMinute
  split
  · rfl
  · exact second_nextHour

theorem secondsSince_nextDay (order : epoch ≤ date.year) :
    date.nextDay.secondsSince epoch = date.secondsSince epoch + 86400 := by
  obtain ⟨january, december⟩ := date.monthValid
  obtain ⟨first, last⟩ := date.dayValid
  have month : daysBeforeMonth date.year (date.month + 1) =
      daysBeforeMonth date.year date.month + monthDays date.year date.month :=
    daysBeforeMonth_succ january
  unfold nextDay
  split
  · simp only [secondsSince, dayOfYear, secondOfDay]
    omega
  rename_i lastDay
  split
  · simp only [secondsSince, dayOfYear, secondOfDay]
    omega
  · have twelve : date.month = 12 := by omega
    have start : daysBeforeMonth (date.year + 1) 1 = 0 := rfl
    have year := daysBeforeYear_succ order
    rw [twelve, daysBeforeMonth_thirteen] at month
    simp only [secondsSince, dayOfYear, secondOfDay, twelve, start] at last lastDay ⊢
    omega

theorem secondsSince_nextHour (order : epoch ≤ date.year) :
    date.nextHour.secondsSince epoch = date.secondsSince epoch + 3600 := by
  have valid := date.hourValid
  unfold nextHour
  split
  · rename_i inDay
    have moved := secondsSince_setHour epoch date (date.hour + 1) (Nat.succ_lt_succ inDay)
    omega
  · have day := secondsSince_nextDay order
    have moved := secondsSince_setHour epoch date.nextDay 0 (by decide)
    rw [hour_nextDay] at moved
    omega

theorem secondsSince_nextMinute (order : epoch ≤ date.year) :
    date.nextMinute.secondsSince epoch = date.secondsSince epoch + 60 := by
  have valid := date.minuteValid
  unfold nextMinute
  split
  · rename_i inHour
    have moved := secondsSince_setMinute epoch date (date.minute + 1) (Nat.succ_lt_succ inHour)
    omega
  · have hour := secondsSince_nextHour order
    have moved := secondsSince_setMinute epoch date.nextHour 0 (by decide)
    rw [minute_nextHour] at moved
    omega

theorem secondsSince_nextSecond (order : epoch ≤ date.year) :
    date.nextSecond.secondsSince epoch = date.secondsSince epoch + 1 := by
  have valid := date.secondValid
  unfold nextSecond
  split
  · rename_i inMinute
    have moved := secondsSince_setSecond epoch date (date.second + 1) (Nat.succ_lt_succ inMinute)
    omega
  · have minute := secondsSince_nextMinute order
    have moved := secondsSince_setSecond epoch date.nextMinute 0 (by decide)
    rw [second_nextMinute] at moved
    omega

theorem nextDay_setSecond (second : Nat) (valid : second < 60) :
    (date.setSecond second valid).nextDay = date.nextDay.setSecond second valid := by
  by_cases inMonth : date.day < monthDays date.year date.month
  · simp [nextDay, setSecond, inMonth]
  · by_cases inYear : date.month < 12
    · simp [nextDay, setSecond, inMonth, inYear]
    · simp [nextDay, setSecond, inMonth, inYear]

theorem nextHour_setSecond (second : Nat) (valid : second < 60) :
    (date.setSecond second valid).nextHour = date.nextHour.setSecond second valid := by
  rw [nextHour, nextHour, nextDay_setSecond]
  by_cases inDay : date.hour < 23
  · simp [setSecond, setHour, inDay]
  · simp [setSecond, setHour, inDay]

theorem nextMinute_setSecond (second : Nat) (valid : second < 60) :
    (date.setSecond second valid).nextMinute = date.nextMinute.setSecond second valid := by
  rw [nextMinute, nextMinute, nextHour_setSecond]
  by_cases inHour : date.minute < 59
  · simp [setSecond, setMinute, inHour]
  · simp [setSecond, setMinute, inHour]

theorem nextSecond_setSecond {second later : Nat} (valid : second < 60)
    (follows : later = second + 1) (within : later < 60) :
    (date.setSecond second valid).nextSecond = date.setSecond later within := by
  subst follows
  exact dif_pos (Nat.lt_of_succ_lt_succ within)

theorem nextSecond_setSecond_last {second first : Nat} (valid : second < 60) (last : second = 59)
    (wraps : first = 0) (within : first < 60) :
    (date.setSecond second valid).nextSecond = date.nextMinute.setSecond first within := by
  subst last wraps
  have full : ¬ (date.setSecond 59 valid).second < 59 := Nat.lt_irrefl 59
  rw [nextSecond, dif_neg full, nextMinute_setSecond]
  rfl

/-- Within 60 seconds at most one minute begins. -/
theorem iterate_nextSecond {count : Nat} (short : count < 60) :
    nextSecond^[count] date =
      (if date.second + count < 60 then date else date.nextMinute).setSecond
        ((date.second + count) % 60) (Nat.mod_lt _ (by decide)) := by
  have valid := date.secondValid
  induction count with
  | zero =>
      simp only [Nat.add_zero, if_pos valid, Nat.mod_eq_of_lt valid]
      rfl
  | succ count induction =>
      rw [Function.iterate_succ_apply', induction (by omega)]
      by_cases same : date.second + (count + 1) < 60
      · rw [if_pos same, if_pos (by omega)]
        exact nextSecond_setSecond _ (by omega) _
      · rw [if_neg same]
        by_cases last : date.second + count < 60
        · rw [if_pos last]
          exact nextSecond_setSecond_last _ (by omega) (by omega) _
        · rw [if_neg last]
          exact nextSecond_setSecond _ (by omega) _

/-- When the hour stays, so do the day, the month and the year. -/
theorem nextMinute_of_hour (same : date.nextMinute.hour = date.hour) :
    date.nextMinute.minute = date.minute + 1 ∧ date.nextMinute.day = date.day ∧
      date.nextMinute.month = date.month ∧ date.nextMinute.year = date.year := by
  have valid := date.hourValid
  by_cases inHour : date.minute < 59
  · simp [nextMinute, setMinute, inHour]
  · by_cases inDay : date.hour < 23
    · simp [nextMinute, nextHour, setMinute, setHour, inHour, inDay] at same
    · simp only [nextMinute, nextHour, setMinute, setHour, inHour, inDay, dite_false] at same
      omega

theorem nextMinute_of_hour_ne (changed : date.nextMinute.hour ≠ date.hour) :
    date.minute = 59 ∧ date.nextMinute.minute = 0 := by
  have valid := date.minuteValid
  by_cases inHour : date.minute < 59
  · simp [nextMinute, setMinute, inHour] at changed
  · refine ⟨by omega, ?_⟩
    simp [nextMinute, setMinute, inHour]

/-- A new year begins after the last minute of December. -/
theorem nextMinute_of_year_ne (changed : date.nextMinute.year ≠ date.year) :
    date.nextMinute.year = date.year + 1 ∧ date.month = 12 ∧ date.day = 31 ∧ date.hour = 23 ∧
      date.minute = 59 := by
  have hour := date.hourValid
  have minute := date.minuteValid
  have day := date.dayValid
  have month := date.monthValid
  by_cases inHour : date.minute < 59
  · simp [nextMinute, setMinute, inHour] at changed
  by_cases inDay : date.hour < 23
  · simp [nextMinute, nextHour, setMinute, setHour, inHour, inDay] at changed
  by_cases inMonth : date.day < monthDays date.year date.month
  · simp [nextMinute, nextHour, nextDay, setMinute, setHour, inHour, inDay, inMonth] at changed
  by_cases inYear : date.month < 12
  · simp [nextMinute, nextHour, nextDay, setMinute, setHour, inHour, inDay, inMonth, inYear]
      at changed
  have december : date.month = 12 := by omega
  rw [december, show monthDays date.year 12 = 31 from rfl] at inMonth day
  refine ⟨?_, december, by omega, by omega, by omega⟩
  simp [nextMinute, nextHour, nextDay, setMinute, setHour, inHour, inDay, december,
    show monthDays date.year 12 = 31 from rfl, inMonth]

end DateTime

end Gregorian
