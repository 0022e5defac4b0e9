import Okots.Timer.RtcTicks

/-!
# Arbitrary registers of the clock

`Rtc::get_time` decodes whatever bytes the seven registers hold, and it does not look at the bit of
status register B that tells how the hour is written.  For every content of the registers it is said
here whether the computation ends with a result, and a clock in 12-hour mode is compared with one in
24-hour mode.
-/

namespace Okots.Rtc

open StateExec Exec Gregorian

/-! ## Where the computation ends -/

section Total

variable {profile : Profile} {year month day : Nat}

/-- A computation has a result if its first part and its rest have one. -/
theorem exists_bind {α β : Type} {value : Option α} {next : α → Option β}
    (found : ∃ result, value = some result) (rest : ∀ result, ∃ last, next result = some last) :
    ∃ last, (value >>= next) = some last := by
  obtain ⟨result, rfl⟩ := found
  exact rest result

/-- The table has no entry 13. -/
theorem addMonths_eq_none (profile : Profile) (start : Nat) (late : 14 ≤ month) :
    addMonths profile start month = none := by
  have months : List.range' 1 (month - 1) =
      List.range' 1 12 ++ 13 :: List.range' 14 (month - 14) := by
    rw [show month - 1 = 12 + (month - 14 + 1) by omega, ← List.range'_append_1]
    rfl
  rw [addMonths, months, List.foldlM_append]
  cases (List.range' 1 12).foldlM (m := Option) _ start <;> rfl

theorem addMonths_release (start : Nat) (last : month ≤ 13) :
    ∃ days, addMonths .release start month = some days := by
  have total : ∀ (months : List Nat), (∀ i ∈ months, i < 13) → ∀ start,
      ∃ days, months.foldlM (fun total i => do
        let days ← monthTable[i]?
        uintAdd 64 .release total days) start = some days := by
    intro months
    induction months with
    | nil => exact fun _ start => ⟨start, rfl⟩
    | cons first rest induction =>
        intro inTable start
        obtain ⟨firstIn, restIn⟩ := List.forall_mem_cons.mp inTable
        have entry : monthTable[first]? = some (monthTable.get ⟨first, firstIn⟩) :=
          List.getElem?_eq_getElem firstIn
        obtain ⟨sum, added⟩ := uintAdd_release 64 start (monthTable.get ⟨first, firstIn⟩)
        rw [List.foldlM_cons, entry, Option.bind_eq_bind, Option.bind_some, added]
        exact induction restIn sum
  refine total _ (fun i member => ?_) start
  have range := List.mem_range'_1.mp member
  omega

/-- The days before a date, where the computation has no overflow. -/
theorem countDays_of_lt (epoch : 1970 ≤ year) (years : year < 2 ^ 16) (months : month ≤ 13)
    (first : 1 ≤ day) (days : day < 256) :
    ∃ total < 2 ^ 33, countDays profile year month day = some total := by
  have bound := daysBeforeYear_lt epoch years
  obtain ⟨upToMonth, few, counted⟩ : ∃ total < 2 ^ 32,
      addMonths profile (daysBeforeYear 1970 year) month = some total := by
    rcases Nat.eq_zero_or_pos month with rfl | january
    · exact ⟨_, by omega, rfl⟩
    · have inYear := daysBeforeMonth_mono 1 months
      rw [daysBeforeMonth_thirteen, show yearDays 1 = 365 from rfl] at inYear
      exact ⟨_, by omega, addMonths_eq profile january months (by omega)⟩
  obtain ⟨corrected, still, leap⟩ : ∃ total ≤ upToMonth + 1,
      addLeapDay profile upToMonth year month = some total := by
    rw [addLeapDay]
    split
    · exact ⟨_, le_rfl, uintAdd_of_lt profile (by omega)⟩
    · exact ⟨_, Nat.le_succ _, rfl⟩
  refine ⟨corrected + (day - 1), by omega, ?_⟩
  simp only [countDays, Option.bind_eq_bind]
  rw [yearStart_eq profile epoch years, Option.bind_some, counted, Option.bind_some, leap,
    Option.bind_some, uintSub_of_le profile first, Option.bind_some,
    uintAdd_of_lt profile (by omega)]

theorem yearStart_release (year : Nat) : ∃ days, yearStart .release year = some days := by
  refine exists_bind (uintSub_release _ _ _) fun years => ?_
  refine exists_bind (uintMul_release _ _ _) fun common => ?_
  refine exists_bind (uintSub_release _ _ _) fun fourths => ?_
  refine exists_bind (uintAdd_release _ _ _) fun julian => ?_
  refine exists_bind (uintSub_release _ _ _) fun centuries => ?_
  refine exists_bind (uintSub_release _ _ _) fun reformed => ?_
  exact exists_bind (uintSub_release _ _ _) fun eras => uintAdd_release _ _ _

theorem addLeapDay_release (totalDays year month : Nat) :
    ∃ days, addLeapDay .release totalDays year month = some days := by
  rw [addLeapDay]
  split
  · exact uintAdd_release _ _ _
  · exact ⟨_, rfl⟩

theorem countDays_release (year day : Nat) (months : month ≤ 13) :
    ∃ total, countDays .release year month day = some total := by
  refine exists_bind (yearStart_release year) fun start => ?_
  refine exists_bind (addMonths_release start months) fun upToMonth => ?_
  refine exists_bind (addLeapDay_release upToMonth year month) fun corrected => ?_
  exact exists_bind (uintSub_release _ _ _) fun elapsed => uintAdd_release _ _ _

theorem totalSecs_release (totalDays hour min sec : Nat) :
    ∃ total, totalSecs .release totalDays hour min sec = some total := by
  refine exists_bind (uintMul_release _ _ _) fun days => ?_
  refine exists_bind (uintMul_release _ _ _) fun hours => ?_
  refine exists_bind (uintAdd_release _ _ _) fun upToHour => ?_
  refine exists_bind (uintMul_release _ _ _) fun minutes => ?_
  exact exists_bind (uintAdd_release _ _ _) fun upToMinute => uintAdd_release _ _ _

/-- A month behind the table stops the count in every build. -/
theorem countDays_late (year day : Nat) (late : 14 ≤ month) :
    countDays profile year month day = none := by
  simp only [countDays, Option.bind_eq_bind, addMonths_eq_none profile _ late, Option.bind_none,
    Option.bind_fun_none]

/-- A year before 1970 or a day 0 stops the count where overflow is checked. -/
theorem countDays_dev_early (early : year < 1970 ∨ day = 0) :
    countDays .dev year month day = none := by
  rcases early with early | rfl
  · have before : yearStart .dev year = none := by
      rw [yearStart, uintSub, if_neg (Nat.not_le.mpr early)]
      rfl
    rw [countDays, before]
    rfl
  · have before : uintSub 8 .dev 0 1 = none := rfl
    simp only [countDays, Option.bind_eq_bind, before, Option.bind_none, Option.bind_fun_none]

/-- The count ends with a result unless the month is behind the table or, where overflow is checked,
the date is before the first day of 1970 or of the month. -/
theorem countDays_isSome_iff (years : year < 2 ^ 16) (days : day < 256) :
    (∃ total, countDays profile year month day = some total) ↔
      month ≤ 13 ∧ (profile = .dev → 1970 ≤ year ∧ day ≠ 0) := by
  constructor
  · rintro ⟨total, counted⟩
    refine ⟨?_, ?_⟩
    · by_contra late
      rw [countDays_late year day (by omega)] at counted
      cases counted
    · rintro rfl
      by_contra early
      rw [countDays_dev_early (by omega)] at counted
      cases counted
  · rintro ⟨months, checked⟩
    cases profile with
    | dev =>
        obtain ⟨epoch, first⟩ := checked rfl
        obtain ⟨total, -, counted⟩ := countDays_of_lt epoch years months (by omega) days
        exact ⟨total, counted⟩
    | release => exact countDays_release year day months

/-- The last sum has a result for every day count of decoded bytes. -/
theorem totalSecs_isSome {totalDays hour min sec : Nat} (years : year < 2 ^ 16) (days : day < 256)
    (hours : hour < 256) (minutes : min < 256) (seconds : sec < 256)
    (counted : countDays profile year month day = some totalDays) :
    ∃ total, totalSecs profile totalDays hour min sec = some total := by
  cases profile with
  | dev =>
      obtain ⟨months, checked⟩ := (countDays_isSome_iff years days).mp ⟨totalDays, counted⟩
      obtain ⟨epoch, first⟩ := checked rfl
      obtain ⟨total, few, same⟩ := countDays_of_lt epoch years months (by omega) days
      obtain rfl := Option.some.inj (counted.symm.trans same)
      exact ⟨_, totalSecs_eq .dev few hours minutes seconds⟩
  | release => exact totalSecs_release _ _ _ _

end Total

/-- The computation on arbitrary bytes. -/
theorem decodeTime_isSome_iff (profile : Profile)
    (sec min day month hour century yearShort : BitVec 8) :
    (∃ seconds, decodeTime profile [sec, min, day, month, hour, century, yearShort] =
        some seconds) ↔
      digits month ≤ 13 ∧
        (profile = .dev → 1970 ≤ yearDigits century yearShort ∧ digits day ≠ 0) := by
  have years := yearDigits_lt century yearShort
  have small (byte : BitVec 8) : digits byte < 256 := by
    have bound := digits_le byte
    omega
  rw [decodeTime_bytes, ← countDays_isSome_iff years (small day)]
  constructor
  · rintro ⟨seconds, decoded⟩
    obtain ⟨total, counted, -⟩ := Option.bind_eq_some_iff.mp decoded
    exact ⟨total, counted⟩
  · rintro ⟨total, counted⟩
    obtain ⟨seconds, summed⟩ := totalSecs_isSome years (small day) (decodeHour_eq profile hour).2
      (small min) (small sec) counted
    exact ⟨seconds, by rw [counted, Option.bind_some, summed]⟩

/-- A program returns a result exactly where the partial value is there. -/
theorem Returns.ok_iff {program : Kernel Cmos Nat} {cmos : Cmos} {value : Option Nat}
    (returns : Returns program cmos value) (result : Nat) :
    (∃ after, program cmos = (.ok result, after)) ↔ value = some result := by
  unfold Returns Ends at returns
  rcases run : program cmos with ⟨reason | found, after⟩ <;> rw [run] at returns
  · simp [show value = none from returns]
  · have same : value = some found := returns
    simp [same]

/-- For every content of the registers, `Rtc::get_time` ends with a result exactly when the month
is at most 13 and, where overflow is checked, the year is not before 1970 and the day is not 0. -/
theorem getTime_ok_iff (profile : Profile) (cmos : Cmos) :
    (∃ seconds after, getTime profile cmos = (.ok seconds, after)) ↔
      digits (cmos.regs 0x08#7) ≤ 13 ∧
        (profile = .dev → 1970 ≤ yearDigits (cmos.regs 0x32#7) (cmos.regs 0x09#7) ∧
          digits (cmos.regs 0x07#7) ≠ 0) := by
  rw [← decodeTime_isSome_iff profile (cmos.regs 0x00#7) (cmos.regs 0x02#7) (cmos.regs 0x07#7)
    (cmos.regs 0x08#7) (cmos.regs 0x04#7) (cmos.regs 0x32#7) (cmos.regs 0x09#7)]
  exact exists_congr fun seconds => (getTime_returns profile cmos).ok_iff seconds

/-- The registers of the first day of 2024 with the given century and month. -/
def newYear (century month : BitVec 8) : Cmos where
  address := 0
  regs := fun reg =>
    if reg = 0x32#7 then century
    else if reg = 0x09#7 then 0x24#8
    else if reg = 0x08#7 then month
    else if reg = 0x07#7 then 0x01#8
    else 0x00#8
  updating := 0

/-- Without a century register the year 24 is before 1970, and a month 14 is behind the table. -/
theorem newYear_not_ok :
    (¬ ∃ seconds after, getTime .dev (newYear 0x00 0x01) = (.ok seconds, after)) ∧
      ¬ ∃ seconds after, getTime .release (newYear 0x20 0x0E) = (.ok seconds, after) := by
  have early : decodeTime .dev
      (readOrder.map fun reg => (newYear 0x00 0x01).regs (reg.setWidth 7)) = none := by decide
  have late : decodeTime .release
      (readOrder.map fun reg => (newYear 0x20 0x0E).regs (reg.setWidth 7)) = none := by decide
  constructor
  · rintro ⟨seconds, run⟩
    have decoded := ((getTime_returns .dev (newYear 0x00 0x01)).ok_iff seconds).mp run
    cases early.symm.trans decoded
  · rintro ⟨seconds, run⟩
    have decoded := ((getTime_returns .release (newYear 0x20 0x0E)).ok_iff seconds).mp run
    cases late.symm.trans decoded

/-! ## The 12-hour clock -/

/-- The hour register in 12-hour mode: hours 1 to 12, with bit 7 in the second half of the day. -/
def twelveHour (hour : Nat) : BitVec 8 :=
  binToBcd (BitVec.ofNat 8 ((hour + 11) % 12 + 1)) ||| if hour < 12 then 0x00#8 else 0x80#8

/-- The registers hold the decimal digits of a date, with the hour in 12-hour mode. -/
structure ShowsTwelveHour (date : DateTime) (cmos : Cmos) : Prop where
  sec : cmos.regs 0x00#7 = binToBcd (BitVec.ofNat 8 date.second)
  min : cmos.regs 0x02#7 = binToBcd (BitVec.ofNat 8 date.minute)
  hour : cmos.regs 0x04#7 = twelveHour date.hour
  day : cmos.regs 0x07#7 = binToBcd (BitVec.ofNat 8 date.day)
  month : cmos.regs 0x08#7 = binToBcd (BitVec.ofNat 8 date.month)
  year : cmos.regs 0x09#7 = binToBcd (BitVec.ofNat 8 (date.year % 100))
  century : cmos.regs 0x32#7 = binToBcd (BitVec.ofNat 8 (date.year / 100))

/-- The hours after midnight and after noon are read as 12 and 24. -/
theorem hourDigits_twelveHour {hour : Nat} (valid : hour < 24) :
    hourDigits (twelveHour hour) = hour + if hour % 12 = 0 then 12 else 0 := by
  revert hour
  decide

/-- The bytes that `Rtc::get_time` reads when the registers hold a date, up to the hour. -/
def shownBytes (date : DateTime) (hour : BitVec 8) : List (BitVec 8) :=
  [binToBcd (BitVec.ofNat 8 date.second), binToBcd (BitVec.ofNat 8 date.minute),
    binToBcd (BitVec.ofNat 8 date.day), binToBcd (BitVec.ofNat 8 date.month), hour,
    binToBcd (BitVec.ofNat 8 (date.year / 100)), binToBcd (BitVec.ofNat 8 (date.year % 100))]

theorem readOrder_eq (cmos : Cmos) : (readOrder.map fun reg => cmos.regs (reg.setWidth 7)) =
    [cmos.regs 0x00#7, cmos.regs 0x02#7, cmos.regs 0x07#7, cmos.regs 0x08#7, cmos.regs 0x04#7,
      cmos.regs 0x32#7, cmos.regs 0x09#7] := rfl

/-- The seconds of a date whose hour is read from the given register. -/
theorem getTime_shown (profile : Profile) {date : DateTime} {cmos : Cmos} {hour : BitVec 8}
    (range : 1970 ≤ date.year ∧ date.year ≤ 9999)
    (shown : (readOrder.map fun reg => cmos.regs (reg.setWidth 7)) = shownBytes date hour) :
    (getTime profile cmos).1 = .ok ((daysBeforeYear 1970 date.year + date.dayOfYear) * 86400 +
      (hourDigits hour * 3600 + date.minute * 60 + date.second)) := by
  obtain ⟨epoch, last⟩ := range
  have minutes := date.minuteValid
  have seconds := date.secondValid
  have december := date.monthValid.2
  have inMonth := date.dayValid.2.trans (monthDays_le _ _)
  have year : yearDigits (binToBcd (BitVec.ofNat 8 (date.year / 100)))
      (binToBcd (BitVec.ofNat 8 (date.year % 100))) = date.year := by
    rw [yearDigits, digits_binToBcd (by omega), digits_binToBcd (by omega), Nat.div_add_mod']
  obtain ⟨counted, bound⟩ := countDays_eq profile epoch last
  have decoded := getTime_returns profile cmos
  rw [shown, shownBytes, decodeTime_bytes, year, digits_binToBcd (by omega),
    digits_binToBcd (by omega), digits_binToBcd (by omega), digits_binToBcd (by omega), counted,
    Option.bind_some,
    totalSecs_eq profile (by omega) (decodeHour_eq profile hour).2 (by omega) (by omega)] at decoded
  obtain ⟨after, run⟩ := (decoded.ok_iff _).mpr rfl
  rw [run]

section TwelveHour

variable {date : DateTime} {plain twelve : Cmos}

theorem Shows.getTime (shows : Shows date plain) (profile : Profile)
    (range : 1970 ≤ date.year ∧ date.year ≤ 9999) :
    (getTime profile plain).1 = .ok (date.secondsSince 1970) := by
  obtain ⟨seconds, after, run, rfl⟩ :=
    (getTime_ends profile shows range.1 range.2).exists_ok fun _ _ => id
  rw [run]

/-- In 12-hour mode the hours after midnight and after noon are read 12 hours too late. -/
theorem ShowsTwelveHour.getTime (shows : ShowsTwelveHour date twelve) (profile : Profile)
    (range : 1970 ≤ date.year ∧ date.year ≤ 9999) :
    (Rtc.getTime profile twelve).1 =
      .ok (date.secondsSince 1970 + if date.hour % 12 = 0 then 43200 else 0) := by
  have shown : (readOrder.map fun reg => twelve.regs (reg.setWidth 7)) =
      shownBytes date (twelveHour date.hour) := by
    rw [readOrder_eq, shows.sec, shows.min, shows.day, shows.month, shows.hour, shows.century,
      shows.year, shownBytes]
  rw [getTime_shown profile range shown, hourDigits_twelveHour date.hourValid,
    DateTime.secondsSince, DateTime.secondOfDay, Except.ok.injEq]
  generalize daysBeforeYear 1970 date.year + date.dayOfYear = days
  split <;> omega

/-- A clock in 12-hour mode gives the time of the clock in 24-hour mode exactly outside the hours
after midnight and after noon. -/
theorem getTime_twelveHour_iff (profile : Profile) (shows : Shows date plain)
    (showsTwelve : ShowsTwelveHour date twelve) (range : 1970 ≤ date.year ∧ date.year ≤ 9999) :
    (getTime profile twelve).1 = (getTime profile plain).1 ↔ date.hour % 12 ≠ 0 := by
  rw [shows.getTime profile range, showsTwelve.getTime profile range, Except.ok.injEq]
  split <;> omega

end TwelveHour

/-- A clock whose hour register holds the given byte while the others show a date. -/
def clockOf (date : DateTime) (hour : BitVec 8) : Cmos where
  address := 0
  regs := fun reg => if reg = 0x04#7 then hour else registers date (reg.setWidth 8)
  updating := 0

theorem shows_clockOf (date : DateTime) :
    Shows date (clockOf date (binToBcd (BitVec.ofNat 8 date.hour))) :=
  ⟨rfl, rfl, rfl, rfl, rfl, rfl, rfl⟩

theorem showsTwelveHour_clockOf (date : DateTime) :
    ShowsTwelveHour date (clockOf date (twelveHour date.hour)) :=
  ⟨rfl, rfl, rfl, rfl, rfl, rfl, rfl⟩

/-- The last hour of a day. -/
theorem getTime_twelveHour_iff_evening :
    (getTime .dev (clockOf leapDayEnd 0x91)).1 = (getTime .dev (clockOf leapDayEnd 0x23)).1 :=
  (getTime_twelveHour_iff .dev (shows_clockOf leapDayEnd) (showsTwelveHour_clockOf leapDayEnd)
    (by decide)).mpr (by decide)

/-- Midnight is `12 AM`: read as noon. -/
theorem getTime_not_twelveHour :
    Shows marchStart (clockOf marchStart 0x00) ∧
      ShowsTwelveHour marchStart (clockOf marchStart 0x12) ∧
      (getTime .dev (clockOf marchStart 0x12)).1 ≠ (getTime .dev (clockOf marchStart 0x00)).1 := by
  have shows : Shows marchStart (clockOf marchStart 0x00) := shows_clockOf marchStart
  have showsTwelve : ShowsTwelveHour marchStart (clockOf marchStart 0x12) :=
    showsTwelveHour_clockOf marchStart
  refine ⟨shows, showsTwelve, ?_⟩
  rw [shows.getTime .dev (by decide), showsTwelve.getTime .dev (by decide)]
  simp [marchStart]

end Okots.Rtc
