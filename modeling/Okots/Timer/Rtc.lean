import Okots.Library.Gregorian
import Okots.Result
import Okots.UtilTypes
import Mathlib.Tactic.IntervalCases

/-!
# The real-time clock

`Rtc::set_time` writes a date to the registers of the clock in binary-coded decimal, and
`Rtc::get_time` turns the registers into seconds since 1970 with a closed formula for the leap
years.  The round trip counts the days of the Gregorian calendar.
-/

namespace Okots

open StateExec Exec Gregorian

/-! ## Ports -/

/-- The clock behind the ports `0x70` and `0x71`. -/
structure Cmos where
  /-- Last byte written to port `0x70`; bit 7 masks interrupts and selects nothing. -/
  address : BitVec 8
  /-- The registers keep the last value written. -/
  regs : BitVec 7 → BitVec 8
  /-- How many more reads of status register A find an update in progress. -/
  updating : Nat

namespace Cmos

/-- The register that port `0x71` gives access to. -/
def selected (cmos : Cmos) : BitVec 7 := cmos.address.setWidth 7

/-- A write to port `0x70`. -/
def writeAddr (value : BitVec 8) : Kernel Cmos Unit :=
  modify fun cmos => { cmos with address := value }

/-- A read of port `0x71`. Bit 7 of status register A shows the update in progress. -/
def readData : Kernel Cmos (BitVec 8) := fun cmos =>
  if cmos.selected = 0x0A#7 then
    (.ok (if cmos.updating = 0 then cmos.regs 0x0A#7 &&& 0x7F#8 else cmos.regs 0x0A#7 ||| 0x80#8),
      { cmos with updating := cmos.updating - 1 })
  else
    (.ok (cmos.regs cmos.selected), cmos)

/-- A write to port `0x71`. -/
def writeData (value : BitVec 8) : Kernel Cmos Unit := modify fun cmos =>
  { cmos with regs := Function.update cmos.regs cmos.selected value }

end Cmos

/-! ## The driver -/

namespace Rtc

def regSec : BitVec 8 := 0x00
def regMin : BitVec 8 := 0x02
def regHour : BitVec 8 := 0x04
def regDay : BitVec 8 := 0x07
def regMonth : BitVec 8 := 0x08
def regYear : BitVec 8 := 0x09
def regStatA : BitVec 8 := 0x0A
def regStatB : BitVec 8 := 0x0B
def regCentury : BitVec 8 := 0x32

/-- `read_rtc_reg`. -/
def readRtcReg (reg : BitVec 8) : Kernel Cmos (BitVec 8) := do
  Cmos.writeAddr (reg ||| 0x80#8)
  Cmos.readData

/-- `write_rtc_reg`. -/
def writeRtcReg (reg value : BitVec 8) : Kernel Cmos Unit := do
  Cmos.writeAddr (reg ||| 0x80#8)
  Cmos.writeData value

/-- `is_leap_year`. -/
def isLeapYear (year : Nat) : Bool := (year % 4 == 0 && year % 100 != 0) || year % 400 == 0

/-- `bcd_to_bin`. -/
def bcdToBin (profile : Profile) (bcd : BitVec 8) : Option Nat := do
  let tens ← uintMul 8 profile (bcd >>> 4).toNat 10
  uintAdd 8 profile (bcd &&& 0x0F#8).toNat tens

/-- `bin_to_bcd`. -/
def binToBcd (bin : BitVec 8) : BitVec 8 := ((bin / 10#8) <<< 4) ||| (bin % 10#8)

/-- `is_updating`. -/
def isUpdating : Kernel Cmos Bool := do
  return (← readRtcReg regStatA) &&& 0x80#8 != 0#8

/-- `Rtc::set_time`. -/
def setTime (year : Nat) (month day hour min sec : BitVec 8) : Kernel Cmos Unit := do
  let statusB ← readRtcReg regStatB
  writeRtcReg regStatB (statusB ||| 0x80#8)
  writeRtcReg regSec (binToBcd sec)
  writeRtcReg regMin (binToBcd min)
  writeRtcReg regHour (binToBcd hour)
  writeRtcReg regDay (binToBcd day)
  writeRtcReg regMonth (binToBcd month)
  writeRtcReg regYear (binToBcd (BitVec.ofNat 8 (year % 100)))
  writeRtcReg regCentury (binToBcd (BitVec.ofNat 8 (year / 100)))
  writeRtcReg regStatB (statusB &&& 0x7F#8)
  Cmos.writeAddr (regSec &&& 0x7F#8)

/-- What `is_updating` answers and leaves behind. -/
theorem isUpdating_eq (cmos : Cmos) :
    isUpdating cmos = (.ok (cmos.updating != 0),
      { cmos with address := 0x8A#8, updating := cmos.updating - 1 }) := by
  have status : readRtcReg regStatA cmos =
      (.ok (if cmos.updating = 0 then cmos.regs 0x0A#7 &&& 0x7F#8 else cmos.regs 0x0A#7 ||| 0x80#8),
        { cmos with address := 0x8A#8, updating := cmos.updating - 1 }) := by
    have read : readRtcReg regStatA cmos = Cmos.readData { cmos with address := 0x8A#8 } := rfl
    have selected : ({ cmos with address := 0x8A#8 } : Cmos).selected = 0x0A#7 :=
      show (0x8A#8).setWidth 7 = 0x0A#7 from rfl
    rw [read, Cmos.readData, if_pos selected]
  simp only [isUpdating, bind, pure, status]
  split
  · rename_i idle
    rw [BitVec.and_assoc, show 0x7F#8 &&& 0x80#8 = 0#8 from rfl, BitVec.and_zero, idle]
    rfl
  · rename_i busy
    have shown : (cmos.regs 0x0A#7 ||| 0x80#8) &&& 0x80#8 = 0x80#8 := by
      ext bit
      simp only [BitVec.getElem_and, BitVec.getElem_or]
      cases (0x80#8)[bit] <;> simp
    rw [shown, bne_iff_ne.mpr busy]
    rfl

/-- `while is_updating() { spin_loop() }`. -/
def spinWhileUpdating (cmos : Cmos) : Except Fault Unit × Cmos :=
  match _ : isUpdating cmos with
  | (.ok true, after) => spinWhileUpdating after
  | (.ok false, after) => (.ok (), after)
  | (.error reason, after) => (.error reason, after)
termination_by cmos.updating
decreasing_by
  rename_i shown
  rw [isUpdating_eq, Prod.mk.injEq, Except.ok.injEq, bne_iff_ne] at shown
  rw [← shown.2]
  exact Nat.sub_one_lt shown.1

/-- The wait at the beginning of `Rtc::get_time`. -/
def awaitUpdate : Kernel Cmos Unit := spinWhileUpdating

/-- `bcd_to_bin(read_rtc_reg(reg))`. -/
def readDigits (profile : Profile) (reg : BitVec 8) : Kernel Cmos Nat := do
  ofOption .panic (bcdToBin profile (← readRtcReg reg))

/-- The table of `Rtc::get_time`. -/
def monthTable : List Nat := [0, 31, 28, 31, 30, 31, 30, 31, 31, 30, 31, 30, 31]

/-- The loop of `Rtc::get_time` over the months before `month`. -/
def addMonths (profile : Profile) (totalDays month : Nat) : Option Nat :=
  (List.range' 1 (month - 1)).foldlM (fun total i => do
    let days ← monthTable[i]?
    uintAdd 64 profile total days) totalDays

/-- The correction of `Rtc::get_time` for the months after February. -/
def addLeapDay (profile : Profile) (totalDays year month : Nat) : Option Nat :=
  if month > 2 ∧ isLeapYear year = true then uintAdd 64 profile totalDays 1 else some totalDays

/-- The days that `Rtc::get_time` counts before the first month of a year. -/
def yearStart (profile : Profile) (year : Nat) : Option Nat := do
  let years ← uintSub 64 profile year 1970
  let common ← uintMul 64 profile years 365
  let fourths ← uintSub 64 profile year 1969
  let julian ← uintAdd 64 profile common (fourths / 4)
  let centuries ← uintSub 64 profile year 1901
  let reformed ← uintSub 64 profile julian (centuries / 100)
  let eras ← uintSub 64 profile year 1601
  uintAdd 64 profile reformed (eras / 400)

/-- The days that `Rtc::get_time` counts before a date. -/
def countDays (profile : Profile) (year month day : Nat) : Option Nat := do
  let start ← yearStart profile year
  let months ← addMonths profile start month
  let corrected ← addLeapDay profile months year month
  let elapsed ← uintSub 8 profile day 1
  uintAdd 64 profile corrected elapsed

/-- The sum at the end of `Rtc::get_time`. -/
def totalSecs (profile : Profile) (totalDays hour min sec : Nat) : Option Nat := do
  let days ← uintMul 64 profile totalDays 86400
  let hours ← uintMul 64 profile hour 3600
  let upToHour ← uintAdd 64 profile days hours
  let minutes ← uintMul 64 profile min 60
  let upToMinute ← uintAdd 64 profile upToHour minutes
  uintAdd 64 profile upToMinute sec

/-- The hour of a 12-hour or a 24-hour register. -/
def decodeHour (profile : Profile) (hour : BitVec 8) : Option Nat := do
  let decoded ← bcdToBin profile (hour &&& 0x7F#8)
  if hour &&& 0x80#8 != 0#8 then uintAdd 8 profile decoded 12 else some decoded

/-- The hour, as `Rtc::get_time` reads it. -/
def readHour (profile : Profile) : Kernel Cmos Nat := do
  ofOption .panic (decodeHour profile (← readRtcReg regHour))

/-- `Rtc::get_time`, in seconds. -/
def getTime (profile : Profile) : Kernel Cmos Nat := do
  awaitUpdate
  let sec ← readDigits profile regSec
  let min ← readDigits profile regMin
  let day ← readDigits profile regDay
  let month ← readDigits profile regMonth
  let hour ← readHour profile
  let century ← readDigits profile regCentury
  let yearShort ← readDigits profile regYear
  Cmos.writeAddr (regSec &&& 0x7F#8)
  let centuries ← ofOption .panic (uintMul 64 profile century 100)
  let year ← ofOption .panic (uintAdd 64 profile centuries yearShort)
  let totalDays ← ofOption .panic (countDays profile year month day)
  ofOption .panic (totalSecs profile totalDays hour min sec)

/-! ## Registers -/

/-- The mask bit of the address port selects no register. -/
theorem setWidth_mask (reg : BitVec 8) : (reg ||| 0x80#8).setWidth 7 = reg.setWidth 7 := by
  rw [BitVec.setWidth_or, show (0x80#8).setWidth 7 = 0#7 from rfl, BitVec.or_zero]

theorem readRtcReg_eq {reg : BitVec 8} (plain : reg.setWidth 7 ≠ 0x0A#7) (cmos : Cmos) :
    readRtcReg reg cmos =
      (.ok (cmos.regs (reg.setWidth 7)), { cmos with address := reg ||| 0x80#8 }) := by
  have selected : (reg ||| 0x80#8).setWidth 7 = reg.setWidth 7 := setWidth_mask reg
  have read : readRtcReg reg cmos = Cmos.readData { cmos with address := reg ||| 0x80#8 } := rfl
  rw [read, Cmos.readData, if_neg (by rwa [Cmos.selected, selected]), Cmos.selected, selected]

theorem writeRtcReg_eq (reg value : BitVec 8) (cmos : Cmos) :
    writeRtcReg reg value cmos = (.ok (), { cmos with
      address := reg ||| 0x80#8
      regs := Function.update cmos.regs (reg.setWidth 7) value }) := by
  rw [← setWidth_mask reg]
  rfl

/-- The wait ends with the update. -/
theorem awaitUpdate_eq (cmos : Cmos) :
    awaitUpdate cmos = (.ok (), { cmos with address := 0x8A#8, updating := 0 }) := by
  rw [awaitUpdate]
  induction busy : cmos.updating generalizing cmos with
  | zero =>
      have shown := isUpdating_eq cmos
      rw [busy] at shown
      rw [spinWhileUpdating]
      split <;> simp_all
  | succ count induction =>
      have shown := isUpdating_eq cmos
      rw [busy] at shown
      rw [spinWhileUpdating]
      split <;> simp_all

/-! ## Decimal digits -/

/-- What `bcd_to_bin` makes of a byte, whether or not its two halves are decimal digits. -/
def digits (byte : BitVec 8) : Nat := byte.toNat % 16 + byte.toNat / 16 * 10

theorem digits_le (byte : BitVec 8) : digits byte ≤ 165 := by
  have bound := byte.isLt
  rw [digits]
  omega

/-- `bcd_to_bin` does not overflow. -/
theorem bcdToBin_eq (profile : Profile) (byte : BitVec 8) :
    bcdToBin profile byte = some (digits byte) := by
  have bound := digits_le byte
  have high : (byte >>> 4).toNat = byte.toNat / 16 := by
    rw [BitVec.toNat_ushiftRight, Nat.shiftRight_eq_div_pow]
  have low : (byte &&& 0x0F#8).toNat = byte.toNat % 16 := by
    rw [BitVec.toNat_and, show (0x0F#8).toNat = 2 ^ 4 - 1 from rfl, Nat.and_two_pow_sub_one_eq_mod]
  rw [digits] at bound ⊢
  rw [bcdToBin, high, low, uintMul_of_lt profile (by omega), Option.bind_eq_bind, Option.bind_some,
    uintAdd_of_lt profile (by omega)]

/-- Two decimal digits survive the encoding. -/
theorem digits_binToBcd {bin : Nat} (two : bin < 100) :
    digits (binToBcd (BitVec.ofNat 8 bin)) = bin := by
  revert bin
  decide

theorem bcdToBin_binToBcd (profile : Profile) {bin : Nat} (two : bin < 100) :
    bcdToBin profile (binToBcd (BitVec.ofNat 8 bin)) = some bin := by
  rw [bcdToBin_eq, digits_binToBcd two]

/-- The hour that `Rtc::get_time` makes of its register. -/
def hourDigits (hour : BitVec 8) : Nat :=
  digits (hour &&& 0x7F#8) + if hour &&& 0x80#8 = 0#8 then 0 else 12

theorem decodeHour_eq (profile : Profile) (hour : BitVec 8) :
    decodeHour profile hour = some (hourDigits hour) ∧ hourDigits hour < 256 := by
  have bound := digits_le (hour &&& 0x7F#8)
  rw [decodeHour, bcdToBin_eq, Option.bind_eq_bind, Option.bind_some, hourDigits]
  by_cases morning : hour &&& 0x80#8 = 0#8
  · simp only [morning, bne_self_eq_false, Bool.false_eq_true, if_false, if_true, Nat.add_zero]
    exact ⟨trivial, by omega⟩
  · rw [if_pos (bne_iff_ne.mpr morning), if_neg morning, uintAdd_of_lt profile (by omega)]
    exact ⟨rfl, by omega⟩

/-- An hour of the 24-hour clock does not look like an afternoon hour of the 12-hour clock. -/
theorem hourDigits_binToBcd {hour : Nat} (valid : hour < 24) :
    hourDigits (binToBcd (BitVec.ofNat 8 hour)) = hour := by
  revert hour
  decide

theorem decodeHour_binToBcd (profile : Profile) {hour : Nat} (valid : hour < 24) :
    decodeHour profile (binToBcd (BitVec.ofNat 8 hour)) = some hour := by
  rw [(decodeHour_eq profile _).1, hourDigits_binToBcd valid]

/-! ## Dates in the registers -/

/-- The registers hold the decimal digits of a date. -/
structure Shows (date : DateTime) (cmos : Cmos) : Prop where
  sec : cmos.regs 0x00#7 = binToBcd (BitVec.ofNat 8 date.second)
  min : cmos.regs 0x02#7 = binToBcd (BitVec.ofNat 8 date.minute)
  hour : cmos.regs 0x04#7 = binToBcd (BitVec.ofNat 8 date.hour)
  day : cmos.regs 0x07#7 = binToBcd (BitVec.ofNat 8 date.day)
  month : cmos.regs 0x08#7 = binToBcd (BitVec.ofNat 8 date.month)
  year : cmos.regs 0x09#7 = binToBcd (BitVec.ofNat 8 (date.year % 100))
  century : cmos.regs 0x32#7 = binToBcd (BitVec.ofNat 8 (date.year / 100))

/-- `Rtc::set_time` for a date. -/
def setDate (date : DateTime) : Kernel Cmos Unit :=
  setTime date.year (BitVec.ofNat 8 date.month) (BitVec.ofNat 8 date.day) (BitVec.ofNat 8 date.hour)
    (BitVec.ofNat 8 date.minute) (BitVec.ofNat 8 date.second)

theorem setDate_ends (date : DateTime) (cmos : Cmos) :
    Ends (setDate date) cmos (fun _ after => Shows date after) fun _ _ => False := by
  have status := readRtcReg_eq (show regStatB.setWidth 7 ≠ 0x0A#7 by decide) cmos
  rw [setDate, setTime, ends_bind, ends_of_run status]
  simp only [ends_bind, ends_of_run (writeRtcReg_eq _ _ _)]
  constructor <;> simp [Function.update, regStatB, regSec, regMin, regHour, regDay, regMonth,
    regYear, regCentury]

/-! ## The day count -/

theorem isLeapYear_iff {year : Nat} : isLeapYear year = true ↔ IsLeap year := by
  simp only [isLeapYear, IsLeap, Bool.or_eq_true, Bool.and_eq_true, beq_iff_eq, bne_iff_ne]
  omega

/-- The formula of `Rtc::get_time` counts the days year by year. -/
theorem daysBeforeYear_add {year : Nat} (epoch : 1970 ≤ year) :
    daysBeforeYear 1970 year + (year - 1901) / 100 =
      (year - 1970) * 365 + (year - 1969) / 4 + (year - 1601) / 400 := by
  induction year, epoch using Nat.le_induction with
  | base => rfl
  | succ year epoch induction =>
      have days := yearDays_add year
      have years : (year + 1 - 1970) * 365 = (year - 1970) * 365 + 365 := by omega
      rw [daysBeforeYear_succ epoch, years, multiples_succ 4 (show 4 ∣ 1968 by decide) (by omega),
        multiples_succ 100 (show 100 ∣ 1900 by decide) (by omega),
        multiples_succ 400 (show 400 ∣ 1600 by decide) (by omega)]
      generalize (if 4 ∣ year then 1 else 0) = fourth at days ⊢
      generalize (if 100 ∣ year then 1 else 0) = century at days ⊢
      generalize (if 400 ∣ year then 1 else 0) = era at days ⊢
      omega

theorem daysBeforeYear_lt {year : Nat} (epoch : 1970 ≤ year) (last : year < 2 ^ 16) :
    daysBeforeYear 1970 year < 2 ^ 31 := by
  have counted := daysBeforeYear_add epoch
  omega

theorem yearStart_eq (profile : Profile) {year : Nat} (epoch : 1970 ≤ year) (last : year < 2 ^ 16) :
    yearStart profile year = some (daysBeforeYear 1970 year) := by
  have counted := daysBeforeYear_add epoch
  simp only [yearStart, Option.bind_eq_bind]
  rw [uintSub_of_le profile epoch, Option.bind_some, uintMul_of_lt profile (by omega),
    Option.bind_some, uintSub_of_le profile (by omega), Option.bind_some,
    uintAdd_of_lt profile (by omega), Option.bind_some, uintSub_of_le profile (by omega),
    Option.bind_some, uintSub_of_le profile (by omega), Option.bind_some,
    uintSub_of_le profile (by omega), Option.bind_some, uintAdd_of_lt profile (by omega)]
  exact congrArg some (by omega)

/-- February has a day more in a leap year. -/
theorem monthDays_eq (year month : Nat) :
    monthDays year month = monthDays 1 month + if month = 2 ∧ IsLeap year then 1 else 0 := by
  have common : ¬ IsLeap 1 := by decide
  by_cases february : month = 2
  · subst february
    by_cases leap : IsLeap year <;> simp [monthDays, common, leap]
  · rw [if_neg fun both => february both.1]
    unfold monthDays
    split <;> simp_all

theorem daysBeforeMonth_eq (year : Nat) {month : Nat} (first : 1 ≤ month) :
    daysBeforeMonth year month =
      daysBeforeMonth 1 month + if month > 2 ∧ IsLeap year then 1 else 0 := by
  induction month, first using Nat.le_induction with
  | base => simp [daysBeforeMonth]
  | succ month first induction =>
      rw [daysBeforeMonth_succ first, daysBeforeMonth_succ first, induction, monthDays_eq year]
      by_cases leap : IsLeap year
      · simp only [leap, and_true]
        split_ifs <;> omega
      · simp only [leap, and_false, if_false, Nat.add_zero]

/-- The table holds the days of the months of a common year. -/
theorem monthTable_get {month : Nat} (first : 1 ≤ month) (last : month ≤ 12) :
    monthTable[month]? = some (monthDays 1 month) := by
  interval_cases month <;> rfl

theorem addMonths_eq (profile : Profile) {start month : Nat} (first : 1 ≤ month)
    (last : month ≤ 13) (bound : start < 2 ^ 32) :
    addMonths profile start month = some (start + daysBeforeMonth 1 month) := by
  induction month, first using Nat.le_induction with
  | base => simp [addMonths, daysBeforeMonth]
  | succ month first induction =>
      have months : List.range' 1 (month + 1 - 1) = List.range' 1 (month - 1) ++ [month] := by
        rw [show month + 1 - 1 = month - 1 + 1 by omega, List.range'_concat]
        congr 2
        omega
      have year : daysBeforeMonth 1 (month + 1) ≤ yearDays 1 := by
        rw [← daysBeforeMonth_thirteen]
        exact daysBeforeMonth_mono 1 last
      have fits : start + daysBeforeMonth 1 month + monthDays 1 month < 2 ^ 64 := by
        rw [daysBeforeMonth_succ first, show yearDays 1 = 365 from rfl] at year
        omega
      have earlier := induction (by omega)
      rw [addMonths] at earlier ⊢
      rw [months, List.foldlM_append, earlier]
      simp only [Option.bind_eq_bind, Option.bind_some, List.foldlM_cons, List.foldlM_nil,
        monthTable_get first (by omega), uintAdd_of_lt profile fits, Option.pure_def,
        daysBeforeMonth_succ first, Nat.add_assoc]

theorem addLeapDay_eq (profile : Profile) {start year month : Nat} (first : 1 ≤ month)
    (last : month ≤ 12) (bound : start < 2 ^ 32) :
    addLeapDay profile (start + daysBeforeMonth 1 month) year month =
      some (start + daysBeforeMonth year month) := by
  have inYear := daysBeforeMonth_mono 1 (show month ≤ 13 by omega)
  rw [daysBeforeMonth_thirteen, show yearDays 1 = 365 from rfl] at inYear
  rw [daysBeforeMonth_eq year first, addLeapDay]
  simp only [isLeapYear_iff]
  split
  · rw [uintAdd_of_lt profile (by omega), Nat.add_assoc]
  · rw [Nat.add_zero]

/-- The count for a day of a month, also behind the end of the month. -/
theorem countDays_of_le (profile : Profile) {year month day : Nat} (epoch : 1970 ≤ year)
    (last : year ≤ 9999) (january : 1 ≤ month) (december : month ≤ 12) (first : 1 ≤ day)
    (bounded : day ≤ 31) :
    countDays profile year month day =
        some (daysBeforeYear 1970 year + (daysBeforeMonth year month + (day - 1))) ∧
      daysBeforeYear 1970 year + (daysBeforeMonth year month + (day - 1)) < 2 ^ 32 := by
  have start := yearStart_eq profile epoch (by omega)
  have bound := daysBeforeYear_lt epoch (by omega)
  have months : daysBeforeMonth year month ≤ 366 := by
    have inYear := daysBeforeMonth_mono year (show month ≤ 13 by omega)
    rw [daysBeforeMonth_thirteen, yearDays] at inYear
    split at inYear <;> omega
  generalize daysBeforeYear 1970 year = before at bound start ⊢
  refine ⟨?_, by omega⟩
  simp only [countDays, Option.bind_eq_bind]
  rw [start, Option.bind_some, addMonths_eq profile january (by omega) (by omega), Option.bind_some,
    addLeapDay_eq profile january december (by omega), Option.bind_some,
    uintSub_of_le profile first, Option.bind_some, uintAdd_of_lt profile (by omega),
    Nat.add_assoc]

/-- `Rtc::get_time` counts the days of the calendar. -/
theorem countDays_eq (profile : Profile) {date : DateTime} (epoch : 1970 ≤ date.year)
    (last : date.year ≤ 9999) :
    countDays profile date.year date.month date.day =
        some (daysBeforeYear 1970 date.year + date.dayOfYear) ∧
      daysBeforeYear 1970 date.year + date.dayOfYear < 2 ^ 32 :=
  countDays_of_le profile epoch last date.monthValid.1 date.monthValid.2 date.dayValid.1
    (date.dayValid.2.trans (monthDays_le _ _))

theorem totalSecs_eq (profile : Profile) {totalDays hour min sec : Nat}
    (days : totalDays < 2 ^ 33) (hours : hour < 256) (minutes : min < 256) (seconds : sec < 256) :
    totalSecs profile totalDays hour min sec =
      some (totalDays * 86400 + (hour * 3600 + min * 60 + sec)) := by
  -- The binds are rewritten one at a time: as definitional steps they make the kernel count 86400.
  simp only [totalSecs, Option.bind_eq_bind]
  rw [uintMul_of_lt profile (by omega), Option.bind_some, uintMul_of_lt profile (by omega),
    Option.bind_some, uintAdd_of_lt profile (by omega), Option.bind_some,
    uintMul_of_lt profile (by omega), Option.bind_some, uintAdd_of_lt profile (by omega),
    Option.bind_some, uintAdd_of_lt profile (by omega)]
  exact congrArg some (by omega)

/-! ## The round trip -/

theorem readDigits_eq (profile : Profile) (reg : BitVec 8) (plain : reg.setWidth 7 ≠ 0x0A#7)
    {address : BitVec 8} {regs : BitVec 7 → BitVec 8} {updating bin : Nat}
    (shown : regs (reg.setWidth 7) = binToBcd (BitVec.ofNat 8 bin)) (two : bin < 100) :
    readDigits profile reg ⟨address, regs, updating⟩ =
      (.ok bin, ⟨reg ||| 0x80#8, regs, updating⟩) := by
  have decoded := bcdToBin_binToBcd profile two
  rw [← shown] at decoded
  simp only [readDigits, bind, readRtcReg_eq plain, ofOption, decoded, pure]

theorem readHour_eq (profile : Profile) {address : BitVec 8} {regs : BitVec 7 → BitVec 8}
    {updating hour : Nat} (shown : regs 0x04#7 = binToBcd (BitVec.ofNat 8 hour))
    (valid : hour < 24) :
    readHour profile ⟨address, regs, updating⟩ =
      (.ok hour, ⟨regHour ||| 0x80#8, regs, updating⟩) := by
  have plain : regHour.setWidth 7 ≠ 0x0A#7 := by decide
  have decoded := decodeHour_binToBcd profile valid
  rw [← shown, show 0x04#7 = regHour.setWidth 7 from rfl] at decoded
  simp only [readHour, bind, readRtcReg_eq plain, ofOption, decoded, pure]

/-- `Rtc::get_time` on registers that show a date. -/
theorem getTime_ends (profile : Profile) {date : DateTime} {cmos : Cmos} (shows : Shows date cmos)
    (epoch : 1970 ≤ date.year) (last : date.year ≤ 9999) :
    Ends (getTime profile) cmos (fun seconds _ => seconds = date.secondsSince 1970)
      fun _ _ => False := by
  obtain ⟨address, regs, updating⟩ := cmos
  have month : date.month < 100 := by
    have december := date.monthValid.2
    omega
  have day : date.day < 100 := by
    have inMonth := date.dayValid.2.trans (monthDays_le _ _)
    omega
  have hours := date.hourValid
  have minutes := date.minuteValid
  have seconds := date.secondValid
  have year : date.year / 100 * 100 + date.year % 100 = date.year := Nat.div_add_mod' _ _
  obtain ⟨days, bound⟩ := countDays_eq profile epoch last
  rw [getTime, ends_bind, ends_of_run (awaitUpdate_eq _), ends_bind,
    ends_of_run (readDigits_eq profile regSec (by decide) shows.sec (by omega)), ends_bind,
    ends_of_run (readDigits_eq profile regMin (by decide) shows.min (by omega)), ends_bind,
    ends_of_run (readDigits_eq profile regDay (by decide) shows.day day), ends_bind,
    ends_of_run (readDigits_eq profile regMonth (by decide) shows.month month), ends_bind,
    ends_of_run (readHour_eq profile shows.hour date.hourValid), ends_bind,
    ends_of_run (readDigits_eq profile regCentury (by decide) shows.century (by omega)), ends_bind,
    ends_of_run (readDigits_eq profile regYear (by decide) shows.year (by omega))]
  simp only [ends_bind, Cmos.writeAddr, ends_modify]
  rw [ends_ofOption_of_some _ (uintMul_of_lt profile (by omega)),
    ends_ofOption_of_some _ (uintAdd_of_lt profile (by omega)), year,
    ends_ofOption_of_some _ days,
    ends_ofOption_of_some _ (totalSecs_eq profile (by omega) (by omega) (by omega) (by omega)),
    DateTime.secondsSince, DateTime.secondOfDay]

/-- Writing a date and reading the clock gives the seconds since 1970, without an overflow and
without an access behind the table, and a later date gives more seconds. -/
theorem setTime_getTime (profile : Profile) {date other : DateTime}
    (range : 1970 ≤ date.year ∧ date.year ≤ 9999)
    (otherRange : 1970 ≤ other.year ∧ other.year ≤ 9999)
    (cmos otherCmos : Cmos) :
    ∃ seconds otherSeconds after otherAfter,
      (do setDate date; getTime profile) cmos = (.ok seconds, after) ∧
      (do setDate other; getTime profile) otherCmos = (.ok otherSeconds, otherAfter) ∧
      seconds = date.secondsSince 1970 ∧
      (date.Before other → seconds < otherSeconds) := by
  have ends (date : DateTime) (range : 1970 ≤ date.year ∧ date.year ≤ 9999) (cmos : Cmos) :
      Ends (do setDate date; getTime profile) cmos
        (fun seconds _ => seconds = date.secondsSince 1970) fun _ _ => False := by
    rw [ends_bind]
    refine (setDate_ends date cmos).mono (fun _ written shows => ?_) fun _ _ failed => failed
    exact getTime_ends profile shows range.1 range.2
  obtain ⟨seconds, after, run, rfl⟩ := (ends date range cmos).exists_ok fun _ _ failed => failed
  obtain ⟨otherSeconds, otherAfter, otherRun, rfl⟩ :=
    (ends other otherRange otherCmos).exists_ok fun _ _ failed => failed
  exact ⟨_, _, after, otherAfter, run, otherRun, rfl, DateTime.secondsSince_lt range.1⟩

/-- The last second of a leap day. -/
def leapDayEnd : DateTime :=
  ⟨2024, 2, 29, 23, 59, 59, by decide, by decide, by decide, by decide, by decide⟩

/-- The second after it. -/
def marchStart : DateTime :=
  ⟨2024, 3, 1, 0, 0, 0, by decide, by decide, by decide, by decide, by decide⟩

theorem setTime_getTime_leapDay :
    ∃ seconds otherSeconds after otherAfter,
      (do setDate leapDayEnd; getTime .dev) ⟨0, fun _ => 0, 3⟩ = (.ok seconds, after) ∧
      (do setDate marchStart; getTime .dev) ⟨0, fun _ => 0xFF, 0⟩ =
        (.ok otherSeconds, otherAfter) ∧
      seconds < otherSeconds := by
  obtain ⟨seconds, otherSeconds, after, otherAfter, run, otherRun, -, increasing⟩ :=
    setTime_getTime .dev (show 1970 ≤ leapDayEnd.year ∧ leapDayEnd.year ≤ 9999 by decide)
      (show 1970 ≤ marchStart.year ∧ marchStart.year ≤ 9999 by decide) ⟨0, fun _ => 0, 3⟩
      ⟨0, fun _ => 0xFF, 0⟩
  have later : leapDayEnd.Before marchStart := .inr ⟨rfl, .inl (by decide)⟩
  exact ⟨seconds, otherSeconds, after, otherAfter, run, otherRun, increasing later⟩

end Rtc

end Okots
