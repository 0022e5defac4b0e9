import Okots.Library.Reachable
import Okots.Timer.Rtc

/-!
# Ticks during a read of the clock

`Rtc::get_time` tests the update bit once and then reads seven registers one after another.  The
clock may advance between any two of the reads.  The result is the time of an instant of the call
when the registers that are read after the seconds have not changed in between.
-/

namespace Okots.Rtc

open StateExec Exec Gregorian TransitionSystem

/-! ## The registers -/

/-- The registers of a clock that shows a date in 24-hour mode. -/
def registers (date : DateTime) (reg : BitVec 8) : BitVec 8 :=
  if reg = regSec then binToBcd (BitVec.ofNat 8 date.second)
  else if reg = regMin then binToBcd (BitVec.ofNat 8 date.minute)
  else if reg = regHour then binToBcd (BitVec.ofNat 8 date.hour)
  else if reg = regDay then binToBcd (BitVec.ofNat 8 date.day)
  else if reg = regMonth then binToBcd (BitVec.ofNat 8 date.month)
  else if reg = regYear then binToBcd (BitVec.ofNat 8 (date.year % 100))
  else if reg = regCentury then binToBcd (BitVec.ofNat 8 (date.year / 100))
  else 0

/-- The registers in the order in which `Rtc::get_time` reads them. -/
def readOrder : List (BitVec 8) :=
  [regSec, regMin, regDay, regMonth, regHour, regCentury, regYear]

/-- What `Rtc::get_time` makes of the bytes it has read. -/
def decodeTime (profile : Profile) : List (BitVec 8) → Option Nat
  | [sec, min, day, month, hour, century, yearShort] => do
      let sec ← bcdToBin profile sec
      let min ← bcdToBin profile min
      let day ← bcdToBin profile day
      let month ← bcdToBin profile month
      let hour ← decodeHour profile hour
      let century ← bcdToBin profile century
      let yearShort ← bcdToBin profile yearShort
      let centuries ← uintMul 64 profile century 100
      let year ← uintAdd 64 profile centuries yearShort
      let totalDays ← countDays profile year month day
      totalSecs profile totalDays hour min sec
  | _ => none

/-- The year that `Rtc::get_time` makes of its two registers. -/
def yearDigits (century yearShort : BitVec 8) : Nat := digits century * 100 + digits yearShort

theorem yearDigits_lt (century yearShort : BitVec 8) : yearDigits century yearShort < 2 ^ 16 := by
  have first := digits_le century
  have last := digits_le yearShort
  rw [yearDigits]
  omega

section Bytes

variable (profile : Profile) (sec min day month hour century yearShort : BitVec 8)

/-- Only the day count and the last sum depend on the bytes being those of a date. -/
theorem decodeTime_bytes :
    decodeTime profile [sec, min, day, month, hour, century, yearShort] =
      (countDays profile (yearDigits century yearShort) (digits month) (digits day)).bind
        fun totalDays =>
          totalSecs profile totalDays (hourDigits hour) (digits min) (digits sec) := by
  have first := digits_le century
  have last := digits_le yearShort
  simp only [decodeTime, Option.bind_eq_bind]
  rw [bcdToBin_eq, Option.bind_some, bcdToBin_eq, Option.bind_some, bcdToBin_eq, Option.bind_some,
    bcdToBin_eq, Option.bind_some, (decodeHour_eq profile hour).1, Option.bind_some, bcdToBin_eq,
    Option.bind_some, bcdToBin_eq, Option.bind_some, uintMul_of_lt profile (by omega),
    Option.bind_some, uintAdd_of_lt profile (by omega), Option.bind_some, yearDigits]

end Bytes

/-- The day number of a day of a month, also behind the end of the month. -/
def dayNumber (year month day : Nat) : Nat :=
  daysBeforeYear 1970 year + (daysBeforeMonth year month + (day - 1))

theorem secondsSince_eq (date : DateTime) : date.secondsSince 1970 =
    dayNumber date.year date.month date.day * 86400 +
      (date.hour * 3600 + date.minute * 60 + date.second) := rfl

section Decode

variable {sec min day month hour century yearShort : Nat}

theorem decodeTime_digits (profile : Profile) (seconds : sec < 60) (minutes : min < 60)
    (days : day ≤ 31) (months : month ≤ 12) (hours : hour < 24) (centuries : century < 100)
    (years : yearShort < 100) :
    decodeTime profile [binToBcd (BitVec.ofNat 8 sec), binToBcd (BitVec.ofNat 8 min),
        binToBcd (BitVec.ofNat 8 day), binToBcd (BitVec.ofNat 8 month),
        binToBcd (BitVec.ofNat 8 hour), binToBcd (BitVec.ofNat 8 century),
        binToBcd (BitVec.ofNat 8 yearShort)] =
      (countDays profile (century * 100 + yearShort) month day).bind fun totalDays =>
        totalSecs profile totalDays hour min sec := by
  rw [decodeTime_bytes, yearDigits, hourDigits_binToBcd hours, digits_binToBcd centuries,
    digits_binToBcd years, digits_binToBcd (show sec < 100 by omega),
    digits_binToBcd (show min < 100 by omega), digits_binToBcd (show day < 100 by omega),
    digits_binToBcd (show month < 100 by omega)]

/-- Fields in their ranges have a value, also those of a day that the month does not have. -/
theorem decodeTime_fields (profile : Profile) (seconds : sec < 60) (minutes : min < 60)
    (first : 1 ≤ day) (days : day ≤ 31) (january : 1 ≤ month) (months : month ≤ 12)
    (hours : hour < 24) (centuries : century < 100) (years : yearShort < 100)
    (epoch : 1970 ≤ century * 100 + yearShort) :
    decodeTime profile [binToBcd (BitVec.ofNat 8 sec), binToBcd (BitVec.ofNat 8 min),
        binToBcd (BitVec.ofNat 8 day), binToBcd (BitVec.ofNat 8 month),
        binToBcd (BitVec.ofNat 8 hour), binToBcd (BitVec.ofNat 8 century),
        binToBcd (BitVec.ofNat 8 yearShort)] =
      some (dayNumber (century * 100 + yearShort) month day * 86400 +
        (hour * 3600 + min * 60 + sec)) := by
  obtain ⟨counted, bound⟩ := countDays_of_le profile epoch (show _ ≤ 9999 by omega) january months
    first days
  rw [decodeTime_digits profile seconds minutes days months hours centuries years, counted,
    Option.bind_some, totalSecs_eq profile (by omega) (by omega) (by omega) (by omega), dayNumber]

end Decode

/-- The registers of a date give its time. -/
theorem decodeTime_registers (profile : Profile) {date : DateTime} (epoch : 1970 ≤ date.year)
    (last : date.year ≤ 9999) :
    decodeTime profile (readOrder.map (registers date)) = some (date.secondsSince 1970) := by
  have year : date.year / 100 * 100 + date.year % 100 = date.year := Nat.div_add_mod' _ _
  refine (decodeTime_fields profile date.secondValid date.minuteValid date.dayValid.1
    (date.dayValid.2.trans (monthDays_le _ _)) date.monthValid.1 date.monthValid.2 date.hourValid
    (by omega) (Nat.mod_lt _ (by decide)) (by omega)).trans ?_
  rw [year, secondsSince_eq]

/-! ## Torn reads -/

/-- The bytes read when `shown` is the date at each of the registers after the seconds. -/
def mixedBytes (date : DateTime) (shown : Nat → DateTime) : List (BitVec 8) :=
  [registers date regSec, registers (shown 0) regMin, registers (shown 1) regDay,
    registers (shown 2) regMonth, registers (shown 3) regHour, registers (shown 4) regCentury,
    registers (shown 5) regYear]

/-- The dates of the reads when the next minute begins before the one at `cut`. -/
def minuteAt (date : DateTime) (cut position : Nat) : DateTime :=
  if position < cut then date else date.nextMinute

/-- The year of two registers that may be of different dates. -/
def mixedYear (date : DateTime) (cut : Nat) : Nat :=
  (minuteAt date cut 4).year / 100 * 100 + (minuteAt date cut 5).year % 100

section Torn

variable {profile : Profile} {date : DateTime} {cut : Nat}

theorem minuteAt_late {position : Nat} (late : cut ≤ position) :
    minuteAt date cut position = date.nextMinute := if_neg (Nat.not_lt.mpr late)

theorem minuteAt_early {position : Nat} (early : position < cut) :
    minuteAt date cut position = date := if_pos early

/-- A field that the next minute does not change is read as it is. -/
theorem minuteAt_field {α : Type*} (field : DateTime → α)
    (same : field date.nextMinute = field date) (position : Nat) :
    field (minuteAt date cut position) = field date := by
  rw [minuteAt]
  split
  · rfl
  · exact same

theorem year_minuteAt (epoch : 1970 ≤ date.year) (last : date.year ≤ 9999)
    (later : cut < 6 → date.nextMinute.year ≤ 9999) {position : Nat} (inside : position < 6) :
    1970 ≤ (minuteAt date cut position).year ∧ (minuteAt date cut position).year ≤ 9999 := by
  rw [minuteAt]
  split
  · exact ⟨epoch, last⟩
  · refine ⟨?_, later (by omega)⟩
    by_cases same : date.nextMinute.year = date.year
    · omega
    · have next := (DateTime.nextMinute_of_year_ne same).1
      omega

/-- The value of a torn read, unless it seems to be from before 1970. -/
theorem decodeTime_mixed (profile : Profile) (epoch : 1970 ≤ date.year) (last : date.year ≤ 9999)
    (later : cut < 6 → date.nextMinute.year ≤ 9999) (since : 1970 ≤ mixedYear date cut) :
    decodeTime profile (mixedBytes date (minuteAt date cut)) =
      some (dayNumber (mixedYear date cut) (minuteAt date cut 2).month (minuteAt date cut 1).day *
          86400 +
        ((minuteAt date cut 3).hour * 3600 + (minuteAt date cut 0).minute * 60 + date.second)) := by
  have century := year_minuteAt epoch last later (show 4 < 6 by decide)
  exact decodeTime_fields profile date.secondValid (minuteAt date cut 0).minuteValid
    (minuteAt date cut 1).dayValid.1 ((minuteAt date cut 1).dayValid.2.trans (monthDays_le _ _))
    (minuteAt date cut 2).monthValid.1 (minuteAt date cut 2).monthValid.2
    (minuteAt date cut 3).hourValid (by omega) (Nat.mod_lt _ (by decide)) since

/-- The last day of a year comes before the last day of a later year. -/
theorem dayNumber_december {year other : Nat} (epoch : 1970 ≤ year) (order : year < other) :
    dayNumber year 12 31 < dayNumber other 12 31 := by
  have december : daysBeforeMonth year 13 = daysBeforeMonth year 12 + 31 :=
    daysBeforeMonth_succ (by decide)
  rw [daysBeforeMonth_thirteen] at december
  have next := daysBeforeYear_succ epoch
  have later := daysBeforeYear_mono 1970 (Nat.succ_le_of_lt order)
  rw [Nat.succ_eq_add_one] at later
  rw [dayNumber, dayNumber]
  omega

/-- The bytes are those of one date when the fields are. -/
theorem mixedBytes_eq {shown : Nat → DateTime} (minute : (shown 0).minute = date.minute)
    (day : (shown 1).day = date.day) (month : (shown 2).month = date.month)
    (hour : (shown 3).hour = date.hour) (century : (shown 4).year = date.year)
    (year : (shown 5).year = date.year) :
    mixedBytes date shown = readOrder.map (registers date) := by
  have bytes : mixedBytes date shown = [registers date regSec,
      binToBcd (BitVec.ofNat 8 (shown 0).minute), binToBcd (BitVec.ofNat 8 (shown 1).day),
      binToBcd (BitVec.ofNat 8 (shown 2).month), binToBcd (BitVec.ofNat 8 (shown 3).hour),
      binToBcd (BitVec.ofNat 8 ((shown 4).year / 100)),
      binToBcd (BitVec.ofNat 8 ((shown 5).year % 100))] := rfl
  rw [bytes, minute, day, month, hour, century, year]
  rfl

theorem mixedBytes_of_hour (same : date.nextMinute.hour = date.hour) (read : 0 < cut) :
    mixedBytes date (minuteAt date cut) = readOrder.map (registers date) := by
  obtain ⟨-, day, month, year⟩ := DateTime.nextMinute_of_hour same
  exact mixedBytes_eq (by rw [minuteAt_early read]) (minuteAt_field DateTime.day day 1)
    (minuteAt_field DateTime.month month 2) (minuteAt_field DateTime.hour same 3)
    (minuteAt_field DateTime.year year 4) (minuteAt_field DateTime.year year 5)

theorem mixedBytes_of_year (same : date.nextMinute.year = date.year) (read : 3 < cut) :
    mixedBytes date (minuteAt date cut) = readOrder.map (registers date) :=
  mixedBytes_eq (by rw [minuteAt_early (by omega)]) (by rw [minuteAt_early (by omega)])
    (by rw [minuteAt_early (by omega)]) (by rw [minuteAt_early read])
    (minuteAt_field DateTime.year same 4) (minuteAt_field DateTime.year same 5)

/-- A torn read with the hour of the next minute. -/
theorem mixedBytes_of_value_hour (epoch : 1970 ≤ date.year) (read : cut ≤ 3)
    (value : dayNumber (mixedYear date cut) (minuteAt date cut 2).month (minuteAt date cut 1).day *
        86400 + ((minuteAt date cut 3).hour * 3600 + (minuteAt date cut 0).minute * 60 +
          date.second) = date.secondsSince 1970) :
    mixedBytes date (minuteAt date cut) = readOrder.map (registers date) := by
  have next := DateTime.secondsSince_nextMinute epoch
  have year : date.nextMinute.year / 100 * 100 + date.nextMinute.year % 100 =
      date.nextMinute.year := Nat.div_add_mod' _ _
  have hour := date.hourValid
  have nextHour := date.nextMinute.hourValid
  rw [secondsSince_eq, secondsSince_eq, DateTime.second_nextMinute] at next
  rw [secondsSince_eq, mixedYear, minuteAt_late (show cut ≤ 3 from read),
    minuteAt_late (show cut ≤ 4 by omega), minuteAt_late (show cut ≤ 5 by omega), year] at value
  rcases Nat.lt_or_ge 1 cut with minuteEarly | early
  · -- The minute and the day are the old ones: the hour cannot have changed.
    rw [minuteAt_early (show 0 < cut by omega)] at value
    exact mixedBytes_of_hour (by omega) (by omega)
  rw [minuteAt_late (show cut ≤ 1 from early), minuteAt_late (show cut ≤ 2 by omega)] at value
  rcases Nat.lt_or_ge 0 cut with minuteEarly | none
  · rw [minuteAt_early minuteEarly] at value
    have minute : date.nextMinute.minute = date.minute + 1 := by omega
    refine mixedBytes_of_hour ?_ minuteEarly
    by_contra changed
    obtain ⟨last, first⟩ := DateTime.nextMinute_of_hour_ne changed
    omega
  · rw [minuteAt_late (show cut ≤ 0 from none)] at value
    omega

/-- A torn read with the hour of the date and the year of the next minute. -/
theorem mixedBytes_of_value_year (epoch : 1970 ≤ date.year) (read : 3 < cut)
    (since : 1970 ≤ mixedYear date cut)
    (value : dayNumber (mixedYear date cut) (minuteAt date cut 2).month (minuteAt date cut 1).day *
        86400 + ((minuteAt date cut 3).hour * 3600 + (minuteAt date cut 0).minute * 60 +
          date.second) = date.secondsSince 1970) :
    mixedBytes date (minuteAt date cut) = readOrder.map (registers date) := by
  rw [secondsSince_eq, minuteAt_early (show 0 < cut by omega),
    minuteAt_early (show 1 < cut by omega), minuteAt_early (show 2 < cut by omega),
    minuteAt_early read] at value
  by_cases all : 5 < cut
  · exact mixedBytes_eq (by rw [minuteAt_early (by omega)]) (by rw [minuteAt_early (by omega)])
      (by rw [minuteAt_early (by omega)]) (by rw [minuteAt_early (by omega)])
      (by rw [minuteAt_early (by omega)]) (by rw [minuteAt_early all])
  refine mixedBytes_of_year ?_ read
  by_contra changed
  obtain ⟨next, december, last, -, -⟩ := DateTime.nextMinute_of_year_ne changed
  have distinct : mixedYear date cut ≠ date.year := by
    rw [mixedYear, minuteAt_late (show cut ≤ 5 by omega), next]
    omega
  rw [december, last] at value
  rcases Nat.lt_or_gt_of_ne distinct with before | behind
  · have order := dayNumber_december since before
    omega
  · have order := dayNumber_december epoch behind
    omega

/-- 31 December 1900 in the arithmetic without overflow checks. -/
theorem decode_1900 {sec value : Nat} (seconds : sec < 60)
    (decoded : ((countDays profile 1900 12 31).bind fun totalDays =>
      totalSecs profile totalDays 23 59 sec) = some value) : 2 ^ 63 ≤ value := by
  cases profile with
  | dev =>
      rw [show countDays .dev 1900 12 31 = none by decide, Option.bind_none] at decoded
      cases decoded
  | release =>
      have wrapped : ∀ sec < 60, totalSecs .release 4427218577690267184 23 59 sec =
          some (18446744071532026180 + sec) := by decide
      rw [show countDays .release 1900 12 31 = some 4427218577690267184 by decide,
        Option.bind_some, wrapped sec seconds] at decoded
      rw [← Option.some.inj decoded]
      omega

/-- The year seems to lie before 1970 only if 1999 is followed by 2000 before the last read; the
result is then no time that the clock shows. -/
theorem decodeTime_before_epoch (epoch : 1970 ≤ date.year) (early : mixedYear date cut < 1970)
    {value : Nat}
    (decoded : decodeTime profile (mixedBytes date (minuteAt date cut)) = some value) :
    2 ^ 63 ≤ value := by
  have split (shown : DateTime) : shown.year / 100 * 100 + shown.year % 100 = shown.year :=
    Nat.div_add_mod' _ _
  have changed : date.nextMinute.year ≠ date.year := by
    intro same
    rw [mixedYear, minuteAt_field DateTime.year same, minuteAt_field DateTime.year same,
      split] at early
    omega
  obtain ⟨next, december, day, hour, minute⟩ := DateTime.nextMinute_of_year_ne changed
  have cutFive : cut = 5 := by
    rw [mixedYear] at early
    rcases Nat.lt_trichotomy cut 5 with below | same | above
    · rw [minuteAt_late (show cut ≤ 4 by omega), minuteAt_late (show cut ≤ 5 by omega),
        split] at early
      omega
    · exact same
    · rw [minuteAt_early (show 4 < cut by omega), minuteAt_early above, split] at early
      omega
  subst cutFive
  have shown : minuteAt date 5 5 = date.nextMinute := rfl
  have year : date.year = 1999 := by
    rw [mixedYear, shown, minuteAt_early (show 4 < 5 by decide), next] at early
    omega
  have bytes : mixedBytes date (minuteAt date 5) = [binToBcd (BitVec.ofNat 8 date.second),
      binToBcd (BitVec.ofNat 8 date.minute), binToBcd (BitVec.ofNat 8 date.day),
      binToBcd (BitVec.ofNat 8 date.month), binToBcd (BitVec.ofNat 8 date.hour),
      binToBcd (BitVec.ofNat 8 (date.year / 100)),
      binToBcd (BitVec.ofNat 8 (date.nextMinute.year % 100))] := rfl
  rw [bytes, next, december, day, hour, minute, year,
    decodeTime_digits profile date.secondValid (by decide) (by decide) (by decide) (by decide)
      (by decide) (by decide)] at decoded
  exact decode_1900 date.secondValid decoded

end Torn

/-- A program returns a partial value, and panics where there is none. -/
def Returns {α : Type} (program : Kernel Cmos α) (cmos : Cmos) (value : Option α) : Prop :=
  Ends program cmos (fun result _ => value = some result) fun _ _ => value = none

section Returns

variable {α β : Type} {cmos after : Cmos}

theorem returns_ofOption (value : Option α) : Returns (ofOption .panic value) cmos value :=
  (ends_ofOption _ _).mpr ⟨fun _ found => found, fun missing => missing⟩

theorem Returns.of_run {program : Kernel Cmos α} {next : α → Kernel Cmos β} {result : α}
    {value : Option β} (run : program cmos = (.ok result, after))
    (rest : Returns (next result) after value) : Returns (program >>= next) cmos value := by
  rw [Returns, ends_bind, ends_of_run run]
  exact rest

theorem Returns.ofOption {value : Option α} {next : α → Kernel Cmos β} {following : α → Option β}
    (rest : ∀ result, Returns (next result) cmos (following result)) :
    Returns (ofOption .panic value >>= next) cmos (value.bind following) := by
  rw [Returns, ends_bind]
  cases value with
  | none => rfl
  | some result => exact rest result

variable {profile : Profile} {next : Nat → Kernel Cmos β} {following : Nat → Option β}

/-- A register is read and decoded; the registers stay as they are. -/
theorem Returns.readDigits {reg : BitVec 8} (plain : reg.setWidth 7 ≠ 0x0A#7)
    (rest : ∀ digits, Returns (next digits) { cmos with address := reg ||| 0x80#8 }
      (following digits)) :
    Returns (readDigits profile reg >>= next) cmos
      ((bcdToBin profile (cmos.regs (reg.setWidth 7))).bind following) := by
  rw [Returns, ends_bind, Rtc.readDigits, ends_bind, ends_of_run (readRtcReg_eq plain cmos),
    ← ends_bind]
  exact Returns.ofOption rest

theorem Returns.readHour
    (rest : ∀ hour, Returns (next hour) { cmos with address := regHour ||| 0x80#8 }
      (following hour)) :
    Returns (readHour profile >>= next) cmos
      ((decodeHour profile (cmos.regs (regHour.setWidth 7))).bind following) := by
  have plain : regHour.setWidth 7 ≠ 0x0A#7 := by decide
  rw [Returns, ends_bind, Rtc.readHour, ends_bind, ends_of_run (readRtcReg_eq plain cmos),
    ← ends_bind]
  exact Returns.ofOption rest

end Returns

/-- Without ticks, `Rtc::get_time` decodes the registers. -/
theorem getTime_returns (profile : Profile) (cmos : Cmos) :
    Returns (getTime profile) cmos
      (decodeTime profile (readOrder.map fun reg => cmos.regs (reg.setWidth 7))) := by
  rw [getTime]
  refine Returns.of_run (awaitUpdate_eq cmos) ?_
  refine Returns.readDigits (by decide) fun sec => ?_
  refine Returns.readDigits (by decide) fun min => ?_
  refine Returns.readDigits (by decide) fun day => ?_
  refine Returns.readDigits (by decide) fun month => ?_
  refine Returns.readHour fun hour => ?_
  refine Returns.readDigits (by decide) fun century => ?_
  refine Returns.readDigits (by decide) fun yearShort => ?_
  refine Returns.of_run rfl ?_
  refine Returns.ofOption fun centuries => ?_
  refine Returns.ofOption fun year => ?_
  refine Returns.ofOption fun totalDays => ?_
  exact returns_ofOption _

/-! ## A call and the clock -/

/-- Where the clock is in an update; the update bit is set in the last two phases. -/
inductive UpdatePhase where
  | idle
  /-- The registers still show the old date. -/
  | due
  /-- The registers show the new date. -/
  | applied

/-- Where a call of `Rtc::get_time` is. -/
inductive CallPhase where
  /-- `while is_updating() { spin_loop() }`. -/
  | waiting
  /-- The registers to be read and the bytes read so far. -/
  | reading (pending bytes : List (BitVec 8))
  /-- The result; `none` is a panic. -/
  | returned (result : Option Nat)

/-- A call of `Rtc::get_time` and the clock. -/
structure ClockedCall where
  /-- The date shown when the call begins. -/
  begun : DateTime
  /-- The number of ticks since. -/
  ticks : Nat
  update : UpdatePhase
  phase : CallPhase
  /-- For each register that has been read, the number of ticks before. -/
  readAt : List Nat

/-- A step of the clock or a register access of the call. -/
inductive RtcEvent where
  | beginUpdate
  | advance
  | endUpdate
  | access

namespace ClockedCall

/-- A call begins. -/
def start (date : DateTime) (update : UpdatePhase) : ClockedCall := ⟨date, 0, update, .waiting, []⟩

/-- The date shown after a number of ticks. -/
def dateAt (call : ClockedCall) (tick : Nat) : DateTime := DateTime.nextSecond^[tick] call.begun

/-- The parts of a tick come in turn; the call goes on until it has returned. -/
def Enabled (call : ClockedCall) : RtcEvent → Prop
  | .beginUpdate => call.update = .idle ∧ ∀ result, call.phase ≠ .returned result
  | .advance => call.update = .due ∧ ∀ result, call.phase ≠ .returned result
  | .endUpdate => call.update = .applied ∧ ∀ result, call.phase ≠ .returned result
  | .access => ∀ result, call.phase ≠ .returned result

/-- The next access of the call. -/
def access (profile : Profile) (call : ClockedCall) : ClockedCall :=
  match call.phase with
  | .waiting =>
      match call.update with
      | .idle => { call with phase := .reading readOrder [] }
      | .due | .applied => call
  | .reading (reg :: pending) bytes =>
      { call with
        phase := .reading pending (bytes ++ [registers (call.dateAt call.ticks) reg])
        readAt := call.readAt ++ [call.ticks] }
  | .reading [] bytes => { call with phase := .returned (decodeTime profile bytes) }
  | .returned _ => call

def next (profile : Profile) (call : ClockedCall) : RtcEvent → ClockedCall
  | .beginUpdate => { call with update := .due }
  | .advance => { call with ticks := call.ticks + 1, update := .applied }
  | .endUpdate => { call with update := .idle }
  | .access => call.access profile

/-- The bytes that are read when the registers are read after the given numbers of ticks. -/
def bytesAt (call : ClockedCall) (readAt : List Nat) : List (BitVec 8) :=
  List.zipWith (fun reg tick => registers (call.dateAt tick) reg) readOrder readAt

/-- The registers read after the seconds still show what they showed then. -/
def Untorn (call : ClockedCall) : Prop :=
  ∀ first ∈ call.readAt.head?,
    call.bytesAt call.readAt = readOrder.map (registers (call.dateAt first))

/-- The result is the time shown at an instant of the call. -/
def Current (call : ClockedCall) (result : Option Nat) : Prop :=
  ∃ tick ≤ call.ticks, result = some ((call.dateAt tick).secondsSince 1970)

/-- The bytes read so far, and when they were read. -/
structure Inv (profile : Profile) (call : ClockedCall) : Prop where
  sorted : call.readAt.Pairwise (· ≤ ·)
  past : ∀ tick ∈ call.readAt, tick ≤ call.ticks
  phase : match call.phase with
    | .waiting => call.readAt = []
    | .reading pending bytes => call.readAt.length ≤ readOrder.length ∧
        pending = readOrder.drop call.readAt.length ∧ bytes = call.bytesAt call.readAt
    | .returned result => call.readAt.length = readOrder.length ∧
        result = decodeTime profile (call.bytesAt call.readAt)

variable {profile : Profile} {call : ClockedCall} {result : Option Nat}

theorem start_inv (date : DateTime) (update : UpdatePhase) :
    (start date update).Inv profile where
  sorted := List.Pairwise.nil
  past := nofun
  phase := rfl

theorem zipWith_concat {α β γ : Type*} (f : α → β → γ) {right : List β} {item : α} (last : β) :
    ∀ {left more : List α}, left.drop right.length = item :: more →
      List.zipWith f left (right ++ [last]) = List.zipWith f left right ++ [f item last] := by
  induction right with
  | nil =>
      intro left more rest
      rw [List.length_nil, List.drop_zero] at rest
      subst rest
      simp
  | cons first right induction =>
      intro left more rest
      cases left with
      | nil => simp at rest
      | cons head tail =>
          rw [List.cons_append, List.zipWith_cons_cons, List.zipWith_cons_cons, List.cons_append,
            induction rest]

namespace Inv

theorem access (inv : call.Inv profile) (ongoing : ∀ result, call.phase ≠ .returned result) :
    (call.access profile).Inv profile := by
  have phase := inv.phase
  unfold ClockedCall.access
  cases current : call.phase with
  | waiting =>
      simp only [current] at phase
      cases call.update with
      | idle => exact ⟨inv.sorted, inv.past, by simp [phase, bytesAt]⟩
      | due | applied => exact inv
  | returned result => exact absurd current (ongoing result)
  | reading pending bytes =>
      simp only [current] at phase
      obtain ⟨length, rest, read⟩ := phase
      cases pending with
      | nil =>
          have complete : readOrder.length ≤ call.readAt.length := List.drop_eq_nil_iff.mp rest.symm
          exact ⟨inv.sorted, inv.past, Nat.le_antisymm length complete, by rw [read]; rfl⟩
      | cons reg pending =>
          have more : call.readAt.length < readOrder.length := by
            by_contra full
            rw [List.drop_eq_nil_iff.mpr (Nat.le_of_not_lt full)] at rest
            cases rest
          refine ⟨?_, ?_, ?_, ?_, ?_⟩
          · refine List.pairwise_append.mpr ⟨inv.sorted, List.pairwise_singleton _ _, ?_⟩
            intro earlier member now same
            rw [List.mem_singleton.mp same]
            exact inv.past earlier member
          · intro tick member
            rcases List.mem_append.mp member with earlier | now
            · exact inv.past tick earlier
            · exact Nat.le_of_eq (List.mem_singleton.mp now)
          · rw [List.length_append]
            exact more
          · rw [List.length_append, List.length_singleton, ← List.drop_drop, ← rest]
            rfl
          · rw [read]
            exact (zipWith_concat _ call.ticks rest.symm).symm

theorem next (inv : call.Inv profile) {event : RtcEvent} (enabled : call.Enabled event) :
    (call.next profile event).Inv profile := by
  cases event with
  | beginUpdate | endUpdate => exact ⟨inv.sorted, inv.past, inv.phase⟩
  | advance =>
      exact ⟨inv.sorted, fun tick member => Nat.le_succ_of_le (inv.past tick member), inv.phase⟩
  | access => exact inv.access enabled

end Inv

/-! ## The result -/

theorem dateAt_add (call : ClockedCall) (first more : Nat) :
    call.dateAt (first + more) = DateTime.nextSecond^[more] (call.dateAt first) := by
  rw [dateAt, dateAt, Nat.add_comm, Function.iterate_add_apply]

/-- The clock counts the seconds. -/
theorem secondsSince_dateAt (years : ∀ tick ≤ call.ticks, 1970 ≤ (call.dateAt tick).year) :
    ∀ tick ≤ call.ticks, (call.dateAt tick).secondsSince 1970 =
      call.begun.secondsSince 1970 + tick := by
  intro tick
  induction tick with
  | zero =>
      intro _
      rw [Nat.add_zero, dateAt, Function.iterate_zero_apply]
  | succ tick induction =>
      intro within
      rw [call.dateAt_add tick 1, Function.iterate_one,
        DateTime.secondsSince_nextSecond (years tick (by omega)), induction (by omega),
        Nat.add_assoc]

/-- The position at which a sorted list passes a bound. -/
theorem exists_cut (bound : Nat) {ticks : List Nat} (sorted : ticks.Pairwise (· ≤ ·)) :
    ∃ cut : Nat, ∀ index tick, ticks[index]? = some tick → (tick < bound ↔ index < cut) := by
  induction ticks with
  | nil => exact ⟨0, by simp⟩
  | cons first rest induction =>
      obtain ⟨least, sortedRest⟩ := List.pairwise_cons.mp sorted
      by_cases below : first < bound
      · obtain ⟨cut, passes⟩ := induction sortedRest
        refine ⟨cut + 1, fun index tick found => ?_⟩
        cases index with
        | zero =>
            obtain rfl : first = tick := by simpa using found
            simpa using below
        | succ index => simpa using passes index tick (by simpa using found)
      · refine ⟨0, fun index tick found => iff_of_false ?_ (Nat.not_lt_zero _)⟩
        rcases List.mem_cons.mp (List.mem_of_getElem? found) with rfl | member
        · exact below
        · have order := least tick member
          omega

theorem registers_setSecond (date : DateTime) (second : Nat) (valid : second < 60) {reg : BitVec 8}
    (other : reg ≠ regSec) : registers (date.setSecond second valid) reg = registers date reg := by
  rw [registers, registers, if_neg other, if_neg other]
  rfl

/-- Within 60 ticks of the read of the seconds, the other registers show the same minute or the
next one. -/
theorem bytesAt_eq_mixed {first : Nat} {rest : List Nat}
    (sorted : (first :: rest).Pairwise (· ≤ ·)) (length : rest.length = 6)
    (short : ∀ tick ∈ rest, tick < first + 60) :
    ∃ cut, call.bytesAt (first :: rest) =
        mixedBytes (call.dateAt first) (minuteAt (call.dateAt first) cut) ∧
      (cut < 6 → ∃ tick ∈ rest,
        (call.dateAt tick).year = (call.dateAt first).nextMinute.year) := by
  obtain ⟨least, sortedRest⟩ := List.pairwise_cons.mp sorted
  have valid := (call.dateAt first).secondValid
  obtain ⟨cut, passes⟩ := exists_cut (first + (60 - (call.dateAt first).second)) sortedRest
  have shows : ∀ index tick, rest[index]? = some tick → ∃ second valid, call.dateAt tick =
      (minuteAt (call.dateAt first) cut index).setSecond second valid := by
    intro index tick found
    have member := List.mem_of_getElem? found
    have order := least tick member
    have near := short tick member
    have split := passes index tick found
    have moved := call.dateAt_add first (tick - first)
    have same : (if (call.dateAt first).second + (tick - first) < 60 then call.dateAt first
        else (call.dateAt first).nextMinute) = minuteAt (call.dateAt first) cut index :=
      if_congr (by omega) rfl rfl
    rw [Nat.add_sub_cancel' order, DateTime.iterate_nextSecond (by omega), same] at moved
    exact ⟨_, _, moved⟩
  have reads : ∀ index tick reg, rest[index]? = some tick → reg ≠ regSec →
      registers (call.dateAt tick) reg =
        registers (minuteAt (call.dateAt first) cut index) reg := by
    intro index tick reg found other
    obtain ⟨second, valid, same⟩ := shows index tick found
    rw [same, registers_setSecond _ _ _ other]
  rcases rest with _ | ⟨min, _ | ⟨day, _ | ⟨month, _ | ⟨hour, _ | ⟨century, _ | ⟨year, _ | _⟩⟩⟩⟩⟩⟩
  all_goals try simp at length
  refine ⟨cut, ?_, fun late => ⟨year, by simp, ?_⟩⟩
  · have bytes : call.bytesAt [first, min, day, month, hour, century, year] =
        [registers (call.dateAt first) regSec, registers (call.dateAt min) regMin,
          registers (call.dateAt day) regDay, registers (call.dateAt month) regMonth,
          registers (call.dateAt hour) regHour, registers (call.dateAt century) regCentury,
          registers (call.dateAt year) regYear] := rfl
    rw [bytes, reads 0 min regMin rfl (by decide), reads 1 day regDay rfl (by decide),
      reads 2 month regMonth rfl (by decide), reads 3 hour regHour rfl (by decide),
      reads 4 century regCentury rfl (by decide), reads 5 year regYear rfl (by decide)]
    rfl
  · obtain ⟨second, valid, same⟩ := shows 5 year rfl
    rw [same, minuteAt_late (by omega)]
    rfl

theorem current_of_untorn (inv : call.Inv profile) (returned : call.phase = .returned result)
    (years : ∀ tick ≤ call.ticks, 1970 ≤ (call.dateAt tick).year ∧ (call.dateAt tick).year ≤ 9999)
    (untorn : call.Untorn) : call.Current result := by
  have phase := inv.phase
  simp only [returned] at phase
  obtain ⟨length, rfl⟩ := phase
  cases readAt : call.readAt with
  | nil => simp [readAt, readOrder] at length
  | cons first rest =>
      have within : first ≤ call.ticks := inv.past first (by simp [readAt])
      refine ⟨first, within, ?_⟩
      rw [← readAt, untorn first (by simp [readAt]),
        decodeTime_registers profile (years first within).1 (years first within).2]

/-- Fewer than 60 ticks: the seconds of the result are those that were read, so the result can only
be the time at which they were read. -/
theorem untorn_of_current (inv : call.Inv profile) (returned : call.phase = .returned result)
    (years : ∀ tick ≤ call.ticks, 1970 ≤ (call.dateAt tick).year ∧ (call.dateAt tick).year ≤ 9999)
    (short : call.ticks < 60) (current : call.Current result) : call.Untorn := by
  have phase := inv.phase
  simp only [returned] at phase
  obtain ⟨length, decoded⟩ := phase
  intro first head
  obtain ⟨rest, readAt⟩ : ∃ rest, call.readAt = first :: rest := List.head?_eq_some_iff.mp head
  have sorted := inv.sorted
  have past := inv.past
  rw [readAt] at length decoded sorted past ⊢
  have within := past first List.mem_cons_self
  obtain ⟨cut, bytes, late⟩ := call.bytesAt_eq_mixed sorted (Nat.succ.inj length) fun tick member =>
    Nat.lt_of_le_of_lt (past tick (List.mem_cons_of_mem _ member)) (by omega)
  obtain ⟨epoch, last⟩ := years first within
  have later : cut < 6 → (call.dateAt first).nextMinute.year ≤ 9999 := by
    intro read
    obtain ⟨tick, member, same⟩ := late read
    rw [← same]
    exact (years tick (past tick (List.mem_cons_of_mem _ member))).2
  obtain ⟨tick, shown, value⟩ := current
  have counts := secondsSince_dateAt fun tick bound => (years tick bound).1
  have here := counts first within
  have there := counts tick shown
  rw [bytes] at decoded ⊢
  by_cases since : 1970 ≤ mixedYear (call.dateAt first) cut
  · rw [decodeTime_mixed profile epoch last later since, value] at decoded
    have same := Option.some.inj decoded
    have together : tick = first := by
      rw [secondsSince_eq] at here
      omega
    rw [together] at same
    rcases Nat.lt_or_ge 3 cut with early | hourLate
    · exact mixedBytes_of_value_year epoch early since same.symm
    · exact mixedBytes_of_value_hour epoch hourLate same.symm
  · rw [value] at decoded
    have huge := decodeTime_before_epoch epoch (Nat.lt_of_not_le since) decoded.symm
    have bounded := (countDays_eq profile (years tick shown).1 (years tick shown).2).2
    have midnight := (call.dateAt tick).secondOfDay_lt
    rw [DateTime.secondsSince] at huge
    omega

/-- For every interleaving of ticks with the accesses of a call, the result is the time shown at an
instant of the call if the registers read after the seconds still show what they showed then.  The
converse holds for a call with fewer than 60 ticks; a longer one can mix registers of two minutes
into a time that it shows by chance. -/
theorem returned_current (profile : Profile) (date : DateTime) (update : UpdatePhase)
    (events : List RtcEvent) (call : ClockedCall)
    (run : events.foldl (next profile) (start date update) = call)
    (enabled : Along (next profile) Enabled (start date update) events) (result : Option Nat)
    (returned : call.phase = .returned result)
    (years : ∀ tick ≤ call.ticks,
      1970 ≤ (call.dateAt tick).year ∧ (call.dateAt tick).year ≤ 9999) :
    (call.Untorn → call.Current result) ∧
      (call.ticks < 60 → call.Current result → call.Untorn) := by
  have inv : call.Inv profile := by
    rw [← run]
    exact enabled.invariant (fun _ _ inv allowed => inv.next allowed) (start_inv date update)
  exact ⟨current_of_untorn inv returned years, untorn_of_current inv returned years⟩

/-- The last second of a year. -/
def newYearsEve : DateTime :=
  { leapDayEnd with
    year := 2023
    month := 12
    day := 31
    monthValid := by decide
    dayValid := by decide }

/-- A tick between the reads of the seconds and of the minutes. -/
def earlyTick : List RtcEvent :=
  [.access, .access, .beginUpdate, .advance, .endUpdate, .access, .access, .access, .access,
    .access, .access, .access]

/-- A second before the end of the year no other register changes. -/
theorem returned_current_earlyTick :
    (earlyTick.foldl (next .dev) (start (newYearsEve.setSecond 58 (by decide)) .idle)).Current
      (some 1704067198) := by
  have years : ∀ tick ≤ 1,
      1970 ≤ (DateTime.nextSecond^[tick] (newYearsEve.setSecond 58 (by decide))).year ∧
        (DateTime.nextSecond^[tick] (newYearsEve.setSecond 58 (by decide))).year ≤ 9999 := by
    decide
  have enabled : Along (next .dev) Enabled (start (newYearsEve.setSecond 58 (by decide)) .idle)
      earlyTick := by
    simp [earlyTick, Along, Enabled, next, start, access, readOrder]
  have value : decodeTime .dev (readOrder.map (registers (newYearsEve.setSecond 58 (by decide)))) =
      some 1704067198 := by decide
  have returned : (earlyTick.foldl (next .dev)
      (start (newYearsEve.setSecond 58 (by decide)) .idle)).phase = .returned (some 1704067198) :=
    congrArg CallPhase.returned value
  refine (returned_current .dev _ _ earlyTick _ rfl enabled _ returned years).1 ?_
  rintro first ⟨⟩
  rfl

/-- A tick between the reads of the hour and of the century. -/
def lateTick : List RtcEvent :=
  [.access, .access, .access, .access, .access, .access, .beginUpdate, .advance, .endUpdate,
    .access, .access, .access]

/-- The call at the end of 2023 returns the end of 2024. -/
theorem returned_not_current :
    Along (next .dev) Enabled (start newYearsEve .idle) lateTick ∧
      (lateTick.foldl (next .dev) (start newYearsEve .idle)).phase =
        .returned (some 1735689599) ∧
      ¬ (lateTick.foldl (next .dev) (start newYearsEve .idle)).Current (some 1735689599) := by
  have enabled : Along (next .dev) Enabled (start newYearsEve .idle) lateTick := by
    simp [lateTick, Along, Enabled, next, start, access, readOrder]
  have years : ∀ tick ≤ 1, 1970 ≤ (DateTime.nextSecond^[tick] newYearsEve).year ∧
      (DateTime.nextSecond^[tick] newYearsEve).year ≤ 9999 := by decide
  have value : decodeTime .dev [0x59#8, 0x59#8, 0x31#8, 0x12#8, 0x23#8, 0x20#8, 0x24#8] =
      some 1735689599 := by decide
  have returned : (lateTick.foldl (next .dev) (start newYearsEve .idle)).phase =
      .returned (some 1735689599) := congrArg CallPhase.returned value
  refine ⟨enabled, returned, fun current => ?_⟩
  have inv : (lateTick.foldl (next .dev) (start newYearsEve .idle)).Inv .dev :=
    enabled.invariant (fun _ _ inv allowed => inv.next allowed) (start_inv newYearsEve .idle)
  have untorn := untorn_of_current inv returned years (show 1 < 60 by decide) current 0 rfl
  exact absurd untorn (by decide)

end ClockedCall
end Okots.Rtc
