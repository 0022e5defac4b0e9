import Okots.Library.Reachable
import Okots.Library.Tally

/-!
# The start of the application processors

`Main::init_ap` and the processors in `Main::ap_init` synchronise through one counter, which every
processor increments three times: when it arrives, when it has calibrated its time stamp counter and
when it has stored its offset.  `init_ap` waits for the first increments, at most one second, then
resets the counter and waits for `len` and for `2 * len` further increments.

The counter does not tell one increment from another.  A processor that arrives after `init_ap` has
fixed `len` is counted for an increment that no processor has made yet.  There are fewer processors
than a `usize` can count.
-/

namespace Okots

open TransitionSystem Tally

/-- The next access of `init_ap`, after it has sent the start-up interrupts. -/
inductive InitApPc where
  /-- Compare the counter with `len`. -/
  | testStart
  /-- Compare the time with the deadline. -/
  | testTimeout
  /-- Take the counter as `len`. -/
  | loadLen
  | resetCounter
  | clearValue
  | setTimer
  | clearTimer
  /-- Compare the counter with `len`. -/
  | awaitSecond
  /-- Store the reference time stamp. -/
  | storeValue
  /-- Compare the counter with `len * 2`. -/
  | awaitThird
  | resetAgain
  | returned
  deriving DecidableEq

namespace InitApPc

/-- `len` is not fixed yet. -/
@[simp] def isGathering : InitApPc → Bool
  | .testStart | .testTimeout | .loadLen => true
  | .resetCounter | .clearValue | .setTimer | .clearTimer | .awaitSecond | .storeValue
  | .awaitThird | .resetAgain | .returned => false

/-- `len` is fixed, and not all increments have been waited for. -/
@[simp] def isCounting : InitApPc → Bool
  | .resetCounter | .clearValue | .setTimer | .clearTimer | .awaitSecond | .storeValue
  | .awaitThird => true
  | .testStart | .testTimeout | .loadLen | .resetAgain | .returned => false

/-- The timer has not been started. -/
@[simp] def isBeforeTimer : InitApPc → Bool
  | .testStart | .testTimeout | .loadLen | .resetCounter | .clearValue | .setTimer => true
  | .clearTimer | .awaitSecond | .storeValue | .awaitThird | .resetAgain | .returned => false

/-- The reference time stamp has not been stored. -/
@[simp] def isBeforeValue : InitApPc → Bool
  | .testStart | .testTimeout | .loadLen | .resetCounter | .clearValue | .setTimer | .clearTimer
  | .awaitSecond | .storeValue => true
  | .awaitThird | .resetAgain | .returned => false

theorem isBeforeTimer_of_isGathering {pc : InitApPc} (early : pc.isGathering = true) :
    pc.isBeforeTimer = true := by
  cases pc <;> first | rfl | cases early

end InitApPc

/-- The next access of a processor in `ap_init`, with what it has measured so far. -/
inductive ApInitPc where
  /-- The first increment. -/
  | starting
  | awaitTimer
  | awaitTimerEnd (startTsc : Nat)
  /-- The second increment. -/
  | calibrated (par100ns : Nat)
  | awaitValue (par100ns : Nat)
  | storeAdjust (par100ns value : Nat)
  /-- The third increment. -/
  | adjusted (par100ns : Nat) (adjust : Int)
  | running (par100ns : Nat) (adjust : Int)
  deriving DecidableEq

namespace ApInitPc

/-- The first increment has been made. -/
@[simp] def hasArrived : ApInitPc → Bool
  | .starting => false
  | .awaitTimer | .awaitTimerEnd _ | .calibrated _ | .awaitValue _ | .storeAdjust _ _
  | .adjusted _ _ | .running _ _ => true

/-- The timer has been seen running. -/
@[simp] def hasSeenTimer : ApInitPc → Bool
  | .starting | .awaitTimer => false
  | .awaitTimerEnd _ | .calibrated _ | .awaitValue _ | .storeAdjust _ _ | .adjusted _ _
  | .running _ _ => true

/-- The time stamp counter is calibrated and the second increment has been made. -/
@[simp] def hasCalibrated : ApInitPc → Bool
  | .starting | .awaitTimer | .awaitTimerEnd _ | .calibrated _ => false
  | .awaitValue _ | .storeAdjust _ _ | .adjusted _ _ | .running _ _ => true

/-- The reference time stamp has been loaded. -/
@[simp] def hasSeenValue : ApInitPc → Bool
  | .starting | .awaitTimer | .awaitTimerEnd _ | .calibrated _ | .awaitValue _ => false
  | .storeAdjust _ _ | .adjusted _ _ | .running _ _ => true

/-- `tsc_data.adjust` has been stored. -/
@[simp] def hasAdjusted : ApInitPc → Bool
  | .starting | .awaitTimer | .awaitTimerEnd _ | .calibrated _ | .awaitValue _
  | .storeAdjust _ _ => false
  | .adjusted _ _ | .running _ _ => true

/-- The third increment has been made. -/
@[simp] def isRunning : ApInitPc → Bool
  | .starting | .awaitTimer | .awaitTimerEnd _ | .calibrated _ | .awaitValue _ | .storeAdjust _ _
  | .adjusted _ _ => false
  | .running _ _ => true

/-- A move to `place` that makes `counted` increments takes back nothing, and no processor that has
not seen the timer makes its second or third increment. -/
structure Advance (pc place : ApInitPc) (counted : Nat) : Prop where
  increments : counted + pc.hasArrived.toNat + pc.hasCalibrated.toNat + pc.isRunning.toNat =
    place.hasArrived.toNat + place.hasCalibrated.toNat + place.isRunning.toNat
  calibrated : pc.hasCalibrated.toNat ≤ place.hasCalibrated.toNat
  adjusted : pc.hasAdjusted.toNat ≤ place.hasAdjusted.toNat
  unseen : pc.hasSeenTimer = false →
    place.hasCalibrated = pc.hasCalibrated ∧ place.isRunning = pc.isRunning

end ApInitPc

/-- `initialized_core_count`, `global_data`, the local variable `len` and the processors. -/
structure ApStartup (ι : Type*) where
  initializedCoreCount : Nat
  timer : Bool
  value : Nat
  len : Nat
  boot : InitApPc
  processors : ι → ApInitPc

/-- A step of one processor, which may read its time stamp counter. -/
inductive ApStartupEvent (ι : Type*) where
  /-- A step of `init_ap`; `expired` says whether the deadline has passed. -/
  | boot (expired : Bool) (tsc : Nat)
  /-- A step of `ap_init`. -/
  | processor (name : ι) (tsc : Nat)

namespace ApStartup

variable {ι : Type*}

/-- The default values of `Main`; `core_info` has `len` entries. -/
def start (len : Nat) : ApStartup ι := ⟨0, false, 0, len, .testStart, fun _ => .starting⟩

/-- A step of `init_ap`. -/
def bootStep (system : ApStartup ι) (expired : Bool) (tsc : Nat) : ApStartup ι :=
  match system.boot with
  | .testStart =>
      { system with
        boot :=
          if system.initializedCoreCount ≠ system.len then .testTimeout else .resetCounter }
  | .testTimeout => { system with boot := if expired then .loadLen else .testStart }
  | .loadLen => { system with len := system.initializedCoreCount, boot := .resetCounter }
  | .resetCounter => { system with initializedCoreCount := 0, boot := .clearValue }
  | .clearValue => { system with value := 0, boot := .setTimer }
  | .setTimer => { system with timer := true, boot := .clearTimer }
  | .clearTimer => { system with timer := false, boot := .awaitSecond }
  | .awaitSecond =>
      { system with
        boot := if system.initializedCoreCount < system.len then .awaitSecond else .storeValue }
  | .storeValue => { system with value := tsc, boot := .awaitThird }
  | .awaitThird =>
      { system with
        boot :=
          if system.initializedCoreCount < system.len * 2 then .awaitThird else .resetAgain }
  | .resetAgain => { system with initializedCoreCount := 0, boot := .returned }
  | .returned => system

/-- A processor goes on to `pc`. -/
def move [DecidableEq ι] (system : ApStartup ι) (name : ι) (pc : ApInitPc) : ApStartup ι :=
  { system with processors := Function.update system.processors name pc }

/-- A processor increments the counter and goes on to `pc`. -/
def increment [DecidableEq ι] (system : ApStartup ι) (name : ι) (pc : ApInitPc) : ApStartup ι :=
  { system.move name pc with initializedCoreCount := system.initializedCoreCount + 1 }

/-- A step of `ap_init`. -/
def processorStep [DecidableEq ι] (system : ApStartup ι) (name : ι) (tsc : Nat) : ApStartup ι :=
  match system.processors name with
  | .starting => system.increment name .awaitTimer
  | .awaitTimer => if system.timer then system.move name (.awaitTimerEnd tsc) else system
  | .awaitTimerEnd startTsc =>
      if system.timer then system
      else system.move name (.calibrated ((tsc - startTsc) / 1000000))
  | .calibrated par100ns => system.increment name (.awaitValue par100ns)
  | .awaitValue par100ns =>
      if system.value ≠ 0 then system.move name (.storeAdjust par100ns system.value) else system
  | .storeAdjust par100ns value => system.move name (.adjusted par100ns ((value : Int) - tsc))
  | .adjusted par100ns adjust => system.increment name (.running par100ns adjust)
  | .running _ _ => system

/-- The system after a step. -/
def next [DecidableEq ι] (system : ApStartup ι) : ApStartupEvent ι → ApStartup ι
  | .boot expired tsc => system.bootStep expired tsc
  | .processor name tsc => system.processorStep name tsc

variable [Fintype ι]

/-- No processor arrives between the moment `len` is fixed and the end of the last barrier, unless
`len` processors have stored their offset already. -/
def Prompt (system : ApStartup ι) : ApStartupEvent ι → Prop
  | .boot _ _ => True
  | .processor name _ =>
      system.processors name = .starting → system.boot.isCounting = true →
        system.len ≤ tally ApInitPc.hasAdjusted system.processors

/-- When `init_ap` stores the reference time stamp, `len` processors are calibrated; when it
returns, `len` processors have stored their offset. -/
structure Synchronised (system : ApStartup ι) : Prop where
  calibrated : system.boot = .storeValue →
    system.len ≤ tally ApInitPc.hasCalibrated system.processors
  adjusted : system.boot = .returned → system.len ≤ tally ApInitPc.hasAdjusted system.processors

/-- Where the processors can be at each stage of `init_ap`, and what the counter counts. -/
structure Phased (system : ApStartup ι) : Prop where
  untimed : system.boot.isBeforeTimer = true →
    system.timer = false ∧ tally ApInitPc.hasSeenTimer system.processors = 0
  unvalued : system.boot.isBeforeValue = true →
    system.value = 0 ∧ tally ApInitPc.hasSeenValue system.processors = 0
  gathering : system.boot.isGathering = true →
    system.initializedCoreCount = tally ApInitPc.hasArrived system.processors
  counting : system.boot.isCounting = true →
    system.len ≤ tally ApInitPc.hasAdjusted system.processors ∨
      (tally ApInitPc.hasArrived system.processors = system.len ∧
        (system.boot = .resetCounter ∨ system.initializedCoreCount =
          tally ApInitPc.hasCalibrated system.processors +
            tally ApInitPc.isRunning system.processors))
  calibrated : system.boot = .storeValue →
    system.len ≤ tally ApInitPc.hasCalibrated system.processors
  adjusted : system.boot = .resetAgain ∨ system.boot = .returned →
    system.len ≤ tally ApInitPc.hasAdjusted system.processors

theorem start_phased (len : Nat) : (start len : ApStartup ι).Phased where
  untimed _ := ⟨rfl, tally_eq_zero_iff.mpr fun _ => rfl⟩
  unvalued _ := ⟨rfl, tally_eq_zero_iff.mpr fun _ => rfl⟩
  gathering _ := (tally_eq_zero_iff.mpr fun _ => rfl).symm
  counting := nofun
  calibrated := nofun
  adjusted := by rintro (late | late) <;> cases late

section Counts

variable (places : ι → ApInitPc)

theorem tally_hasCalibrated_le_hasArrived :
    tally ApInitPc.hasCalibrated places ≤ tally ApInitPc.hasArrived places :=
  tally_mono fun name => by cases places name <;> simp

theorem tally_hasCalibrated_le_hasSeenTimer :
    tally ApInitPc.hasCalibrated places ≤ tally ApInitPc.hasSeenTimer places :=
  tally_mono fun name => by cases places name <;> simp

theorem tally_hasAdjusted_le_hasSeenValue :
    tally ApInitPc.hasAdjusted places ≤ tally ApInitPc.hasSeenValue places :=
  tally_mono fun name => by cases places name <;> simp

theorem tally_isRunning_le_hasAdjusted :
    tally ApInitPc.isRunning places ≤ tally ApInitPc.hasAdjusted places :=
  tally_mono fun name => by cases places name <;> simp

theorem tally_hasAdjusted_le_hasCalibrated :
    tally ApInitPc.hasAdjusted places ≤ tally ApInitPc.hasCalibrated places :=
  tally_mono fun name => by cases places name <;> simp

end Counts

variable {system : ApStartup ι}

namespace Phased

/-- Every step of `init_ap` keeps the stages. -/
theorem bootStep (phased : system.Phased) (expired : Bool) (tsc : Nat) :
    (system.bootStep expired tsc).Phased := by
  have calibratedArrived := tally_hasCalibrated_le_hasArrived system.processors
  have calibratedTimer := tally_hasCalibrated_le_hasSeenTimer system.processors
  have adjustedValue := tally_hasAdjusted_le_hasSeenValue system.processors
  have runningAdjusted := tally_isRunning_le_hasAdjusted system.processors
  have adjustedCalibrated := tally_hasAdjusted_le_hasCalibrated system.processors
  obtain ⟨untimed, unvalued, gathering, counting, calibrated, adjusted⟩ := phased
  cases boot : system.boot <;>
    simp only [boot, InitApPc.isBeforeTimer, InitApPc.isBeforeValue, InitApPc.isGathering,
      InitApPc.isCounting, reduceCtorEq, forall_const, false_implies, or_false, false_or,
      Bool.false_eq_true] at untimed unvalued gathering counting calibrated adjusted <;>
    simp only [ApStartup.bootStep, boot]
  case testStart =>
    split
    · constructor <;> simp [untimed, unvalued, gathering]
    · constructor <;> simp [untimed, unvalued]
      omega
  case testTimeout => cases expired <;> constructor <;> simp [untimed, unvalued, gathering]
  case loadLen => constructor <;> simp [untimed, unvalued, gathering]
  case resetCounter =>
    -- No processor has seen the timer, so none has made a second or third increment.
    constructor <;> simp [untimed, unvalued]
    omega
  case clearValue => constructor <;> simp [untimed, unvalued, counting]
  case setTimer => constructor <;> simp [unvalued, counting]
  case clearTimer => constructor <;> simp [unvalued, counting]
  case awaitSecond =>
    -- No processor has seen the reference, so the counter counts second increments only.
    split <;> constructor <;> simp [unvalued, counting]
    omega
  case storeValue => constructor <;> simp [counting]
  case awaitThird =>
    -- At most `len` second increments were made, so `len` third ones were.
    split <;> constructor <;> simp [counting]
    omega
  case resetAgain => constructor <;> simp [adjusted]
  case returned => constructor <;> simp [boot, adjusted]

/-- The stages give the synchronisation. -/
theorem synchronised (phased : system.Phased) : system.Synchronised :=
  ⟨phased.calibrated, fun late => phased.adjusted (.inr late)⟩

variable [DecidableEq ι] {name : ι} {pc place : ApInitPc} {counted : Nat}

/-- A processor that goes on by the rules, and does not arrive late, keeps the stages. -/
theorem advance (phased : system.Phased) (here : system.processors name = pc)
    (go : pc.Advance place counted)
    (timer : place.hasSeenTimer = pc.hasSeenTimer ∨ system.timer = true)
    (value : place.hasSeenValue = pc.hasSeenValue ∨ system.value ≠ 0)
    (prompt : place.hasArrived = pc.hasArrived ∨
      (system.boot.isCounting = true → system.len ≤ tally ApInitPc.hasAdjusted system.processors)) :
    { system.move name place with
      initializedCoreCount := system.initializedCoreCount + counted }.Phased := by
  subst here
  have count (test : ApInitPc → Bool) := tally_update test system.processors name place
  have seenTimer := count ApInitPc.hasSeenTimer
  have seenValue := count ApInitPc.hasSeenValue
  have arrived := count ApInitPc.hasArrived
  have calibrated := count ApInitPc.hasCalibrated
  have adjusted := count ApInitPc.hasAdjusted
  have running := count ApInitPc.isRunning
  have increments := go.increments
  have keepsCalibrated := go.calibrated
  have keepsAdjusted := go.adjusted
  constructor <;> dsimp only [ApStartup.move]
  case untimed =>
    intro before
    obtain ⟨off, zero⟩ := phased.untimed before
    rw [off] at timer
    rw [timer.resolve_right Bool.false_ne_true] at seenTimer
    exact ⟨off, by omega⟩
  case unvalued =>
    intro before
    obtain ⟨unset, zero⟩ := phased.unvalued before
    rw [value.resolve_right (not_not.mpr unset)] at seenValue
    exact ⟨unset, by omega⟩
  case gathering =>
    intro early
    obtain ⟨-, zero⟩ := phased.untimed (InitApPc.isBeforeTimer_of_isGathering early)
    obtain ⟨sameCalibrated, sameRunning⟩ := go.unseen (not_test_of_tally_eq_zero zero name)
    rw [phased.gathering early]
    rw [sameCalibrated, sameRunning] at increments
    omega
  case counting =>
    intro window
    rcases prompt with same | done
    · rw [same] at arrived increments
      rcases phased.counting window with done | ⟨all, reset | counts⟩
      · exact Or.inl (by omega)
      · exact Or.inr ⟨by omega, Or.inl reset⟩
      · exact Or.inr ⟨by omega, Or.inr (by omega)⟩
    · have enough := done window
      exact Or.inl (by omega)
  case calibrated =>
    intro store
    have enough := phased.calibrated store
    omega
  case adjusted =>
    intro late
    have enough := phased.adjusted late
    omega

theorem move (phased : system.Phased) (here : system.processors name = pc) (go : pc.Advance place 0)
    (timer : place.hasSeenTimer = pc.hasSeenTimer ∨ system.timer = true)
    (value : place.hasSeenValue = pc.hasSeenValue ∨ system.value ≠ 0)
    (arrived : place.hasArrived = pc.hasArrived) : (system.move name place).Phased :=
  phased.advance here go timer value (.inl arrived)

/-- Every step of `ap_init` keeps the stages, if the processor does not arrive late. -/
theorem processorStep (phased : system.Phased) {tsc : Nat}
    (prompt : system.Prompt (.processor name tsc)) : (system.processorStep name tsc).Phased := by
  cases here : system.processors name with
  | starting =>
      simp only [ApStartup.processorStep, here]
      exact phased.advance here ⟨rfl, le_rfl, le_rfl, fun _ => ⟨rfl, rfl⟩⟩ (.inl rfl) (.inl rfl)
        (.inr (prompt here))
  | awaitTimer =>
      simp only [ApStartup.processorStep, here]
      split
      · rename_i on
        exact phased.move here ⟨rfl, le_rfl, le_rfl, fun _ => ⟨rfl, rfl⟩⟩ (.inr on) (.inl rfl) rfl
      · exact phased
  | awaitTimerEnd startTsc =>
      simp only [ApStartup.processorStep, here]
      split
      · exact phased
      · exact phased.move here ⟨rfl, le_rfl, le_rfl, nofun⟩ (.inl rfl) (.inl rfl) rfl
  | calibrated par100ns =>
      simp only [ApStartup.processorStep, here]
      exact phased.advance here ⟨rfl, Nat.zero_le _, le_rfl, nofun⟩ (.inl rfl) (.inl rfl) (.inl rfl)
  | awaitValue par100ns =>
      simp only [ApStartup.processorStep, here]
      split
      · rename_i set
        exact phased.move here ⟨rfl, le_rfl, le_rfl, nofun⟩ (.inl rfl) (.inr set) rfl
      · exact phased
  | storeAdjust par100ns value =>
      simp only [ApStartup.processorStep, here]
      exact phased.move here ⟨rfl, le_rfl, Nat.zero_le _, nofun⟩ (.inl rfl) (.inl rfl) rfl
  | adjusted par100ns adjust =>
      simp only [ApStartup.processorStep, here]
      exact phased.advance here ⟨rfl, le_rfl, le_rfl, nofun⟩ (.inl rfl) (.inl rfl) (.inl rfl)
  | running par100ns adjust =>
      simp only [ApStartup.processorStep, here]
      exact phased

theorem next (phased : system.Phased) {event : ApStartupEvent ι} (prompt : system.Prompt event) :
    (system.next event).Phased := by
  cases event with
  | boot expired tsc => exact phased.bootStep expired tsc
  | processor name tsc => exact phased.processorStep prompt

end Phased

variable [DecidableEq ι]

instance : DecidablePred (Prompt system)
  | .boot _ _ => .isTrue trivial
  | .processor _ _ => inferInstanceAs (Decidable (_ → _ → _))

/-- Any number of processors, in any interleaving with `init_ap`: if no processor arrives late, the
barriers hold. -/
theorem foldl_synchronised {len : Nat} {events : List (ApStartupEvent ι)}
    (prompt : Along next Prompt (start len) events) :
    (events.foldl next (start len)).Synchronised :=
  (prompt.invariant (fun _ _ phased allowed => phased.next allowed) (start_phased len)).synchronised

/-- Both of two processors arrive in time. -/
def promptRun : List (ApStartupEvent (Fin 2)) :=
  [.processor 0 0, .processor 1 0, .boot false 0, .boot false 0, .boot false 0, .boot false 0,
    .processor 0 7, .processor 1 8, .boot false 0, .processor 0 5000007, .processor 0 0,
    .processor 1 3000008, .processor 1 0, .boot false 0, .boot false 90, .processor 0 91,
    .processor 0 95, .processor 0 0, .processor 1 92, .processor 1 98, .processor 1 0,
    .boot false 0, .boot false 0]

theorem foldl_synchronised_promptRun :
    (promptRun.foldl next (start 2)).boot = .returned ∧
      (promptRun.foldl next (start 2)).Synchronised :=
  ⟨rfl, foldl_synchronised (by decide)⟩

/-- `init_ap` gives up waiting for processor 1, which then arrives after the counter was reset. -/
def lateRun : List (ApStartupEvent (Fin 2)) :=
  [.processor 0 0, .boot false 0, .boot true 0, .boot false 0, .boot false 0, .boot false 0,
    .processor 1 0, .boot false 0, .processor 0 7, .boot false 0, .boot false 0]

/-- `init_ap` stores the reference, processor 0 makes its second increment, `init_ap` returns. -/
def lateReturn : List (ApStartupEvent (Fin 2)) :=
  lateRun ++ [.boot false 90, .processor 0 5000007, .processor 0 0, .boot false 0, .boot false 0]

/-- The late arrival ends the first barrier before processor 0 has calibrated its counter, and the
second increment of processor 0 ends the last one before it has stored its offset. -/
theorem foldl_not_synchronised :
    ((lateRun.foldl next (start 2)).boot = .storeValue ∧ (lateRun.foldl next (start 2)).len = 1 ∧
        tally ApInitPc.hasCalibrated (lateRun.foldl next (start 2)).processors = 0) ∧
      (lateReturn.foldl next (start 2)).boot = .returned ∧
        (lateReturn.foldl next (start 2)).len = 1 ∧
        tally ApInitPc.hasAdjusted (lateReturn.foldl next (start 2)).processors = 0 := by
  decide

end ApStartup
end Okots
