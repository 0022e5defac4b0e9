import Okots.Logger

/-!
# Changes of the log capacity

`LOG_CAPACITY` may be stored to at any time, and `add_log` evicts a record only when the length of
the buffer equals the capacity it loads.  A store below the length therefore switches the eviction
off: the buffer grows with every record that follows.
-/

namespace Okots

open TransitionSystem

variable {ρ : Type*}

/-- A store to `LOG_CAPACITY` or a call of `add_log`. -/
inductive CapacityEvent (ρ : Type*) where
  | store (capacity : Nat)
  | addLog (record : ρ)

/-- The log with what its bounds refer to. -/
structure LogGauge (ρ : Type*) where
  journal : Journal ρ
  /-- The largest capacity in force so far. -/
  largest : Nat
  /-- The length of the buffer when the capacity was stored. -/
  lengthAtStore : Nat

namespace LogGauge

/-- An empty buffer with `LOG_HEAD_ID = 0`. -/
def start (capacity : Nat) : LogGauge ρ := ⟨.start capacity, capacity, 0⟩

/-- The initial value of `LOG_CAPACITY`. -/
def initialCapacity : Nat := 5000

def step (gauge : LogGauge ρ) : CapacityEvent ρ → LogGauge ρ
  | .store capacity =>
      { journal := { gauge.journal with capacity }
        largest := max gauge.largest capacity
        lengthAtStore := gauge.journal.buf.length }
  | .addLog record => { gauge with journal := gauge.journal.add record }

/-- The buffer is not longer than the largest capacity so far, it has not grown beyond a capacity
since that was stored, and the head counts the records that have left the buffer. -/
structure Bounded (gauge : LogGauge ρ) : Prop where
  largest : gauge.journal.buf.length ≤ gauge.largest
  since : gauge.journal.capacity ≠ 0 →
    gauge.journal.buf.length ≤ max gauge.journal.capacity gauge.lengthAtStore
  counted : gauge.journal.headId + gauge.journal.buf.length = gauge.journal.accepted.length

/-- An accepted record finds a buffer that is not longer than the capacity, and the head does not
wrap around. -/
def Fitting (gauge : LogGauge ρ) : CapacityEvent ρ → Prop
  | .store _ => True
  | .addLog _ => gauge.journal.toLogRing.Accepts →
      gauge.journal.buf.length ≤ gauge.journal.capacity ∧
        (gauge.journal.toLogRing.Evicts → gauge.journal.headId + 1 < usizeCount)

/-- A buffer that is longer than the capacity has not changed since that was stored. -/
structure Inv (gauge : LogGauge ρ) : Prop extends gauge.Bounded where
  capacity : gauge.journal.capacity ≤ gauge.largest
  settled : gauge.journal.capacity ≠ 0 → gauge.journal.capacity < gauge.journal.buf.length →
    gauge.journal.buf.length = gauge.lengthAtStore

variable {gauge : LogGauge ρ}

theorem start_inv (capacity : Nat) : (start capacity : LogGauge ρ).Inv where
  largest := Nat.zero_le _
  since _ := Nat.zero_le _
  counted := rfl
  capacity := Nat.le_refl _
  settled _ longer := absurd longer (Nat.not_lt_zero _)

namespace Inv

theorem store (inv : gauge.Inv) (capacity : Nat) : (gauge.step (.store capacity)).Inv where
  largest := Nat.le_trans inv.largest (Nat.le_max_left _ _)
  since _ := Nat.le_max_right _ _
  counted := inv.counted
  capacity := Nat.le_max_right _ _
  settled _ _ := rfl

/-- A full buffer keeps its length and the head moves on. -/
theorem evict (inv : gauge.Inv) (evicts : gauge.journal.toLogRing.Evicts) (record : ρ)
    (noWrap : gauge.journal.headId + 1 < usizeCount) :
    (gauge.step (.addLog record)).Inv := by
  have full : gauge.journal.buf.length = gauge.journal.capacity := evicts.2
  have positive : 0 < gauge.journal.buf.length := full ▸ Nat.pos_of_ne_zero evicts.1
  have counted := inv.counted
  have length : (gauge.journal.buf.tail ++ [record]).length = gauge.journal.capacity := by
    rw [List.length_append, List.length_tail, List.length_singleton]
    omega
  rw [step, Journal.add_of_evicts evicts]
  refine ⟨⟨?_, fun _ => ?_, ?_⟩, inv.capacity, fun _ longer => ?_⟩
  · rw [length]
    exact inv.capacity
  · rw [length]
    exact Nat.le_max_left _ _
  · simp only [length, Nat.mod_eq_of_lt noWrap, List.length_append, List.length_singleton]
    omega
  · exact absurd length (Nat.ne_of_gt longer)

/-- A buffer below the capacity grows by one record. -/
theorem grow (inv : gauge.Inv) (opened : gauge.journal.capacity ≠ 0)
    (room : gauge.journal.buf.length < gauge.journal.capacity) (record : ρ) :
    (gauge.step (.addLog record)).Inv := by
  have counted := inv.counted
  have capacity := inv.capacity
  have length : (gauge.journal.buf ++ [record]).length = gauge.journal.buf.length + 1 := by
    rw [List.length_append, List.length_singleton]
  rw [step, Journal.add_of_room opened (Nat.ne_of_lt room)]
  refine ⟨⟨?_, fun _ => ?_, ?_⟩, capacity, fun _ longer => ?_⟩
  · rw [length]
    exact Nat.le_trans room capacity
  · rw [length]
    exact Nat.le_trans room (Nat.le_max_left _ _)
  · simp only [length, List.length_append, List.length_singleton]
    omega
  · simp only [length] at longer
    omega

theorem step (inv : gauge.Inv) {event : CapacityEvent ρ} (fitting : gauge.Fitting event) :
    (gauge.step event).Inv := by
  cases event with
  | store capacity => exact inv.store capacity
  | addLog record =>
      by_cases closed : gauge.journal.capacity = 0
      · rw [LogGauge.step, Journal.add_of_closed closed]
        exact inv
      · obtain ⟨within, noWrap⟩ := fitting closed
        rcases Nat.eq_or_lt_of_le within with full | room
        · exact inv.evict ⟨closed, full⟩ record (noWrap ⟨closed, full⟩)
        · exact inv.grow closed room record

/-- An add that finds the buffer longer than the capacity breaks the bound of the last store, and
one that wraps the head breaks the count. -/
theorem fitting (inv : gauge.Inv) {event : CapacityEvent ρ} (bounded : (gauge.step event).Bounded) :
    gauge.Fitting event := by
  cases event with
  | store capacity => trivial
  | addLog record =>
      intro opened
      have capacity : gauge.journal.capacity ≠ 0 := opened
      have counted := inv.counted
      refine ⟨?_, fun evicts => ?_⟩
      · by_contra longer
        have settled := inv.settled capacity (Nat.lt_of_not_le longer)
        rw [LogGauge.step, Journal.add_of_room capacity (by omega)] at bounded
        have since := bounded.since capacity
        simp only [List.length_append, List.length_singleton] at since
        omega
      · by_contra wraps
        have full : gauge.journal.buf.length = gauge.journal.capacity := evicts.2
        rw [LogGauge.step, Journal.add_of_evicts evicts] at bounded
        have after := bounded.counted
        simp only [List.length_append, List.length_tail, List.length_singleton] at after
        have low : (gauge.journal.headId + 1) % usizeCount ≤ gauge.journal.headId := by
          have below := Nat.mod_lt (gauge.journal.headId + 1) (show 0 < usizeCount by decide)
          omega
        omega

end Inv

/-- Along a run of stores and adds the bounds hold exactly if every accepted record finds a buffer
that is not longer than the capacity in force and the head does not wrap around. -/
theorem bounded_iff_fitting (capacity : Nat) (events : List (CapacityEvent ρ)) :
    Along step (fun gauge event => (gauge.step event).Bounded) (start capacity) events ↔
      Along step Fitting (start capacity) events :=
  along_congr_while Inv (fun _ _ inv fitting => inv.step fitting)
    (fun _ _ inv => ⟨inv.fitting, fun fitting => (inv.step fitting).toBounded⟩) events _
    (start_inv capacity)

/-- Two records, then a capacity of 1, then a third record. -/
def shrinking : List (CapacityEvent Nat) := [.store 2, .addLog 5, .addLog 6, .store 1, .addLog 7]

/-- The buffer of a capacity of 1 grows to three records, from the two it held. -/
theorem shrinking_not_bounded :
    ¬ Along step (fun gauge event => (gauge.step event).Bounded) (start initialCapacity)
        shrinking ∧
      (shrinking.foldl step (start initialCapacity)).journal.buf = [5, 6, 7] ∧
      (shrinking.foldl step (start initialCapacity)).journal.capacity = 1 ∧
      (shrinking.foldl step (start initialCapacity)).lengthAtStore = 2 := by
  refine ⟨fun run => ?_, rfl, rfl, rfl⟩
  obtain ⟨-, -, -, -, last, -⟩ := run
  have grown : 3 ≤ max 1 2 := last.since Nat.one_ne_zero
  exact absurd grown (by decide)

end LogGauge
end Okots
