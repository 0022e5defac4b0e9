import Okots.Logger

/-!
# Iterating over the log

`LogIterator` asks `read_log` for one id after the other and ends at the first id without a record.
An id before the buffer has no record either, so an iterator that starts there ends at once.  The
flag `include_system` selects the system records instead of adding them.
-/

namespace Okots

/-- A record of the log. -/
structure OsLog where
  level : String
  «by» : String
  tag : String
  data : String
  file : String
  time : BitVec 64
  line : BitVec 32
  column : BitVec 32
  cpuAcpiId : BitVec 32
  deriving DecidableEq

/-- `log.level == "s"`. -/
def OsLog.isSystem (log : OsLog) : Bool := log.level == "s"

variable {profile : Profile} {ring : LogRing OsLog}

/-- An id with a record has a successor, up to the end of the buffer. -/
theorem readLog_next {targetId : Nat} {log : OsLog}
    (found : ring.readLog profile targetId = some (some log)) :
    targetId < ring.headId + ring.buf.length ∧
      usizeAdd profile targetId 1 = some (targetId + 1) := by
  obtain ⟨-, inside⟩ := LogSystem.readLogAt_bounds found
  refine ⟨inside, ?_⟩
  rw [LogRing.readLog, readLogAt] at found
  split at found
  · simp at found
  · obtain ⟨bound, sum, read⟩ := Option.map_eq_some_iff.mp found
    split at read
    · simp at read
    · rename_i below
      have fits : bound < usizeCount := by
        unfold usizeAdd at sum
        split at sum
        · rename_i small
          rwa [← Option.some.inj sum]
        · cases profile with
          | dev => simp at sum
          | release =>
              rw [← Option.some.inj sum]
              exact Nat.mod_lt _ (by decide)
      exact usizeAdd_of_lt profile (by omega)

/-- `LogIterator`. -/
structure LogIterator where
  nextId : Nat
  includeSystem : Bool

namespace LogIterator

/-- `LogIterator::new`. -/
def new (startId : Nat) (includeSystem : Bool) : LogIterator := ⟨startId, includeSystem⟩

/-- `LogIterator::next` on a log that does not change.  The outer `none` is the panic of an overflow
check. -/
def next (profile : Profile) (ring : LogRing OsLog) (iterator : LogIterator) :
    Option (Option OsLog × LogIterator) :=
  match _ : ring.readLog profile iterator.nextId with
  | none => none
  | some none => some (none, iterator)
  | some (some log) =>
      match _ : usizeAdd profile iterator.nextId 1 with
      | none => none
      | some nextId =>
          if iterator.includeSystem = log.isSystem then
            some (some log, { iterator with nextId })
          else
            next profile ring { iterator with nextId }
termination_by ring.headId + ring.buf.length - iterator.nextId
decreasing_by
  rename_i found advanced _
  obtain ⟨inside, successor⟩ := readLog_next found
  rw [advanced, Option.some.injEq] at successor
  simp only [successor]
  omega

variable {iterator after : LogIterator} {log : OsLog}

theorem next_of_end (absent : ring.readLog profile iterator.nextId = some none) :
    iterator.next profile ring = some (none, iterator) := by
  rw [next]
  split <;> simp_all

theorem next_of_panic (panics : ring.readLog profile iterator.nextId = none) :
    iterator.next profile ring = none := by
  rw [next]
  split <;> simp_all

theorem next_of_found (found : ring.readLog profile iterator.nextId = some (some log)) :
    iterator.next profile ring =
      if iterator.includeSystem = log.isSystem then
        some (some log, { iterator with nextId := iterator.nextId + 1 })
      else
        next profile ring { iterator with nextId := iterator.nextId + 1 } := by
  have advanced := (readLog_next found).2
  rw [next]
  split <;> simp_all
  split <;> simp_all

/-- The iterator moves on with every record it yields. -/
theorem next_advances (yields : iterator.next profile ring = some (some log, after)) :
    iterator.nextId < after.nextId ∧ iterator.nextId < ring.headId + ring.buf.length := by
  fun_induction next profile ring iterator with
  | case1 | case2 | case3 => simp_all
  | case4 iterator record found nextId advanced selected =>
      obtain ⟨inside, successor⟩ := readLog_next found
      obtain rfl := Option.some.inj (advanced.symm.trans successor)
      obtain ⟨-, rfl⟩ := Prod.mk.inj (Option.some.inj yields)
      exact ⟨Nat.lt_succ_self _, inside⟩
  | case5 iterator record found nextId advanced skipped induction =>
      obtain ⟨inside, successor⟩ := readLog_next found
      obtain rfl := Option.some.inj (advanced.symm.trans successor)
      exact ⟨Nat.lt_of_succ_lt (induction yields).1, inside⟩

/-- The iterator run to exhaustion. -/
def collect (profile : Profile) (ring : LogRing OsLog) (iterator : LogIterator) :
    Option (List OsLog) :=
  match _ : iterator.next profile ring with
  | none => none
  | some (none, _) => some []
  | some (some log, after) => (collect profile ring after).map (log :: ·)
termination_by ring.headId + ring.buf.length - iterator.nextId
decreasing_by
  rename_i yields
  have advances := next_advances yields
  omega

theorem collect_of_next : iterator.collect profile ring =
    match iterator.next profile ring with
    | none => none
    | some (none, _) => some []
    | some (some log, after) => (after.collect profile ring).map (log :: ·) := by
  rw [collect]
  split <;> simp_all

theorem collect_of_end (absent : ring.readLog profile iterator.nextId = some none) :
    iterator.collect profile ring = some [] := by
  rw [collect_of_next, next_of_end absent]

theorem collect_of_panic (panics : ring.readLog profile iterator.nextId = none) :
    iterator.collect profile ring = none := by
  rw [collect_of_next, next_of_panic panics]

/-- A record is yielded or skipped, and the iterator goes on with the next id. -/
theorem collect_of_found (found : ring.readLog profile iterator.nextId = some (some log)) :
    iterator.collect profile ring =
      (collect profile ring { iterator with nextId := iterator.nextId + 1 }).map
        (if iterator.includeSystem = log.isSystem then (log :: ·) else id) := by
  rw [collect_of_next, next_of_found found]
  by_cases selected : iterator.includeSystem = log.isSystem
  · simp only [if_pos selected]
  · simp only [if_neg selected, Option.map_id, id_eq]
    exact collect_of_next.symm

/-- From a position of the buffer on, the iterator yields the records of its kind. -/
theorem collect_eq (fits : ring.headId + ring.buf.length < usizeCount) (includeSystem : Bool) :
    ∀ position, (new (ring.headId + position) includeSystem).collect profile ring =
      some ((ring.buf.drop position).filter fun log => includeSystem == log.isSystem) := by
  have read : ∀ position, ring.readLog profile (ring.headId + position) =
      some ring.buf[position]? := by
    intro position
    rw [LogRing.readLog, readLogAt, if_neg (by omega), usizeAdd_of_lt profile fits,
      Option.map_some, Nat.add_sub_cancel_left]
    split
    · rw [List.getElem?_eq_none (by omega)]
    · rfl
  intro position
  induction rest : ring.buf.drop position generalizing position with
  | nil =>
      have past : ring.buf[position]? = none :=
        List.getElem?_eq_none (List.drop_eq_nil_iff.mp rest)
      exact collect_of_end ((read position).trans (congrArg some past))
  | cons log tail induction =>
      have here : ring.buf[position]? = some log := by
        rw [← List.head?_drop, rest, List.head?_cons]
      have later : ring.buf.drop (position + 1) = tail := by
        rw [← List.tail_drop, rest, List.tail_cons]
      have found : ring.readLog profile (new (ring.headId + position) includeSystem).nextId =
          some (some log) := (read position).trans (congrArg some here)
      rw [collect_of_found found]
      simp only [new] at induction ⊢
      rw [Nat.add_assoc, induction (position + 1) later, Option.map_some, List.filter_cons]
      by_cases selected : includeSystem = log.isSystem <;> simp [selected]

end LogIterator

/-! ## The retained records -/

/-- The records of the buffer with their ids from `startId` on, without the system records unless
they are included. -/
def LogRing.retainedFrom (ring : LogRing OsLog) (startId : Nat) (includeSystem : Bool) :
    List OsLog :=
  ((ring.buf.zipIdx ring.headId).filter fun entry =>
    decide (startId ≤ entry.2) && (includeSystem || !entry.1.isSystem)).map Prod.fst

theorem LogRing.retainedFrom_eq (ring : LogRing OsLog) (startId : Nat) (includeSystem : Bool) :
    ring.retainedFrom startId includeSystem =
      (ring.buf.drop (startId - ring.headId)).filter fun log =>
        includeSystem || !log.isSystem := by
  obtain ⟨buf, headId, capacity⟩ := ring
  simp only [retainedFrom]
  induction buf generalizing headId with
  | nil => simp
  | cons log rest induction =>
      rw [List.zipIdx_cons, List.filter_cons]
      by_cases reached : startId ≤ headId
      · have here := induction (headId + 1)
        rw [show startId - (headId + 1) = 0 by omega, List.drop_zero] at here
        rw [show startId - headId = 0 by omega, List.drop_zero, List.filter_cons]
        by_cases selected : (includeSystem || !log.isSystem) = true <;>
          simp [reached, selected, here]
      · have here := induction (headId + 1)
        rw [show startId - headId = startId - (headId + 1) + 1 by omega, List.drop_succ_cons]
        simp [reached, here]

/-- The iterator starts in the buffer or behind it, the end of the buffer is a `usize`, and system
records are asked for only where there are no others; otherwise there is nothing to yield. -/
def LogRing.Enumerable (profile : Profile) (ring : LogRing OsLog) (startId : Nat)
    (includeSystem : Bool) : Prop :=
  if startId < ring.headId then
    ring.retainedFrom startId includeSystem = []
  else if ring.headId + ring.buf.length < usizeCount then
    includeSystem = true → ∀ log ∈ ring.buf.drop (startId - ring.headId), log.isSystem = true
  else
    profile = .release ∧ ring.retainedFrom startId includeSystem = []

namespace LogIterator

theorem collect_before {startId : Nat} (before : startId < ring.headId) (includeSystem : Bool) :
    (new startId includeSystem).collect profile ring = some [] := by
  apply collect_of_end
  rw [LogRing.readLog, readLogAt, new, if_pos before]

/-- When the end of the buffer is no `usize`, no record is found. -/
theorem collect_overflow {startId : Nat} (head : ring.headId < usizeCount)
    (length : ring.buf.length < usizeCount) (overflow : usizeCount ≤ ring.headId + ring.buf.length)
    (reached : ring.headId ≤ startId) (includeSystem : Bool) :
    (new startId includeSystem).collect profile ring =
      match profile with
      | .dev => none
      | .release => some [] := by
  have wraps : ¬ ring.headId + ring.buf.length < usizeCount := Nat.not_lt.mpr overflow
  cases profile with
  | dev =>
      apply collect_of_panic
      simp [LogRing.readLog, readLogAt, new, usizeAdd, wraps, Nat.not_lt.mpr reached]
  | release =>
      apply collect_of_end
      have bound : (ring.headId + ring.buf.length) % usizeCount ≤ startId := by
        rw [Nat.mod_eq_sub_mod overflow, Nat.mod_eq_of_lt (by omega)]
        omega
      simp [LogRing.readLog, readLogAt, new, usizeAdd, wraps, Nat.not_lt.mpr reached, bound]

/-- Run to exhaustion, the iterator yields the retained records from its start id on exactly if the
log is enumerable from there. -/
theorem collect_iff_enumerable (profile : Profile) (ring : LogRing OsLog)
    (head : ring.headId < usizeCount) (length : ring.buf.length < usizeCount) (startId : Nat)
    (includeSystem : Bool) :
    (new startId includeSystem).collect profile ring =
        some (ring.retainedFrom startId includeSystem) ↔
      ring.Enumerable profile startId includeSystem := by
  rw [LogRing.Enumerable]
  split
  · rename_i before
    rw [collect_before before, Option.some.injEq, eq_comm]
  rename_i reached
  rw [Nat.not_lt] at reached
  split
  · rename_i fits
    obtain ⟨position, rfl⟩ := Nat.exists_eq_add_of_le reached
    rw [collect_eq fits, LogRing.retainedFrom_eq, Nat.add_sub_cancel_left, Option.some.injEq]
    cases includeSystem with
    | false => simp
    | true => simp
  · rename_i overflow
    rw [collect_overflow head length (Nat.not_lt.mp overflow) reached]
    cases profile with
    | dev => simp
    | release => simp only [Option.some.injEq, true_and, eq_comm]

/-- A record with a level. -/
def leveled (level : String) : OsLog := ⟨level, "", "", "", "", 0, 0, 0, 0⟩

/-- A system record between two others, after five records that have left the buffer. -/
def mixedRing : LogRing OsLog := ⟨[leveled "i", leveled "s", leveled "w"], 5, 3⟩

theorem collect_iff_enumerable_mixedRing :
    (new 5 false).collect .dev mixedRing = some [leveled "i", leveled "w"] :=
  (collect_iff_enumerable .dev mixedRing (by decide) (by decide) 5 false).mpr
    (by simp [LogRing.Enumerable, mixedRing, usizeCount])

/-- Asked for all records, the iterator yields the system record only, and from the id before the
buffer it yields none. -/
theorem collect_not_retainedFrom :
    (new 5 true).collect .dev mixedRing = some [leveled "s"] ∧
      mixedRing.retainedFrom 5 true = [leveled "i", leveled "s", leveled "w"] ∧
      (new 4 false).collect .dev mixedRing = some [] ∧
      mixedRing.retainedFrom 4 false = [leveled "i", leveled "w"] := by
  refine ⟨?_, by decide, collect_before (by decide) false, by decide⟩
  exact collect_eq (show mixedRing.headId + mixedRing.buf.length < usizeCount by decide) true 0

end LogIterator
end Okots
