import Mathlib.Data.List.Basic
import Okots.Library.Reachable
import Okots.UtilTypes

/-!
# The kernel log

`LOG_BUF` is a bounded queue of records and `LOG_HEAD_ID` the number of its first record.  One call
after another, the two behave as an append-only log that has forgotten all but its last records.
`read_log` loads the head before it takes the lock of the buffer, so a record that is evicted
between the two accesses shifts the answer.
-/

namespace Okots

open TransitionSystem

variable {ρ : Type*}

/-! ## The ring -/

/-- `LOG_BUF`, `LOG_HEAD_ID` and `LOG_CAPACITY`. -/
structure LogRing (ρ : Type*) where
  /-- Records of the queue, front first. -/
  buf : List ρ
  headId : Nat
  capacity : Nat

/-- The part of `read_log` under the read lock, for a head loaded before.  The outer `none` is the
panic of the overflow check. -/
def readLogAt (profile : Profile) (targetId head : Nat) (buf : List ρ) : Option (Option ρ) :=
  if targetId < head then
    some none
  else
    (usizeAdd profile head buf.length).map fun bound =>
      if targetId ≥ bound then none else buf[targetId - head]?

namespace LogRing

/-- `add_log` discards records once the capacity is 0. -/
def Accepts (ring : LogRing ρ) : Prop := ring.capacity ≠ 0

/-- The queue holds `cap` records when the next one is added. -/
def Evicts (ring : LogRing ρ) : Prop := ring.capacity ≠ 0 ∧ ring.buf.length = ring.capacity

instance (ring : LogRing ρ) : Decidable ring.Accepts := inferInstanceAs (Decidable (_ ≠ _))

instance (ring : LogRing ρ) : Decidable ring.Evicts := inferInstanceAs (Decidable (_ ∧ _))

/-- `add_log`. -/
def addLog (ring : LogRing ρ) (record : ρ) : LogRing ρ :=
  if ring.capacity = 0 then
    ring
  else if ring.buf.length = ring.capacity then
    { ring with
      buf := ring.buf.tail ++ [record]
      headId := (ring.headId + 1) % usizeCount }
  else
    { ring with buf := ring.buf ++ [record] }

/-- `read_log`, with no other call in between. -/
def readLog (profile : Profile) (ring : LogRing ρ) (targetId : Nat) : Option (Option ρ) :=
  readLogAt profile targetId ring.headId ring.buf

/-- `get_log_min_id`. -/
def getLogMinId (ring : LogRing ρ) : Nat := ring.headId

/-- The store of the panic handler. -/
def panicStore (ring : LogRing ρ) : LogRing ρ := { ring with capacity := 0 }

end LogRing

/-- The ring with the list of all records accepted so far. -/
structure Journal (ρ : Type*) extends LogRing ρ where
  accepted : List ρ

/-- The calls that touch the log, and the store of the panic handler. -/
inductive LogCall (ρ : Type*) where
  | addLog (record : ρ)
  | readLog (targetId : Nat)
  | panic

namespace Journal

/-- An empty buffer with `LOG_HEAD_ID = 0`. -/
def start (capacity : Nat) : Journal ρ := ⟨⟨[], 0, capacity⟩, []⟩

/-- `add_log`; a record is accepted when the capacity is not 0. -/
def add (journal : Journal ρ) (record : ρ) : Journal ρ where
  toLogRing := journal.toLogRing.addLog record
  accepted :=
    if journal.toLogRing.Accepts then journal.accepted ++ [record] else journal.accepted

/-- Perform one call. -/
def perform (journal : Journal ρ) : LogCall ρ → Journal ρ
  | .addLog record => journal.add record
  | .readLog _ => journal
  | .panic => { journal with toLogRing := journal.toLogRing.panicStore }

/-- The buffer is the end of the accepted records, the head is the number of the forgotten ones, as
a `usize`. -/
structure Retains (capacity : Nat) (journal : Journal ρ) : Prop where
  buf : journal.buf = journal.accepted.drop (journal.accepted.length - capacity)
  headId : journal.headId = (journal.accepted.length - capacity) % usizeCount
  capacity : journal.capacity = capacity ∨ journal.capacity = 0

variable {capacity : Nat} {journal : Journal ρ}

theorem add_of_closed (closed : journal.capacity = 0) (record : ρ) :
    journal.add record = journal := by
  simp [add, LogRing.addLog, LogRing.Accepts, closed]

theorem add_of_evicts (evicts : journal.toLogRing.Evicts) (record : ρ) :
    journal.add record =
      ⟨⟨journal.buf.tail ++ [record], (journal.headId + 1) % usizeCount, journal.capacity⟩,
        journal.accepted ++ [record]⟩ := by
  simp [add, LogRing.addLog, LogRing.Accepts, evicts.1, evicts.2]

theorem add_of_room (opened : journal.capacity ≠ 0) (room : journal.buf.length ≠ journal.capacity)
    (record : ρ) :
    journal.add record =
      ⟨⟨journal.buf ++ [record], journal.headId, journal.capacity⟩,
        journal.accepted ++ [record]⟩ := by
  simp [add, LogRing.addLog, LogRing.Accepts, opened, room]

theorem start_retains (capacity : Nat) : (start capacity : Journal ρ).Retains capacity where
  buf := by simp [start]
  headId := by simp [start]
  capacity := .inl rfl

namespace Retains

theorem length_buf (retains : journal.Retains capacity) :
    journal.buf.length = min journal.accepted.length capacity := by
  rw [retains.buf, List.length_drop]
  omega

/-- One more record: the first one leaves the buffer exactly when the buffer is full. -/
theorem add (retains : journal.Retains capacity) (record : ρ) :
    (journal.add record).Retains capacity := by
  have length := retains.length_buf
  by_cases closed : journal.capacity = 0
  · rw [add_of_closed closed]
    exact retains
  have opened : journal.capacity = capacity := retains.capacity.resolve_right closed
  by_cases full : journal.buf.length = journal.capacity
  · have count : (journal.accepted ++ [record]).length - capacity =
        journal.accepted.length - capacity + 1 := by
      rw [List.length_append, List.length_singleton]
      omega
    rw [add_of_evicts ⟨closed, full⟩]
    refine ⟨?_, ?_, .inl opened⟩
    · rw [count, retains.buf, List.tail_drop, List.drop_append_of_le_length (by omega)]
    · rw [count, retains.headId, Nat.mod_add_mod]
  · have room : journal.accepted.length - capacity = 0 := by omega
    have still : (journal.accepted ++ [record]).length - capacity = 0 := by
      rw [List.length_append, List.length_singleton]
      omega
    rw [add_of_room closed full]
    refine ⟨?_, ?_, .inl opened⟩
    · rw [still, retains.buf, room, List.drop_zero, List.drop_zero]
    · rw [still, retains.headId, room]

theorem perform (retains : journal.Retains capacity) (call : LogCall ρ) :
    (journal.perform call).Retains capacity := by
  cases call with
  | addLog record => exact retains.add record
  | readLog targetId => exact retains
  | panic => exact ⟨retains.buf, retains.headId, .inr rfl⟩

end Retains

/-- Every sequence of calls retains the last records. -/
theorem foldl_retains (capacity : Nat) (calls : List (LogCall ρ)) :
    (calls.foldl perform (start capacity)).Retains capacity := by
  suffices run : ∀ journal : Journal ρ, journal.Retains capacity →
      (calls.foldl perform journal).Retains capacity from run _ (start_retains capacity)
  induction calls with
  | nil => exact fun _ retains => retains
  | cons call rest induction => exact fun journal retains => induction _ (retains.perform call)

/-! ## The append-only log -/

/-- The records that are added before the panic handler closes the log. -/
def recordsBeforePanic : List (LogCall ρ) → List ρ
  | [] => []
  | .addLog record :: rest => record :: recordsBeforePanic rest
  | .readLog _ :: rest => recordsBeforePanic rest
  | .panic :: _ => []

theorem foldl_accepted_of_closed (calls : List (LogCall ρ)) :
    ∀ journal : Journal ρ, journal.capacity = 0 →
      (calls.foldl perform journal).accepted = journal.accepted := by
  induction calls with
  | nil => exact fun _ _ => rfl
  | cons call rest induction =>
      intro journal closed
      cases call with
      | addLog record =>
          rw [List.foldl_cons, perform, add_of_closed closed]
          exact induction journal closed
      | readLog targetId => exact induction journal closed
      | panic => exact induction _ rfl

theorem capacity_add (journal : Journal ρ) (record : ρ) :
    (journal.add record).capacity = journal.capacity := by
  simp only [add, LogRing.addLog]
  split
  · rfl
  · split <;> rfl

/-- As long as the log is open, every added record is accepted. -/
theorem foldl_accepted (calls : List (LogCall ρ)) :
    ∀ journal : Journal ρ, journal.capacity ≠ 0 →
      (calls.foldl perform journal).accepted = journal.accepted ++ recordsBeforePanic calls := by
  induction calls with
  | nil => exact fun journal _ => (List.append_nil _).symm
  | cons call rest induction =>
      intro journal opened
      cases call with
      | addLog record =>
          have grown : (journal.add record).accepted = journal.accepted ++ [record] :=
            if_pos opened
          rw [List.foldl_cons, perform, induction _ (by rwa [capacity_add]), grown,
            recordsBeforePanic, List.append_assoc, List.singleton_append]
      | readLog targetId => exact induction journal opened
      | panic =>
          rw [List.foldl_cons, perform, foldl_accepted_of_closed rest _ rfl, recordsBeforePanic,
            List.append_nil]

end Journal

/-- The ring answers as the append-only log of `records` does, of which the last `capacity` records
are kept. -/
structure LogRing.RefinesLog (profile : Profile) (capacity : Nat) (records : List ρ)
    (ring : LogRing ρ) : Prop where
  buf : ring.buf = records.drop (records.length - min records.length capacity)
  minId : ring.getLogMinId = records.length - min records.length capacity
  kept : ∀ targetId, records.length - min records.length capacity ≤ targetId →
    targetId < records.length → ring.readLog profile targetId = some records[targetId]?
  forgotten : ∀ targetId, targetId < records.length - min records.length capacity ∨
    records.length ≤ targetId → ring.readLog profile targetId = some none

namespace Journal

variable {capacity : Nat} {journal : Journal ρ}

/-- While the numbers of the records are `usize` values, the ring refines the log. -/
theorem Retains.refinesLog (retains : journal.Retains capacity) (profile : Profile)
    (positive : 0 < capacity) (counted : journal.accepted.length < usizeCount) :
    journal.toLogRing.RefinesLog profile capacity journal.accepted := by
  have forgotten : journal.accepted.length - min journal.accepted.length capacity =
      journal.accepted.length - capacity := by omega
  have head : journal.headId = journal.accepted.length - capacity := by
    rw [retains.headId, Nat.mod_eq_of_lt (by omega)]
  have bound : journal.headId + journal.buf.length = journal.accepted.length := by
    rw [retains.length_buf, head]
    omega
  have reads : ∀ targetId, journal.headId ≤ targetId →
      journal.toLogRing.readLog profile targetId = some journal.accepted[targetId]? := by
    intro targetId order
    rw [LogRing.readLog, readLogAt, if_neg (by omega), usizeAdd_of_lt profile (by omega), bound,
      Option.map_some, retains.buf, List.getElem?_drop, ← head, Nat.add_sub_cancel' order]
    split
    · rename_i past
      rw [List.getElem?_eq_none past]
    · rfl
  refine ⟨?_, ?_, ?_, ?_⟩
  · rw [forgotten]
    exact retains.buf
  · rw [forgotten]
    exact head
  · intro targetId order _
    exact reads targetId (by omega)
  · rintro targetId (early | late)
    · rw [LogRing.readLog, readLogAt, if_pos (by omega)]
    · rw [reads targetId (by omega), List.getElem?_eq_none late]

/-- In every sequence of calls that accepts fewer than `2^64` records, the ring refines the log of
the records accepted. -/
theorem foldl_refinesLog (profile : Profile) {capacity : Nat} (positive : 0 < capacity)
    (calls : List (LogCall ρ)) (counted : (recordsBeforePanic calls).length < usizeCount) :
    (calls.foldl perform (start capacity)).accepted = recordsBeforePanic calls ∧
      (calls.foldl perform (start capacity)).toLogRing.RefinesLog profile capacity
        (recordsBeforePanic calls) := by
  have accepted : (calls.foldl perform (start capacity)).accepted = recordsBeforePanic calls :=
    foldl_accepted calls (start capacity) (Nat.ne_of_gt positive)
  refine ⟨accepted, ?_⟩
  rw [← accepted] at counted ⊢
  exact (foldl_retains capacity calls).refinesLog profile positive counted

/-- Three records in a ring for two, and a fourth one after the panic handler. -/
def rotation : List (LogCall Nat) :=
  [.addLog 5, .addLog 6, .readLog 0, .addLog 7, .panic, .addLog 8]

theorem foldl_refinesLog_rotation :
    recordsBeforePanic rotation = [5, 6, 7] ∧
      (rotation.foldl perform (start 2)).toLogRing.RefinesLog .dev 2 [5, 6, 7] :=
  ⟨rfl, (foldl_refinesLog .dev (show 0 < 2 by decide) rotation (by decide)).2⟩

theorem recordsBeforePanic_replicate (count : Nat) (record : ρ) :
    recordsBeforePanic (List.replicate count (.addLog record)) = List.replicate count record := by
  induction count with
  | zero => rfl
  | succ count induction =>
      rw [List.replicate_succ, recordsBeforePanic, induction, List.replicate_succ]

/-- With `2^64` accepted records the bound of the last id is no `usize`: in the `dev` profile
`read_log` panics, in the `release` profile it answers `None`. -/
theorem not_refinesLog_of_full (profile : Profile) (retains : journal.Retains 1)
    (counted : journal.accepted.length = usizeCount) :
    ¬ journal.toLogRing.RefinesLog profile 1 journal.accepted := by
  intro refines
  have positive : 1 ≤ usizeCount := by decide
  have length : journal.buf.length = 1 := by
    rw [retains.length_buf, counted]
    omega
  have head : journal.headId = usizeCount - 1 := by
    rw [retains.headId, counted, Nat.mod_eq_of_lt (by omega)]
  have overflow : ¬ usizeCount - 1 + 1 < usizeCount := by omega
  have last := refines.kept (usizeCount - 1) (by omega) (by omega)
  obtain ⟨record, present⟩ : ∃ record, journal.accepted[usizeCount - 1]? = some record :=
    Option.ne_none_iff_exists'.mp fun absent => by
      rw [List.getElem?_eq_none_iff] at absent
      omega
  rw [present, LogRing.readLog, readLogAt, head, length, if_neg (Nat.lt_irrefl _)] at last
  cases profile with
  | dev => simp [usizeAdd, overflow] at last
  | release => simp [usizeAdd, Nat.sub_add_cancel positive] at last

/-- The ring of one record after `2^64` calls of `add_log`. -/
theorem foldl_not_refinesLog :
    ¬ ((List.replicate usizeCount (.addLog ())).foldl perform
        (start 1)).toLogRing.RefinesLog .dev 1
          (recordsBeforePanic (List.replicate usizeCount (.addLog ()))) ∧
      ¬ ((List.replicate usizeCount (.addLog ())).foldl perform
        (start 1)).toLogRing.RefinesLog .release 1
          (recordsBeforePanic (List.replicate usizeCount (.addLog ()))) := by
  have retains := foldl_retains 1 (List.replicate usizeCount (LogCall.addLog ()))
  have accepted := foldl_accepted (List.replicate usizeCount (LogCall.addLog ())) (start 1)
    Nat.one_ne_zero
  have counted : ((List.replicate usizeCount (LogCall.addLog ())).foldl perform
      (start 1)).accepted.length = usizeCount := by
    rw [accepted, recordsBeforePanic_replicate, List.length_append, List.length_replicate]
    exact Nat.zero_add _
  have same : recordsBeforePanic (List.replicate usizeCount (.addLog ())) =
      ((List.replicate usizeCount (LogCall.addLog ())).foldl perform (start 1)).accepted :=
    accepted.symm
  rw [same]
  exact ⟨not_refinesLog_of_full .dev retains counted,
    not_refinesLog_of_full .release retains counted⟩

end Journal

/-! ## Readers on other cores -/

/-- Where a core is in `read_log`. -/
inductive ReadPhase (ρ : Type*) where
  | idle
  /-- `LOG_HEAD_ID` has been loaded, the lock has not been taken. -/
  | loaded (targetId head : Nat)
  | answered (targetId : Nat) (answer : Option (Option ρ))

/-- The log and the cores that read it. -/
structure LogSystem (ρ : Type*) where
  journal : Journal ρ
  readers : Nat → ReadPhase ρ

/-- One access to the log. -/
inductive LogEvent (ρ : Type*) where
  /-- `add_log`, which holds the write lock. -/
  | addLog (record : ρ)
  /-- The store of the panic handler. -/
  | panic
  /-- A core enters `read_log` and loads `LOG_HEAD_ID`. -/
  | loadHead (reader targetId : Nat)
  /-- The core takes the read lock and indexes the buffer. -/
  | index (reader : Nat)

namespace LogSystem

/-- An empty buffer, read by no core. -/
def start (capacity : Nat) : LogSystem ρ := ⟨.start capacity, fun _ => .idle⟩

/-- A core makes its two accesses in turn. -/
def Enabled (system : LogSystem ρ) : LogEvent ρ → Prop
  | .addLog _ | .panic => True
  | .loadHead reader _ =>
      match system.readers reader with
      | .loaded _ _ => False
      | .idle | .answered _ _ => True
  | .index reader =>
      match system.readers reader with
      | .loaded _ _ => True
      | .idle | .answered _ _ => False

/-- The system after an access. -/
def next (profile : Profile) (system : LogSystem ρ) : LogEvent ρ → LogSystem ρ
  | .addLog record => { system with journal := system.journal.add record }
  | .panic => { system with journal := system.journal.perform .panic }
  | .loadHead reader targetId =>
      { system with
        readers :=
          Function.update system.readers reader (.loaded targetId system.journal.headId) }
  | .index reader =>
      match system.readers reader with
      | .loaded targetId head =>
          { system with
            readers := Function.update system.readers reader
              (.answered targetId (readLogAt profile targetId head system.journal.buf)) }
      | .idle | .answered _ _ => system

/-- No record is evicted while a reader is about to index the buffer with an id that the buffer
held, and the head does not wrap around. -/
def Undisturbed (system : LogSystem ρ) : LogEvent ρ → Prop
  | .addLog _ =>
      system.journal.toLogRing.Evicts →
        system.journal.headId + 1 < usizeCount ∧
          ∀ reader targetId head, system.readers reader = .loaded targetId head →
            targetId < head ∨ head + system.journal.buf.length ≤ targetId
  | .panic | .loadHead _ _ | .index _ => True

/-- The head is the number of forgotten records; a reader that can still index the buffer has loaded
the present head; every answer is the record with that number. -/
structure Numbered (capacity : Nat) (system : LogSystem ρ) : Prop where
  retains : system.journal.Retains capacity
  head : system.journal.headId = system.journal.accepted.length - capacity
  current : ∀ reader targetId head, system.readers reader = .loaded targetId head →
    head = system.journal.headId ∨ targetId < head ∨ head + capacity ≤ targetId
  answers : ∀ reader targetId record,
    system.readers reader = .answered targetId (some (some record)) →
    system.journal.accepted[targetId]? = some record

variable {capacity : Nat} {system : LogSystem ρ} {profile : Profile}

theorem start_numbered (capacity : Nat) : (start capacity : LogSystem ρ).Numbered capacity where
  retains := Journal.start_retains capacity
  head := by simp [start, Journal.start]
  current := nofun
  answers := nofun

/-- A record that is found keeps its number when more records are accepted. -/
theorem getElem?_concat {records : List ρ} {targetId : Nat} {record : ρ} (more : ρ)
    (found : records[targetId]? = some record) : (records ++ [more])[targetId]? = some record := by
  obtain ⟨bound, -⟩ := List.getElem?_eq_some_iff.mp found
  rw [List.getElem?_append_left bound]
  exact found

/-- What is read under the head of the buffer is the record with that number. -/
theorem readLogAt_drop {targetId head : Nat} {records : List ρ} {record : ρ}
    (answer : readLogAt profile targetId head (records.drop head) = some (some record)) :
    records[targetId]? = some record := by
  unfold readLogAt at answer
  split at answer
  · simp at answer
  · rename_i order
    obtain ⟨bound, -, read⟩ := Option.map_eq_some_iff.mp answer
    split at read
    · simp at read
    · rwa [List.getElem?_drop, Nat.add_sub_cancel' (Nat.le_of_not_lt order)] at read

/-- An answered id lies in the buffer. -/
theorem readLogAt_bounds {targetId head : Nat} {buf : List ρ} {record : ρ}
    (answer : readLogAt profile targetId head buf = some (some record)) :
    head ≤ targetId ∧ targetId < head + buf.length := by
  unfold readLogAt at answer
  split at answer
  · simp at answer
  · rename_i order
    obtain ⟨bound, -, read⟩ := Option.map_eq_some_iff.mp answer
    split at read
    · simp at read
    · obtain ⟨inside, -⟩ := List.getElem?_eq_some_iff.mp read
      omega

namespace Numbered

theorem addLog (numbered : system.Numbered capacity) {record : ρ}
    (undisturbed : system.Undisturbed (.addLog record)) :
    (system.next profile (.addLog record)).Numbered capacity := by
  have retains : (system.journal.add record).Retains capacity := numbered.retains.add record
  have head := numbered.head
  have length := numbered.retains.length_buf
  by_cases closed : system.journal.capacity = 0
  · rw [next, Journal.add_of_closed closed]
    exact numbered
  have opened : system.journal.capacity = capacity := numbered.retains.capacity.resolve_right closed
  have answers : ∀ reader targetId found,
      system.readers reader = .answered targetId (some (some found)) →
      (system.journal.accepted ++ [record])[targetId]? = some found :=
    fun reader targetId found answered =>
      getElem?_concat record (numbered.answers reader targetId found answered)
  by_cases full : system.journal.buf.length = system.journal.capacity
  · obtain ⟨noWrap, apart⟩ := undisturbed ⟨closed, full⟩
    rw [Journal.add_of_evicts ⟨closed, full⟩] at retains
    rw [next, Journal.add_of_evicts ⟨closed, full⟩]
    refine ⟨retains, ?_, ?_, answers⟩
    · simp only [Nat.mod_eq_of_lt noWrap, List.length_append, List.length_singleton]
      omega
    · intro reader targetId loadedHead loaded
      have outside := apart reader targetId loadedHead loaded
      exact .inr (by omega)
  · rw [Journal.add_of_room closed full] at retains
    rw [next, Journal.add_of_room closed full]
    refine ⟨retains, ?_, numbered.current, answers⟩
    simp only [List.length_append, List.length_singleton]
    omega

/-- A reader moves on; the others keep their phases. -/
theorem setReader (numbered : system.Numbered capacity) (reader : Nat) {phase : ReadPhase ρ}
    (current : ∀ targetId head, phase = .loaded targetId head →
      head = system.journal.headId ∨ targetId < head ∨ head + capacity ≤ targetId)
    (answers : ∀ targetId record, phase = .answered targetId (some (some record)) →
      system.journal.accepted[targetId]? = some record) :
    Numbered capacity
      { system with readers := Function.update system.readers reader phase } where
  retains := numbered.retains
  head := numbered.head
  current other targetId head loaded := by
    by_cases same : other = reader
    · subst same
      simp only [Function.update_self] at loaded
      exact current targetId head loaded
    · simp only [Function.update_of_ne same] at loaded
      exact numbered.current other targetId head loaded
  answers other targetId record answered := by
    by_cases same : other = reader
    · subst same
      simp only [Function.update_self] at answered
      exact answers targetId record answered
    · simp only [Function.update_of_ne same] at answered
      exact numbered.answers other targetId record answered

theorem index (numbered : system.Numbered capacity) (reader : Nat) :
    (system.next profile (.index reader)).Numbered capacity := by
  cases phase : system.readers reader with
  | idle | answered =>
      simp only [next, phase]
      exact numbered
  | loaded targetId head =>
      simp only [next, phase]
      refine numbered.setReader reader nofun ?_
      intro answeredId record answered
      obtain ⟨rfl, answer⟩ := ReadPhase.answered.inj answered
      have bounds := readLogAt_bounds answer
      have length := numbered.retains.length_buf
      have present : head = system.journal.accepted.length - capacity := by
        rw [← numbered.head]
        exact (numbered.current reader targetId head phase).resolve_right (by omega)
      rw [numbered.retains.buf, ← present] at answer
      exact readLogAt_drop answer

theorem next (numbered : system.Numbered capacity) {event : LogEvent ρ}
    (undisturbed : system.Undisturbed event) :
    (system.next profile event).Numbered capacity := by
  cases event with
  | addLog record => exact numbered.addLog undisturbed
  | panic =>
      exact ⟨numbered.retains.perform .panic, numbered.head, numbered.current, numbered.answers⟩
  | loadHead reader targetId =>
      refine numbered.setReader reader ?_ nofun
      rintro _ _ ⟨rfl, rfl⟩
      exact .inl rfl
  | index reader => exact numbered.index reader

end Numbered

/-- In every run of undisturbed steps, a record that `read_log` returns for an id is the record
accepted under that number. -/
theorem answered_accepted (profile : Profile) (capacity : Nat) (events : List (LogEvent ρ))
    (undisturbed : Along (next profile) (fun system event => system.Enabled event ∧
      system.Undisturbed event) (start capacity) events)
    (reader targetId : Nat) (record : ρ)
    (answered : (events.foldl (next profile) (start capacity)).readers reader =
      .answered targetId (some (some record))) :
    (events.foldl (next profile) (start capacity)).journal.accepted[targetId]? = some record := by
  have numbered : Numbered capacity (events.foldl (next profile) (start capacity)) :=
    undisturbed.invariant (fun _ _ numbered allowed => numbered.next allowed.2)
      (start_numbered capacity)
  exact numbered.answers reader targetId record answered

/-- Core 0 reads the second record of a ring for one before the third one evicts it. -/
def settledRead : List (LogEvent Nat) :=
  [.addLog 5, .addLog 6, .loadHead 0 1, .index 0, .addLog 7]

theorem answered_accepted_settledRead :
    (settledRead.foldl (next .dev) (start 1)).readers 0 = .answered 1 (some (some 6)) ∧
      (settledRead.foldl (next .dev) (start 1)).journal.accepted[1]? = some 6 := by
  have undisturbed : Along (next .dev) (fun system event => system.Enabled event ∧
      system.Undisturbed event) (start 1) settledRead := by
    refine ⟨⟨trivial, ?_⟩, ⟨trivial, ?_⟩, ⟨trivial, trivial⟩, ⟨trivial, trivial⟩, ⟨trivial, ?_⟩,
      trivial⟩
    · exact fun evicts => absurd evicts.2 (by decide)
    · exact fun _ => ⟨by decide, nofun⟩
    · refine fun _ => ⟨by decide, fun reader targetId head loaded => ?_⟩
      by_cases same : reader = 0
      · subst same
        cases loaded
      · simp [next, start, same] at loaded
  exact ⟨rfl, answered_accepted .dev 1 settledRead undisturbed 0 1 6 rfl⟩

/-- An eviction under a reader that has loaded the head: the reader gets the record after the one it
asked for. -/
theorem answered_later_of_evicts (numbered : system.Numbered capacity) {reader targetId : Nat}
    {record : ρ} (loaded : system.readers reader = .loaded targetId system.journal.headId)
    (evicts : system.journal.toLogRing.Evicts) (within : system.journal.headId ≤ targetId)
    (room : targetId < system.journal.headId + system.journal.buf.length)
    (fits : system.journal.headId + system.journal.buf.length < usizeCount) :
    (((system.next profile (.addLog record)).next profile (.index reader)).readers reader) =
      .answered targetId (some (system.journal.accepted ++ [record])[targetId + 1]?) := by
  have head := numbered.head
  have length := numbered.retains.length_buf
  have opened := numbered.retains.capacity.resolve_right evicts.1
  have full := evicts.2
  have retains := numbered.retains.add record
  have shifted := retains.buf
  have sameLength := retains.length_buf
  have accepted : (system.journal.add record).accepted = system.journal.accepted ++ [record] :=
    if_pos evicts.1
  rw [accepted, List.length_append, List.length_singleton] at shifted sameLength
  have bound : (system.journal.add record).buf.length = system.journal.buf.length := by omega
  have moved : system.journal.accepted.length + 1 - capacity + (targetId - system.journal.headId) =
      targetId + 1 := by omega
  simp only [next, loaded, Function.update_self]
  rw [readLogAt, if_neg (by omega), bound, usizeAdd_of_lt profile fits, Option.map_some,
    if_neg (by omega), shifted, List.getElem?_drop, moved]

/-- Core 0 loads the head for the first record, which a second one evicts from a ring for one. -/
def evictedRead : List (LogEvent Nat) :=
  [.addLog 5, .loadHead 0 0, .addLog 6, .index 0]

/-- The answer to id 0 is the record with number 1. -/
theorem answered_not_accepted :
    Along (next .dev) Enabled (start 1) evictedRead ∧
      (evictedRead.foldl (next .dev) (start 1)).readers 0 = .answered 0 (some (some 6)) ∧
      (evictedRead.foldl (next .dev) (start 1)).journal.accepted[0]? = some 5 :=
  ⟨⟨trivial, trivial, trivial, trivial, trivial⟩, rfl, rfl⟩

end LogSystem
end Okots
