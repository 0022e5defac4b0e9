import Okots.Library.SelfDelimiting
import Okots.Logger.Iterator

/-!
# The log on the serial port

`custom_internal` adds a record to the ring and sends it over the serial port as a frame: four fixed
bytes and the record as bincode writes it.  All that is used of bincode is that its code can be read
back, whatever follows it.  The two happen in two critical sections.  Interrupts are
off in each of them, so a core is interrupted between the two, and its handler may log in turn; a
fault inside the second one logs on a core that holds the lock of the port.

Cores take turns in any order.  What arrives at the other end of the line is a sequence of whole
frames, it determines the records that were sent, and every record is sent once.  A core that begins
a call while it sends waits for itself, and the port is silent from then on.
-/

namespace Okots

open SelfDelimiting TransitionSystem

/-! ## Frames -/

/-- The bytes of a text. -/
def utf8 (text : String) : List UInt8 := text.toByteArray.data.toList

/-- The lengths of the texts are `usize` numbers. -/
def OsLog.Fits (log : OsLog) : Prop :=
  ∀ text ∈ [log.level, log.by, log.tag, log.data, log.file], (utf8 text).length < 2 ^ 64

instance (log : OsLog) : Decidable log.Fits := inferInstanceAs (Decidable (∀ text ∈ _, _))

/-- `bincode::serde::encode_into_writer` with `bincode::config::standard()`: the bytes that it hands
to the writer for a record. -/
abbrev Encoder := OsLog → List UInt8

namespace Encoder

variable {encode : Encoder}

/-- What `custom_internal` sends. -/
def frame (encode : Encoder) (log : OsLog) : List UInt8 := [0xAA, 0xBB, 0xCC, 0xEE] ++ encode log

/-- The law that is documented for the format: a record is read back from its code, and with it the
place where the code ends. -/
def ReadsBack (encode : Encoder) : Prop := Delimits OsLog.Fits encode

/-- A frame shows where it ends, and its record. -/
theorem ReadsBack.frame (readsBack : encode.ReadsBack) : Delimits OsLog.Fits encode.frame :=
  Delimits.prepend readsBack _

/-- A frame is not empty. -/
theorem frame_ne_nil (log : OsLog) : encode.frame log ≠ [] := List.cons_ne_nil _ _

end Encoder

/-! ### A format with this law

The fields are written in the order of their declaration, texts behind their length and integers
with a variable number of bytes. -/

/-- A text behind its length. -/
def encodeStr (text : String) : List UInt8 := varint (utf8 text).length ++ utf8 text

/-- An integer. -/
def encodeInt {width : Nat} (value : BitVec width) : List UInt8 := varint value.toNat

/-- The fields of a record, one after the other. -/
def fieldEncoder : Encoder := fun log =>
  encodeStr log.level ++ (encodeStr log.by ++ (encodeStr log.tag ++ (encodeStr log.data ++
    (encodeStr log.file ++ (encodeInt log.time ++ (encodeInt log.line ++
      (encodeInt log.column ++ encodeInt log.cpuAcpiId)))))))

theorem utf8_injective : Function.Injective utf8 := by
  intro left right same
  exact String.toByteArray_inj.mp (ByteArray.ext (Array.toList_inj.mp same))

theorem delimits_encodeStr : Delimits (fun text => (utf8 text).length < 2 ^ 64) encodeStr :=
  delimits_varint.counted.comap utf8_injective

theorem delimits_encodeInt {width : Nat} (small : width ≤ 64) :
    Delimits (fun _ => True) fun value : BitVec width => encodeInt value := by
  refine (delimits_varint.comap fun _ _ => BitVec.eq_of_toNat_eq).mono fun value _ => ?_
  exact Nat.lt_of_lt_of_le value.isLt (Nat.pow_le_pow_right (by decide) small)

/-- The fields of a record. -/
def OsLog.fields (log : OsLog) : String × String × String × String × String × BitVec 64 ×
    BitVec 32 × BitVec 32 × BitVec 32 :=
  (log.level, log.by, log.tag, log.data, log.file, log.time, log.line, log.column, log.cpuAcpiId)

theorem OsLog.fields_injective : Function.Injective OsLog.fields := by
  rintro ⟨⟩ ⟨⟩ same
  simpa only [OsLog.fields, Prod.mk.injEq, OsLog.mk.injEq] using same

theorem fieldEncoder_readsBack : fieldEncoder.ReadsBack := by
  have int32 := delimits_encodeInt (show 32 ≤ 64 by decide)
  have int64 := delimits_encodeInt (show 64 ≤ 64 by decide)
  have text := delimits_encodeStr
  have body := text.append (text.append (text.append (text.append (text.append (int64.append
    (int32.append (int32.append int32)))))))
  refine (body.comap OsLog.fields_injective).mono fun log fits => ?_
  simpa [OsLog.Fits, OsLog.fields] using fits

/-! ## The cores -/

/-- Where a call of `custom_internal` is. -/
inductive LogPhase where
  /-- The record is in the ring; lock the port. -/
  | waiting (log : OsLog)
  /-- The call holds the lock and has these bytes to send. -/
  | sending (log : OsLog) (rest : List UInt8)

namespace LogPhase

/-- The call holds the lock of the port. -/
def sends : LogPhase → Bool
  | .waiting _ => false
  | .sending _ _ => true

/-- The bytes to send. -/
def bytes : LogPhase → List UInt8
  | .waiting _ => []
  | .sending _ rest => rest

/-- The record, when it has not been written. -/
def waiting? : LogPhase → Option OsLog
  | .waiting log => some log
  | .sending _ _ => none

theorem filterMap_waiting (log : OsLog) (below : List LogPhase) :
    (LogPhase.waiting log :: below).filterMap waiting? = [log] ++ below.filterMap waiting? := rfl

theorem filterMap_sending (log : OsLog) (rest : List UInt8) (below : List LogPhase) :
    (LogPhase.sending log rest :: below).filterMap waiting? = below.filterMap waiting? := rfl

end LogPhase

/-- The ring, the port with its lock `SERIAL1`, and the calls of each core. -/
structure SerialState where
  journal : Journal OsLog
  /-- The bytes sent so far. -/
  port : List UInt8
  serial1 : Option Nat
  /-- The calls of a core, the innermost first. -/
  calls : Nat → List LogPhase
  /-- The records of the calls so far, in the order in which they were added to the ring. -/
  added : List (Nat × OsLog)
  /-- The records whose frame has been begun, in the order of the frames. -/
  written : List (Nat × OsLog)

/-- A step of a core. -/
inductive SerialEvent where
  /-- `custom_internal` is called, by a handler if the core has a call in progress, and adds its
  record. -/
  | call (core : Nat) (log : OsLog)
  | lock (core : Nat)
  | sendRaw (core : Nat)
  | unlock (core : Nat)
  /-- The panic handler closes the ring. -/
  | panicStore

namespace SerialState

/-- An empty ring and an idle port. -/
def start (capacity : Nat) : SerialState := ⟨.start capacity, [], none, fun _ => [], [], []⟩

/-- The state after a step, if it can be taken. -/
def step (encode : Encoder) (state : SerialState) : SerialEvent → Option SerialState
  | .call core log =>
      some { state with
        journal := state.journal.add log
        calls := Function.update state.calls core (.waiting log :: state.calls core)
        added := state.added ++ [(core, log)] }
  | .lock core =>
      match state.serial1, state.calls core with
      | none, .waiting log :: below =>
          some { state with
            serial1 := some core
            calls := Function.update state.calls core (.sending log (encode.frame log) :: below)
            written := state.written ++ [(core, log)] }
      | _, _ => none
  | .sendRaw core =>
      match state.calls core with
      | .sending log (byte :: rest) :: below =>
          some { state with
            port := state.port ++ [byte]
            calls := Function.update state.calls core (.sending log rest :: below) }
      | _ => none
  | .unlock core =>
      match state.calls core with
      | .sending _ [] :: below =>
          some { state with
            serial1 := none
            calls := Function.update state.calls core below }
      | _ => none
  | .panicStore => some { state with journal := state.journal.perform .panic }

/-- A step of some core. -/
def Steps (encode : Encoder) (state after : SerialState) : Prop :=
  ∃ event, state.step encode event = some after

/-- What a step can do. -/
inductive Transition (encode : Encoder) (state : SerialState) :
    SerialEvent → SerialState → Prop
  | call (core : Nat) (log : OsLog) :
      Transition encode state (.call core log) { state with
        journal := state.journal.add log
        calls := Function.update state.calls core (.waiting log :: state.calls core)
        added := state.added ++ [(core, log)] }
  | lock {core : Nat} {log : OsLog} {below : List LogPhase} (free : state.serial1 = none)
      (top : state.calls core = .waiting log :: below) :
      Transition encode state (.lock core) { state with
        serial1 := some core
        calls := Function.update state.calls core (.sending log (encode.frame log) :: below)
        written := state.written ++ [(core, log)] }
  | sendRaw {core : Nat} {log : OsLog} {byte : UInt8} {rest : List UInt8} {below : List LogPhase}
      (top : state.calls core = .sending log (byte :: rest) :: below) :
      Transition encode state (.sendRaw core) { state with
        port := state.port ++ [byte]
        calls := Function.update state.calls core (.sending log rest :: below) }
  | unlock {core : Nat} {log : OsLog} {below : List LogPhase}
      (top : state.calls core = .sending log [] :: below) :
      Transition encode state (.unlock core) { state with
        serial1 := none
        calls := Function.update state.calls core below }
  | panicStore :
      Transition encode state .panicStore { state with journal := state.journal.perform .panic }

variable {encode : Encoder} {state after : SerialState} {event : SerialEvent}

theorem step_iff : state.step encode event = some after ↔ Transition encode state event after := by
  constructor
  · intro stepped
    cases event with
    | call core log =>
        obtain rfl := Option.some.inj stepped
        exact .call core log
    | lock core =>
        simp only [step] at stepped
        split at stepped
        · rename_i free top
          obtain rfl := Option.some.inj stepped
          exact .lock free top
        · cases stepped
    | sendRaw core =>
        simp only [step] at stepped
        split at stepped
        · rename_i top
          obtain rfl := Option.some.inj stepped
          exact .sendRaw top
        · cases stepped
    | unlock core =>
        simp only [step] at stepped
        split at stepped
        · rename_i top
          obtain rfl := Option.some.inj stepped
          exact .unlock top
        · cases stepped
    | panicStore =>
        obtain rfl := Option.some.inj stepped
        exact .panicStore
  · rintro (⟨core, log⟩ | ⟨free, top⟩ | top | top | _)
    · rfl
    · simp only [step, free, top]
    · simp only [step, top]
    · simp only [step, top]
    · rfl

/-! ## The stream of frames -/

/-- The records whose frame has been begun. -/
def records (state : SerialState) : List OsLog := state.written.map Prod.snd

/-- What the holder of the port has still to send. -/
def unsent (state : SerialState) : List UInt8 :=
  match state.serial1 with
  | none => []
  | some core => (state.calls core).flatMap LogPhase.bytes

/-- The holder of the port sends, nobody else does, and together with what it has still to send the
bytes are the frames of the records. -/
structure Framed (encode : Encoder) (state : SerialState) : Prop where
  owned : ∀ core,
    (state.calls core).countP LogPhase.sends = if state.serial1 = some core then 1 else 0
  stream : state.port ++ state.unsent = state.records.flatMap encode.frame

theorem framed_start (capacity : Nat) : (start capacity).Framed encode := ⟨fun _ => rfl, rfl⟩

/-- Calls that do not send have nothing to send. -/
theorem bytes_of_countP_eq_zero {calls : List LogPhase}
    (silent : calls.countP LogPhase.sends = 0) : calls.flatMap LogPhase.bytes = [] := by
  rw [List.flatMap_eq_nil_iff]
  intro phase member
  have waits := List.countP_eq_zero.mp silent phase member
  cases phase with
  | waiting log => rfl
  | sending log rest => exact absurd rfl waits

/-- A core whose innermost call sends holds the port, and its other calls wait. -/
theorem Framed.holds (framed : state.Framed encode) {core : Nat} {log : OsLog} {rest : List UInt8}
    {below : List LogPhase} (top : state.calls core = .sending log rest :: below) :
    state.serial1 = some core ∧ below.countP LogPhase.sends = 0 := by
  have owned := framed.owned core
  rw [top, List.countP_cons_of_pos rfl] at owned
  split at owned
  · exact ⟨by assumption, by omega⟩
  · omega

/-- The counts after the calls of one core have changed. -/
theorem Framed.owned_update (framed : state.Framed encode) {core : Nat} {calls : List LogPhase}
    {owner : Option Nat}
    (own : calls.countP LogPhase.sends = if owner = some core then 1 else 0)
    (others : ∀ other, other ≠ core → (state.serial1 = some other ↔ owner = some other))
    (other : Nat) :
    (Function.update state.calls core calls other).countP LogPhase.sends =
      if owner = some other then 1 else 0 := by
  by_cases same : other = core
  · subst same
    rw [Function.update_self, own]
  · rw [Function.update_of_ne same, framed.owned other]
    exact if_congr (others other same) rfl rfl

/-- The innermost call of a core is the only one with bytes to send. -/
theorem Framed.unsent_eq (framed : state.Framed encode) {core : Nat} {log : OsLog}
    {rest : List UInt8} {below : List LogPhase}
    (top : state.calls core = .sending log rest :: below) : state.unsent = rest := by
  obtain ⟨owner, silent⟩ := framed.holds top
  simp only [unsent, owner, top, List.flatMap_cons, bytes_of_countP_eq_zero silent,
    LogPhase.bytes, List.append_nil]

/-- When no call is in progress, every frame has been sent. -/
theorem Framed.port_of_idle (framed : state.Framed encode) (idle : ∀ core, state.calls core = []) :
    state.port = state.records.flatMap encode.frame := by
  have nothing : state.unsent = [] := by
    unfold unsent
    split
    · rfl
    · rw [idle]
      rfl
  rw [← framed.stream, nothing, List.append_nil]

theorem Framed.call (framed : state.Framed encode) (core : Nat) (log : OsLog) :
    Framed encode { state with
      journal := state.journal.add log
      calls := Function.update state.calls core (.waiting log :: state.calls core)
      added := state.added ++ [(core, log)] } := by
  refine ⟨framed.owned_update (framed.owned core) fun _ _ => Iff.rfl, ?_⟩
  refine Eq.trans (congrArg (state.port ++ ·) ?_) framed.stream
  unfold unsent
  cases owner : state.serial1 with
  | none => rfl
  | some holder =>
      by_cases same : holder = core
      · subst same
        simp [LogPhase.bytes]
      · simp [Function.update_of_ne same]

theorem Framed.lock (framed : state.Framed encode) {core : Nat} {log : OsLog}
    {below : List LogPhase} (free : state.serial1 = none)
    (top : state.calls core = .waiting log :: below) :
    Framed encode { state with
      serial1 := some core
      calls := Function.update state.calls core (.sending log (encode.frame log) :: below)
      written := state.written ++ [(core, log)] } := by
  have silent : below.countP LogPhase.sends = 0 := by
    have owned := framed.owned core
    rwa [top, free, List.countP_cons_of_neg Bool.false_ne_true, if_neg nofun] at owned
  have before : state.port = state.records.flatMap encode.frame := by
    simpa only [unsent, free, List.append_nil] using framed.stream
  refine ⟨framed.owned_update ?_ fun other different => ?_, ?_⟩
  · rw [List.countP_cons_of_pos rfl, silent, if_pos rfl]
  · rw [free]
    exact iff_of_false nofun fun same => different (Option.some.inj same).symm
  · simp only [unsent, records, Function.update_self, List.flatMap_cons, LogPhase.bytes,
      bytes_of_countP_eq_zero silent, List.append_nil, List.map_append, List.flatMap_append,
      List.map_cons, List.map_nil, List.flatMap_nil]
    rw [before, records]

theorem Framed.sendRaw (framed : state.Framed encode) {core : Nat} {log : OsLog} {byte : UInt8}
    {rest : List UInt8} {below : List LogPhase}
    (top : state.calls core = .sending log (byte :: rest) :: below) :
    Framed encode { state with
      port := state.port ++ [byte]
      calls := Function.update state.calls core (.sending log rest :: below) } := by
  obtain ⟨owner, silent⟩ := framed.holds top
  refine ⟨framed.owned_update ?_ fun _ _ => Iff.rfl, ?_⟩
  · rw [List.countP_cons_of_pos rfl, silent, owner, if_pos rfl]
  · refine Eq.trans ?_ framed.stream
    rw [framed.unsent_eq top]
    simp only [unsent, owner, Function.update_self, List.flatMap_cons, LogPhase.bytes,
      bytes_of_countP_eq_zero silent, List.append_nil, List.append_assoc, List.singleton_append]

theorem Framed.unlock (framed : state.Framed encode) {core : Nat} {log : OsLog}
    {below : List LogPhase} (top : state.calls core = .sending log [] :: below) :
    Framed encode { state with
      serial1 := none
      calls := Function.update state.calls core below } := by
  obtain ⟨owner, silent⟩ := framed.holds top
  refine ⟨framed.owned_update ?_ fun other different => ?_, ?_⟩
  · rw [silent, if_neg nofun]
  · rw [owner]
    exact iff_of_false (fun same => different (Option.some.inj same).symm) nofun
  · refine Eq.trans ?_ framed.stream
    rw [framed.unsent_eq top]
    rfl

theorem Framed.step (framed : state.Framed encode) (taken : Transition encode state event after) :
    after.Framed encode := by
  cases taken with
  | call core log => exact framed.call core log
  | lock free top => exact framed.lock free top
  | sendRaw top => exact framed.sendRaw top
  | unlock top => exact framed.unlock top
  | panicStore => exact ⟨framed.owned, framed.stream⟩

theorem framed_of_reachable {capacity : Nat}
    (reached : Reachable (· = start capacity) (Steps encode) state) : state.Framed encode := by
  refine reached.invariant ?_ ?_
  · rintro _ rfl
    exact framed_start capacity
  · rintro state after - framed ⟨event, stepped⟩
    exact framed.step (step_iff.mp stepped)

/-- Perform a step; a step that cannot be taken changes nothing. -/
def perform (encode : Encoder) (state : SerialState) (event : SerialEvent) : SerialState :=
  (state.step encode event).getD state

theorem reachable_perform (origin : SerialState) (events : List SerialEvent) :
    Reachable (· = origin) (Steps encode) (events.foldl (perform encode) origin) := by
  induction events using List.reverseRecOn with
  | nil => exact .start rfl
  | append_singleton events event induction =>
      rw [List.foldl_append, List.foldl_cons, List.foldl_nil, perform]
      cases stepped : (events.foldl (perform encode) origin).step encode event with
      | none => exact induction
      | some after => exact induction.next ⟨event, stepped⟩

/-- Whatever the order in which the cores log, a list of records can be read off the beginning of
the stream exactly when these are the first records written and their frames have been sent. -/
theorem frames_prefix_iff (readsBack : encode.ReadsBack) {capacity : Nat} {logs : List OsLog}
    (reached : Reachable (· = start capacity) (Steps encode) state)
    (fits : ∀ log ∈ state.records, log.Fits) (fitLogs : ∀ log ∈ logs, log.Fits) :
    logs.flatMap encode.frame <+: state.port ↔
      logs <+: state.records ∧ (logs.flatMap encode.frame).length ≤ state.port.length := by
  have stream := (framed_of_reachable reached).stream
  have sent : state.port <+: state.records.flatMap encode.frame := ⟨state.unsent, stream⟩
  constructor
  · intro begins
    exact ⟨readsBack.frame.flatMap_prefix Encoder.frame_ne_nil fitLogs fits (begins.trans sent),
      begins.length_le⟩
  · rintro ⟨⟨rest, split⟩, enough⟩
    refine List.prefix_of_prefix_length_le ⟨rest.flatMap encode.frame, ?_⟩ sent enough
    rw [← split, List.flatMap_append]

/-- A record with a short text. -/
def shortLog (data : String) : OsLog := ⟨"info", "kernel", "info", data, "", 0, 1, 1, 0⟩

/-- Two cores log; the second one sends its frame, the first one begins. -/
def crossing : List SerialEvent :=
  [.call 0 (shortLog "a"), .call 1 (shortLog "b"), .lock 1] ++ List.replicate 28 (.sendRaw 1) ++
    [.unlock 1, .lock 0, .sendRaw 0]

/-- The state after that. -/
def crossed : SerialState := crossing.foldl (perform fieldEncoder) (start 2)

theorem frames_prefix_crossed :
    [shortLog "b"].flatMap fieldEncoder.frame <+: crossed.port ↔
      [shortLog "b"] <+: crossed.records ∧
        ([shortLog "b"].flatMap fieldEncoder.frame).length ≤ crossed.port.length := by
  have records : crossed.records = [shortLog "b", shortLog "a"] := by decide
  refine frames_prefix_iff fieldEncoder_readsBack (reachable_perform (start 2) crossing) ?_ ?_
  · rw [records]
    decide
  · decide

/-! ## A call while the port is held -/

/-- The holder of the port has begun another call on top of the one that sends. -/
def Reentered (core : Nat) (state : SerialState) : Prop :=
  state.serial1 = some core ∧ ∃ log below, state.calls core = .waiting log :: below

/-- The port has not moved since `state`, and calls have only been begun. -/
structure SilentSince (encode : Encoder) (core : Nat) (state after : SerialState) : Prop where
  framed : after.Framed encode
  reentered : after.Reentered core
  port : after.port = state.port
  written : after.written = state.written
  grown : ∀ other, state.calls other <:+ after.calls other

/-- No call of any core sends. -/
theorem Reentered.not_sending {core : Nat} (reentered : state.Reentered core)
    (framed : state.Framed encode) {other : Nat} {log : OsLog} {rest : List UInt8}
    {below : List LogPhase} : state.calls other ≠ .sending log rest :: below := by
  intro sends
  obtain ⟨owner, record, lower, top⟩ := reentered
  obtain ⟨holder, -⟩ := framed.holds sends
  obtain rfl := Option.some.inj (owner.symm.trans holder)
  cases top.symm.trans sends

theorem SilentSince.call {core : Nat} (silent : SilentSince encode core state after) (caller : Nat)
    (log : OsLog) :
    SilentSince encode core state { after with
      journal := after.journal.add log
      calls := Function.update after.calls caller (.waiting log :: after.calls caller)
      added := after.added ++ [(caller, log)] } := by
  obtain ⟨owner, record, below, top⟩ := silent.reentered
  refine ⟨silent.framed.call caller log, ⟨owner, ?_⟩, silent.port, silent.written, fun other => ?_⟩
  · by_cases same : core = caller
    · subst same
      exact ⟨_, _, Function.update_self ..⟩
    · exact ⟨record, below, (Function.update_of_ne same ..).trans top⟩
  · refine (silent.grown other).trans ?_
    by_cases same : other = caller
    · subst same
      simp only [Function.update_self]
      exact List.suffix_cons _ _
    · simp only [Function.update_of_ne same]
      exact List.suffix_rfl

theorem SilentSince.step {core : Nat} {last : SerialState}
    (silent : SilentSince encode core state after) (taken : Transition encode after event last) :
    SilentSince encode core state last := by
  cases taken with
  | call caller log => exact silent.call caller log
  | lock free _ => cases silent.reentered.1.symm.trans free
  | sendRaw sends => exact absurd sends (silent.reentered.not_sending silent.framed)
  | unlock sends => exact absurd sends (silent.reentered.not_sending silent.framed)
  | panicStore =>
      obtain ⟨framed, reentered, port, written, grown⟩ := silent
      exact ⟨framed.step .panicStore, reentered, port, written, grown⟩

/-- A fault inside the critical section that logs in turn silences the port: no core sends a byte
any more, and no call that is in progress or begins later ever returns.  Every later state is again
the beginning of such a silence. -/
theorem silent_of_reentered {capacity core : Nat}
    (reached : Reachable (· = start capacity) (Steps encode) state)
    (reentered : state.Reentered core)
    (later : Reachable (· = state) (Steps encode) after) :
    after.Reentered core ∧ after.port = state.port ∧ after.written = state.written ∧
      ∀ other, state.calls other <:+ after.calls other := by
  have silent : SilentSince encode core state after := by
    refine later.invariant ?_ ?_
    · rintro _ rfl
      exact ⟨framed_of_reachable reached, reentered, rfl, rfl, fun _ => List.suffix_rfl⟩
    · rintro middle last - before ⟨event, stepped⟩
      exact before.step (step_iff.mp stepped)
  exact ⟨silent.reentered, silent.port, silent.written, silent.grown⟩

/-- A core faults while it sends. -/
def faulting : List SerialEvent :=
  [.call 0 (shortLog "a"), .lock 0, .sendRaw 0, .call 0 (shortLog "fault")]

/-- Another core logs after the fault. -/
theorem silent_of_faulting :
    let faulted := faulting.foldl (perform fieldEncoder) (start 2)
    let later := [.call 1 (shortLog "b"), .lock 1, .sendRaw 0, .sendRaw 1].foldl
      (perform fieldEncoder) faulted
    later.Reentered 0 ∧ later.port = faulted.port ∧ later.written = faulted.written ∧
      ∀ other, faulted.calls other <:+ later.calls other :=
  silent_of_reentered (reachable_perform (start 2) faulting) ⟨rfl, _, _, rfl⟩
    (reachable_perform _ _)

/-! ## Every record is sent once -/

/-- The records of the calls of a core that wait for the port. -/
def pending (state : SerialState) (core : Nat) : List OsLog :=
  (state.calls core).filterMap LogPhase.waiting?

/-- Every record that was added is written or pending, and the ring has accepted the first ones; it
has accepted all of them as long as it is open. -/
structure Accounted (state : SerialState) : Prop where
  once : ∀ core log, state.written.count (core, log) + (state.pending core).count log =
    state.added.count (core, log)
  accepted : state.journal.accepted <+: state.added.map Prod.snd
  opened : state.journal.capacity ≠ 0 → state.journal.accepted = state.added.map Prod.snd

theorem accounted_start (capacity : Nat) : (start capacity).Accounted :=
  ⟨fun _ _ => rfl, List.prefix_rfl, fun _ => rfl⟩

/-- One core has changed its calls. -/
theorem pending_update {changed : SerialState} {core : Nat} {calls : List LogPhase}
    (same : changed.calls = Function.update state.calls core calls) (other : Nat) :
    changed.pending other =
      if other = core then calls.filterMap LogPhase.waiting? else state.pending other := by
  unfold pending
  rw [same]
  by_cases own : other = core
  · subst own
    rw [if_pos rfl, Function.update_self]
  · rw [if_neg own, Function.update_of_ne own]

/-- The ring accepts a record as long as it is open. -/
theorem accepted_add (journal : Journal OsLog) (log : OsLog) :
    (journal.add log).accepted =
        (if journal.capacity = 0 then journal.accepted else journal.accepted ++ [log]) ∧
      (journal.add log).capacity = journal.capacity := by
  by_cases closed : journal.capacity = 0
  · rw [Journal.add_of_closed closed, if_pos closed]
    exact ⟨rfl, rfl⟩
  · rw [if_neg closed]
    by_cases full : journal.buf.length = journal.capacity
    · rw [Journal.add_of_evicts ⟨closed, full⟩]
      exact ⟨rfl, rfl⟩
    · rw [Journal.add_of_room closed full]
      exact ⟨rfl, rfl⟩

theorem count_pair (core other : Nat) (log record : OsLog) :
    [(core, log)].count (other, record) = if other = core then [log].count record else 0 := by
  by_cases own : other = core
  · subst own
    simp [List.count_singleton]
  · simp [own, Ne.symm own]

theorem Accounted.call (accounted : state.Accounted) (core : Nat) (log : OsLog) :
    Accounted { state with
      journal := state.journal.add log
      calls := Function.update state.calls core (.waiting log :: state.calls core)
      added := state.added ++ [(core, log)] } := by
  obtain ⟨once, accepted, opened⟩ := accounted
  obtain ⟨grown, capacity⟩ := accepted_add state.journal log
  refine ⟨fun other record => ?_, ?_, fun more => ?_⟩
  · have before := once other record
    rw [pending_update rfl, List.count_append, count_pair]
    by_cases own : other = core
    · subst own
      rw [if_pos rfl, if_pos rfl, LogPhase.filterMap_waiting, List.count_append]
      unfold pending at before
      dsimp only
      omega
    · rw [if_neg own, if_neg own]
      exact before
  · dsimp only
    rw [grown, List.map_append]
    split
    · exact accepted.trans (List.prefix_append _ _)
    · rw [opened (by assumption)]
      exact List.prefix_rfl
  · dsimp only at more ⊢
    rw [capacity] at more
    rw [grown, if_neg more, opened more, List.map_append]
    rfl

theorem Accounted.lock (accounted : state.Accounted) {core : Nat} {log : OsLog}
    {below : List LogPhase} (top : state.calls core = .waiting log :: below) :
    Accounted { state with
      serial1 := some core
      calls := Function.update state.calls core (.sending log (encode.frame log) :: below)
      written := state.written ++ [(core, log)] } := by
  refine ⟨fun other record => ?_, accounted.accepted, accounted.opened⟩
  have before := accounted.once other record
  rw [pending_update rfl, List.count_append, count_pair]
  by_cases own : other = core
  · subst own
    rw [pending, top, LogPhase.filterMap_waiting, List.count_append] at before
    rw [if_pos rfl, if_pos rfl, LogPhase.filterMap_sending]
    dsimp only
    omega
  · rw [if_neg own, if_neg own]
    exact before

/-- A step that leaves the lists and the waiting calls. -/
theorem Accounted.congr (accounted : state.Accounted) {core : Nat} {calls : List LogPhase}
    {port : List UInt8} {serial1 : Option Nat}
    (waiting : calls.filterMap LogPhase.waiting? = state.pending core) :
    Accounted { state with port, serial1, calls := Function.update state.calls core calls } := by
  refine ⟨fun other record => ?_, accounted.accepted, accounted.opened⟩
  rw [pending_update rfl, waiting]
  by_cases own : other = core
  · subst own
    rw [if_pos rfl]
    exact accounted.once other record
  · rw [if_neg own]
    exact accounted.once other record

theorem Accounted.step (accounted : state.Accounted) (taken : Transition encode state event after) :
    after.Accounted := by
  cases taken with
  | call core log => exact accounted.call core log
  | lock free top => exact accounted.lock top
  | sendRaw top =>
      refine accounted.congr ?_
      rw [pending, top, LogPhase.filterMap_sending, LogPhase.filterMap_sending]
  | unlock top =>
      refine accounted.congr ?_
      rw [pending, top, LogPhase.filterMap_sending]
  | panicStore =>
      exact ⟨accounted.once, accounted.accepted, fun closed => absurd rfl closed⟩

/-- When no call is in progress, the line has carried the frames of the records in some order: those
that the ring accepted, each of them once, and those that were logged after a panic had closed
it. -/
theorem records_perm {capacity : Nat}
    (reached : Reachable (· = start capacity) (Steps encode) state)
    (idle : ∀ core, state.calls core = []) :
    state.port = state.records.flatMap encode.frame ∧
      ∃ later, state.added.map Prod.snd = state.journal.accepted ++ later ∧
        state.records.Perm (state.journal.accepted ++ later) ∧
        (state.journal.capacity ≠ 0 → later = []) := by
  have accounted : state.Accounted := by
    refine reached.invariant ?_ ?_
    · rintro _ rfl
      exact accounted_start capacity
    · rintro state after - before ⟨event, stepped⟩
      exact before.step (step_iff.mp stepped)
  obtain ⟨once, ⟨later, split⟩, opened⟩ := accounted
  have same : state.written.Perm state.added := by
    rw [List.perm_iff_count]
    rintro ⟨core, log⟩
    have counts := once core log
    rwa [pending, idle core] at counts
  refine ⟨(framed_of_reachable reached).port_of_idle idle, later, split.symm, ?_, fun more => ?_⟩
  · rw [split]
    exact same.map Prod.snd
  · rw [← opened more] at split
    exact List.append_right_eq_self.mp split

/-- Both cores send their frames. -/
def settling : List SerialEvent := crossing ++ List.replicate 27 (.sendRaw 0) ++ [.unlock 0]

/-- The state after that. -/
def settled : SerialState := settling.foldl (perform fieldEncoder) (start 2)

set_option maxRecDepth 4000 in
theorem records_perm_settled :
    settled.port = settled.records.flatMap fieldEncoder.frame ∧
      ∃ later, settled.added.map Prod.snd = settled.journal.accepted ++ later ∧
        settled.records.Perm (settled.journal.accepted ++ later) ∧
        (settled.journal.capacity ≠ 0 → later = []) := by
  refine records_perm (reachable_perform (start 2) settling) ?_
  rintro (_ | _ | core)
  · rfl
  · rfl
  · rfl

/-! ## The order of the records of one core -/

/-- The records of one core in a list. -/
def own (core : Nat) (list : List (Nat × OsLog)) : List OsLog :=
  (list.filter fun entry => entry.1 = core).map Prod.snd

/-- A step in which no handler of the core logs while a call of it is between its two critical
sections. -/
def StepsFlat (encode : Encoder) (core : Nat) (state after : SerialState) : Prop :=
  ∃ event, state.step encode event = some after ∧
    ∀ log, event = .call core log → state.pending core = []

/-- The records of the core have been written in the order of its calls. -/
def Ordered (core : Nat) (state : SerialState) : Prop :=
  own core state.written ++ state.pending core = own core state.added

theorem own_append (core : Nat) (list : List (Nat × OsLog)) (other : Nat) (log : OsLog) :
    own core (list ++ [(other, log)]) = own core list ++ if other = core then [log] else [] := by
  unfold own
  rw [List.filter_append, List.map_append]
  by_cases same : other = core
  · simp [same]
  · simp [same]

/-- The calls of another core have changed. -/
theorem Ordered.elsewhere {core other : Nat} {calls : List LogPhase} {changed : SerialState}
    (ordered : state.Ordered core) (different : other ≠ core)
    (same : changed.calls = Function.update state.calls other calls)
    (written : own core changed.written = own core state.written)
    (added : own core changed.added = own core state.added) : changed.Ordered core := by
  rw [Ordered, pending_update same, if_neg (Ne.symm different), written, added]
  exact ordered

theorem Ordered.step {core : Nat} (ordered : state.Ordered core)
    (taken : Transition encode state event after)
    (flat : ∀ log, event = .call core log → state.pending core = []) : after.Ordered core := by
  have order := ordered
  unfold Ordered pending at order
  cases taken with
  | call caller log =>
      by_cases here : caller = core
      · subst here
        have none := flat log rfl
        unfold pending at none
        rw [Ordered, pending_update rfl, if_pos rfl, own_append, if_pos rfl,
          LogPhase.filterMap_waiting, ← order, none]
        simp
      · refine ordered.elsewhere here rfl rfl ?_
        rw [own_append, if_neg here, List.append_nil]
  | @lock caller log below free top =>
      by_cases here : caller = core
      · subst here
        rw [top, LogPhase.filterMap_waiting] at order
        rw [Ordered, pending_update rfl, if_pos rfl, own_append, if_pos rfl,
          LogPhase.filterMap_sending, List.append_assoc]
        exact order
      · refine ordered.elsewhere here rfl ?_ rfl
        rw [own_append, if_neg here, List.append_nil]
  | @sendRaw caller log byte rest below top =>
      by_cases here : caller = core
      · subst here
        rw [top] at order
        rw [Ordered, pending_update rfl, if_pos rfl]
        exact order
      · exact ordered.elsewhere here rfl rfl rfl
  | @unlock caller log below top =>
      by_cases here : caller = core
      · subst here
        rw [top] at order
        rw [Ordered, pending_update rfl, if_pos rfl]
        exact order
      · exact ordered.elsewhere here rfl rfl rfl
  | panicStore => exact ordered

/-- Frames of one core come in the order of its calls, as long as no handler of it logs between the
two critical sections of a call. -/
theorem written_in_order {capacity core : Nat}
    (reached : Reachable (· = start capacity) (StepsFlat encode core) state) :
    own core state.written ++ state.pending core = own core state.added := by
  have ordered : state.Ordered core := by
    refine reached.invariant ?_ ?_
    · rintro _ rfl
      rfl
    · rintro state after - before ⟨event, stepped, flat⟩
      exact before.step (step_iff.mp stepped) flat
  exact ordered

/-- One record on its way, another one in the ring, and a fault that logs. -/
theorem written_in_order_twice :
    let twice := [.call 0 (shortLog "a"), .lock 0, .call 1 (shortLog "b"),
      .call 0 (shortLog "fault")].foldl (perform fieldEncoder) (start 2)
    own 0 twice.written ++ twice.pending 0 = own 0 twice.added :=
  have called : Reachable (· = start 2) (StepsFlat fieldEncoder 0) _ :=
    .next (.start rfl) ⟨.call 0 (shortLog "a"), rfl, fun _ _ => rfl⟩
  have locked := called.next ⟨.lock 0, rfl, fun _ other => nomatch other⟩
  have crossed := locked.next ⟨.call 1 (shortLog "b"), rfl, fun _ other => nomatch other⟩
  written_in_order (crossed.next ⟨.call 0 (shortLog "fault"), rfl, fun _ _ => rfl⟩)

end SerialState

end Okots
