import Mathlib.Data.Nat.Find
import Mathlib.Logic.Function.Iterate
import Okots.Acpi.AmlMutex

/-!
# The timeout of `acquire`

The loop of `acquire` counts its failed attempts in a `u16`, also when the timeout `0xFFFF` asks it
to wait without end.  A finite timeout stops the loop before the counter overflows; without one the
counter overflows at the attempt number 65536.
-/

namespace Okots

/-- Where a call of `acquire` is. -/
inductive AcquireState where
  /-- In the loop, with the counter `elapsed`. -/
  | trying (elapsed : Nat)
  | returned (result : Except AmlError Unit)
  | panicked

namespace AcquireState

/-- `acquire` before its loop: the owner only counts. -/
def enter (profile : Profile) (myId : BitVec 32) (inner : AmlMutexInner) : AcquireState :=
  if inner.owner = some myId then
    match uintAdd 32 profile inner.count 1 with
    | some _ => .returned (.ok ())
    | none => .panicked
  else
    .trying 0

/-- One iteration of the loop. -/
def next (profile : Profile) (timeout : BitVec 16) (inner : AmlMutexInner) :
    AcquireState → AcquireState
  | .trying elapsed =>
      match inner.attempt profile timeout elapsed with
      | .taken => .returned (.ok ())
      | .timedOut => .returned (.error .mutexAcquireTimeout)
      | .again elapsed => .trying elapsed
      | .overflow => .panicked
  | .returned result => .returned result
  | .panicked => .panicked

/-- The call after a number of attempts; `found` is what each attempt finds. -/
def after (profile : Profile) (myId : BitVec 32) (timeout : BitVec 16) (entry : AmlMutexInner)
    (found : Nat → AmlMutexInner) : Nat → AcquireState
  | 0 => enter profile myId entry
  | attempts + 1 =>
      (after profile myId timeout entry found attempts).next profile timeout (found attempts)

/-! ## A mutex that does not change -/

variable {profile : Profile} {myId : BitVec 32} {timeout : BitVec 16} {entry inner : AmlMutexInner}
  {found : Nat → AmlMutexInner}

theorem after_const (attempts : Nat) :
    after profile myId timeout entry (fun _ => inner) attempts =
      (next profile timeout inner)^[attempts] (enter profile myId entry) := by
  induction attempts with
  | zero => rfl
  | succ attempts induction => rw [after, induction, Function.iterate_succ_apply']

theorem iterate_returned (attempts : Nat) (result : Except AmlError Unit) :
    (next profile timeout inner)^[attempts] (.returned result) = .returned result :=
  Function.iterate_fixed rfl attempts

theorem iterate_of_wait {fuel elapsed : Nat} {result : Except AmlError Unit}
    (waited : inner.wait profile timeout fuel elapsed = some result) :
    (next profile timeout inner)^[fuel] (.trying elapsed) = .returned result := by
  induction fuel generalizing elapsed with
  | zero => simp [AmlMutexInner.wait] at waited
  | succ fuel induction =>
      rw [AmlMutexInner.wait] at waited
      rw [Function.iterate_succ_apply, next]
      cases outcome : inner.attempt profile timeout elapsed with
      | taken | timedOut =>
          simp only [outcome, Option.some.injEq] at waited
          rw [← waited]
          exact iterate_returned fuel _
      | again elapsed =>
          simp only [outcome] at waited
          exact induction waited
      | overflow => simp [outcome] at waited

/-- A call that nothing interferes with ends as `acquire` does. -/
theorem after_of_acquire {result : Except AmlError Unit} {left : AmlMutexInner}
    (returned : inner.acquire profile myId timeout = some (result, left)) :
    after profile myId timeout inner (fun _ => inner) (2 ^ 16) = .returned result := by
  rw [after_const, enter]
  rw [AmlMutexInner.acquire] at returned
  split at returned
  · rename_i own
    obtain ⟨count, sum, pair⟩ := Option.bind_eq_some_iff.mp returned
    obtain ⟨rfl, -⟩ := Prod.mk.inj (Option.some.inj pair)
    simp only [if_pos own, sum]
    exact iterate_returned _ _
  · rename_i foreign
    obtain ⟨outcome, waited, pair⟩ := Option.bind_eq_some_iff.mp returned
    have same : outcome = result := by
      cases outcome with
      | ok value => exact (Prod.mk.inj (Option.some.inj pair)).1
      | error reason => exact (Prod.mk.inj (Option.some.inj pair)).1
    rw [if_neg foreign, ← same]
    exact iterate_of_wait waited

/-! ## Changing mutexes -/

theorem after_add_of_returned {attempts : Nat} {result : Except AmlError Unit}
    (returned : after profile myId timeout entry found attempts = .returned result) (more : Nat) :
    after profile myId timeout entry found (attempts + more) = .returned result := by
  induction more with
  | zero => exact returned
  | succ more induction => rw [← Nat.add_assoc, after, induction, next]

/-- A call returns one result. -/
theorem returned_unique {attempts others : Nat} {result other : Except AmlError Unit}
    (returned : after profile myId timeout entry found attempts = .returned result)
    (again : after profile myId timeout entry found others = .returned other) :
    result = other := by
  have first := after_add_of_returned returned others
  have second := after_add_of_returned again attempts
  rw [Nat.add_comm, first] at second
  exact AcquireState.returned.inj second

/-- A failed attempt before the timeout is counted. -/
theorem next_of_held {elapsed : Nat} (held : inner.lock = true)
    (waiting : timeout ≠ 0xFFFF#16 → elapsed < timeout.toNat) :
    (AcquireState.trying elapsed).next profile timeout inner =
      match uintAdd 16 profile elapsed 1 with
      | some elapsed => .trying elapsed
      | none => .panicked := by
  have unexpired : ¬ (timeout ≠ 0xFFFF#16 ∧ timeout.toNat ≤ elapsed) :=
    fun both => Nat.not_lt.mpr both.2 (waiting both.1)
  rw [next, AmlMutexInner.attempt, if_neg (by simp [held]), if_neg unexpired]
  cases uintAdd 16 profile elapsed 1 <;> rfl

theorem next_of_free {elapsed : Nat} (free : inner.lock = false) :
    (AcquireState.trying elapsed).next profile timeout inner = .returned (.ok ()) := by
  rw [next, AmlMutexInner.attempt, if_pos free]

/-- As long as every attempt fails, the counter is their number. -/
theorem after_of_held (foreign : entry.owner ≠ some myId) {attempts : Nat}
    (held : ∀ attempt < attempts, (found attempt).lock = true) (counted : attempts < 2 ^ 16)
    (waiting : timeout ≠ 0xFFFF#16 → attempts ≤ timeout.toNat) :
    after profile myId timeout entry found attempts = .trying attempts := by
  induction attempts with
  | zero => rw [after, enter, if_neg foreign]
  | succ attempts induction =>
      have before := induction (fun attempt earlier => held attempt (by omega)) (by omega)
        fun finite => Nat.le_of_lt (waiting finite)
      rw [after, before, next_of_held (held attempts (by omega)) waiting,
        uintAdd_of_lt profile counted]

/-- The first success ends the call. -/
theorem after_of_free (foreign : entry.owner ≠ some myId) {attempts : Nat}
    (held : ∀ attempt < attempts, (found attempt).lock = true)
    (free : (found attempts).lock = false) (counted : attempts < 2 ^ 16)
    (waiting : timeout ≠ 0xFFFF#16 → attempts ≤ timeout.toNat) :
    after profile myId timeout entry found (attempts + 1) = .returned (.ok ()) := by
  rw [after, after_of_held foreign held counted waiting, next_of_free free]

theorem after_of_timeout (foreign : entry.owner ≠ some myId) (finite : timeout ≠ 0xFFFF#16)
    (held : ∀ attempt ≤ timeout.toNat, (found attempt).lock = true) :
    after profile myId timeout entry found (timeout.toNat + 1) =
      .returned (.error .mutexAcquireTimeout) := by
  have before : after profile myId timeout entry found timeout.toNat = .trying timeout.toNat :=
    after_of_held foreign (fun attempt earlier => held attempt (Nat.le_of_lt earlier)) timeout.isLt
      fun _ => Nat.le_refl _
  rw [after, before, next, AmlMutexInner.attempt, if_neg (by simp [held _ (Nat.le_refl _)]),
    if_pos ⟨finite, Nat.le_refl _⟩]

/-- After `2 ^ 16` failed attempts the counter has overflowed. -/
theorem after_overflow (foreign : entry.owner ≠ some myId)
    (held : ∀ attempt < 2 ^ 16, (found attempt).lock = true) :
    after profile myId 0xFFFF#16 entry found (2 ^ 16) =
      match profile with
      | .dev => .panicked
      | .release => .trying 0 := by
  have before : after profile myId 0xFFFF#16 entry found (2 ^ 16 - 1) = .trying (2 ^ 16 - 1) :=
    after_of_held foreign (fun attempt earlier => held attempt (by omega)) (by decide)
      fun finite => absurd rfl finite
  have last := held (2 ^ 16 - 1) (by decide)
  rw [show 2 ^ 16 = 2 ^ 16 - 1 + 1 from rfl, after, before,
    next_of_held last fun finite => absurd rfl finite]
  cases profile <;> rfl

/-- Without overflow checks the counter wraps around, and the first success still ends the call. -/
theorem after_release_of_free (foreign : entry.owner ≠ some myId) {attempts : Nat}
    (held : ∀ attempt < attempts, (found attempt).lock = true)
    (free : (found attempts).lock = false) :
    after .release myId 0xFFFF#16 entry found (attempts + 1) = .returned (.ok ()) := by
  have counted : ∀ tried ≤ attempts,
      after .release myId 0xFFFF#16 entry found tried = .trying (tried % 2 ^ 16) := by
    intro tried
    induction tried with
    | zero =>
        intro _
        rw [after, enter, if_neg foreign, Nat.zero_mod]
    | succ tried induction =>
        intro within
        rw [after, induction (by omega), next_of_held (held tried within) fun finite =>
          absurd rfl finite]
        by_cases fits : tried % 2 ^ 16 + 1 < 2 ^ 16
        · rw [uintAdd_of_lt .release fits]
          simp only [trying.injEq]
          omega
        · simp only [uintAdd, uintWrap, if_neg fits, trying.injEq]
          omega
  rw [after, counted attempts (Nat.le_refl _), next_of_free free]

/-- What a call of `acquire` is to do with its timeout, given what its attempts find. -/
structure HonoursTimeout (profile : Profile) (myId : BitVec 32) (timeout : BitVec 16)
    (entry : AmlMutexInner) (found : Nat → AmlMutexInner) : Prop where
  granted : timeout ≠ 0xFFFF#16 →
    ((∃ attempts, after profile myId timeout entry found attempts = .returned (.ok ())) ↔
      ∃ attempt ≤ timeout.toNat, (found attempt).lock = false)
  timedOut : timeout ≠ 0xFFFF#16 →
    ((∃ attempts, after profile myId timeout entry found attempts =
        .returned (.error .mutexAcquireTimeout)) ↔
      ¬ ∃ attempt ≤ timeout.toNat, (found attempt).lock = false)
  /-- Without a timeout the counter counts every failed attempt, and the first success ends the
  call. -/
  endless : timeout = 0xFFFF#16 → ∀ attempts,
    (∀ attempt < attempts, (found attempt).lock = true) →
      after profile myId timeout entry found attempts = .trying attempts ∧
      ((found attempts).lock = false →
        after profile myId timeout entry found (attempts + 1) = .returned (.ok ()))

/-- With a finite timeout, the call ends with the first success up to the timeout or with the
error. -/
theorem outcome_of_finite (foreign : entry.owner ≠ some myId) (finite : timeout ≠ 0xFFFF#16) :
    ((∃ attempt ≤ timeout.toNat, (found attempt).lock = false) ∧
        ∃ attempts, after profile myId timeout entry found attempts = .returned (.ok ())) ∨
      ((¬ ∃ attempt ≤ timeout.toNat, (found attempt).lock = false) ∧
        ∃ attempts, after profile myId timeout entry found attempts =
          .returned (.error .mutexAcquireTimeout)) := by
  by_cases free : ∃ attempt ≤ timeout.toNat, (found attempt).lock = false
  · obtain ⟨least, within, success⟩ := free
    have succeeds : ∃ attempt, (found attempt).lock = false := ⟨least, success⟩
    have first : Nat.find succeeds ≤ timeout.toNat :=
      Nat.le_trans (Nat.find_min' succeeds success) within
    refine .inl ⟨⟨least, within, success⟩, Nat.find succeeds + 1, ?_⟩
    refine after_of_free foreign (fun attempt earlier => ?_) (Nat.find_spec succeeds)
      (Nat.lt_of_le_of_lt first timeout.isLt) fun _ => first
    exact eq_true_of_ne_false (Nat.find_min succeeds earlier)
  · refine .inr ⟨free, _, after_of_timeout foreign finite fun attempt within => ?_⟩
    exact eq_true_of_ne_false fun success => free ⟨attempt, within, success⟩

theorem not_honoursTimeout_of_held (foreign : entry.owner ≠ some myId)
    (held : ∀ attempt < 2 ^ 16, (found attempt).lock = true) :
    ¬ HonoursTimeout profile myId 0xFFFF#16 entry found := by
  intro honours
  have counted := (honours.endless rfl (2 ^ 16) held).1
  rw [after_overflow foreign held] at counted
  cases profile <;> simp at counted

/-- `acquire` honours its timeout exactly if the timeout is finite or one of the first `2 ^ 16`
attempts succeeds. -/
theorem honoursTimeout_iff (profile : Profile) (myId : BitVec 32) (timeout : BitVec 16)
    (entry : AmlMutexInner) (found : Nat → AmlMutexInner) (foreign : entry.owner ≠ some myId) :
    HonoursTimeout profile myId timeout entry found ↔
      (timeout = 0xFFFF#16 → ∃ attempt < 2 ^ 16, (found attempt).lock = false) := by
  constructor
  · rintro honours rfl
    by_contra none
    refine not_honoursTimeout_of_held foreign (fun attempt below => ?_) honours
    exact eq_true_of_ne_false fun success => none ⟨attempt, below, success⟩
  · intro succeeds
    refine ⟨fun finite => ?_, fun finite => ?_, fun endless attempts held => ?_⟩
    · rcases outcome_of_finite foreign finite with ⟨free, taken⟩ | ⟨none, expired⟩
      · exact iff_of_true taken free
      · refine iff_of_false ?_ none
        rintro ⟨attempts, taken⟩
        obtain ⟨others, expired⟩ := expired
        exact absurd (returned_unique taken expired) (by simp)
    · rcases outcome_of_finite foreign finite with ⟨free, taken⟩ | ⟨none, expired⟩
      · refine iff_of_false ?_ (not_not.mpr free)
        rintro ⟨attempts, expired⟩
        obtain ⟨others, taken⟩ := taken
        exact absurd (returned_unique taken expired) (by simp)
      · exact iff_of_true expired none
    · obtain ⟨success, below, free⟩ := succeeds endless
      have earlier : attempts ≤ success := by
        by_contra later
        exact absurd (held success (Nat.lt_of_not_le later)) (by simp [free])
      have waiting : timeout ≠ 0xFFFF#16 → attempts ≤ timeout.toNat :=
        fun finite => absurd endless finite
      exact ⟨after_of_held foreign held (by omega) waiting,
        fun free => after_of_free foreign held free (by omega) waiting⟩

/-- A mutex that another core holds and releases after a number of attempts. -/
def releasedAfter (attempts attempt : Nat) : AmlMutexInner :=
  if attempt < attempts then ⟨true, some 1, 1⟩ else ⟨false, none, 0⟩

theorem honoursTimeout_iff_releasedAfter :
    HonoursTimeout .dev 0 0xFFFF#16 ⟨true, some 1, 1⟩ (releasedAfter 3) :=
  (honoursTimeout_iff .dev 0 0xFFFF#16 ⟨true, some 1, 1⟩ (releasedAfter 3) (by decide)).mpr
    fun _ => ⟨3, by decide, rfl⟩

/-- A mutex that is free at the attempt after `2 ^ 16` failed ones: with overflow checks the call
has panicked before, without them the counter has wrapped around. -/
theorem releasedAfter_not_honoursTimeout :
    after .dev 0 0xFFFF#16 ⟨true, some 1, 1⟩ (releasedAfter (2 ^ 16)) (2 ^ 16) = .panicked ∧
      after .release 0 0xFFFF#16 ⟨true, some 1, 1⟩ (releasedAfter (2 ^ 16)) (2 ^ 16) =
        .trying 0 ∧
      ∀ profile, ¬ HonoursTimeout profile 0 0xFFFF#16 ⟨true, some 1, 1⟩
        (releasedAfter (2 ^ 16)) := by
  have foreign : (⟨true, some 1, 1⟩ : AmlMutexInner).owner ≠ some 0 := by decide
  have held : ∀ attempt < 2 ^ 16, (releasedAfter (2 ^ 16) attempt).lock = true := by
    intro attempt below
    rw [releasedAfter, if_pos below]
  exact ⟨after_overflow foreign held, after_overflow foreign held,
    fun _ => not_honoursTimeout_of_held foreign held⟩

end AcquireState
end Okots
