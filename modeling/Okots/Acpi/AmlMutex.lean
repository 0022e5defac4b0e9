import Mathlib.Logic.Function.Basic
import Mathlib.Tactic.Common
import Okots.Library.Reachable
import Okots.UtilTypes

/-!
# AML mutexes

The interpreter creates, acquires and releases mutexes through the handler, which keeps them in the
table `AML_MUTEXES`.  A call holds the lock of the table from its first step to its last, so calls
are atomic.  `release` does not ask who calls it: the mutex is taken from its owner as soon as the
calls of all cores together have brought its count to zero.
-/

namespace Okots

open TransitionSystem

/-- `AmlMutexInner`; `lock` says whether the inner lock is held. -/
structure AmlMutexInner where
  lock : Bool
  owner : Option (BitVec 32)
  /-- A `u32`. -/
  count : Nat
  deriving DecidableEq

/-- The errors of `acquire`. -/
inductive AmlError where
  | prtInvalidAddress
  | mutexAcquireTimeout
  deriving DecidableEq

/-! ## One mutex -/

namespace AmlMutexInner

/-- What one iteration of the loop of `acquire` finds. -/
inductive Attempt where
  | taken
  | timedOut
  | again (elapsed : Nat)
  | overflow

/-- An iteration of the loop of `acquire`; `elapsed` is a `u16`. -/
def attempt (profile : Profile) (inner : AmlMutexInner) (timeout : BitVec 16) (elapsed : Nat) :
    Attempt :=
  if inner.lock = false then
    .taken
  else if timeout ≠ 0xFFFF#16 ∧ timeout.toNat ≤ elapsed then
    .timedOut
  else
    match uintAdd 16 profile elapsed 1 with
    | some next => .again next
    | none => .overflow

/-- The loop of `acquire`, while nothing else happens to the mutex; `none` if no iteration ends
it. -/
def wait (profile : Profile) (inner : AmlMutexInner) (timeout : BitVec 16) :
    Nat → Nat → Option (Except AmlError Unit)
  | 0, _ => none
  | fuel + 1, elapsed =>
      match inner.attempt profile timeout elapsed with
      | .taken => some (.ok ())
      | .timedOut => some (.error .mutexAcquireTimeout)
      | .again next => wait profile inner timeout fuel next
      | .overflow => none

/-- `acquire` on the mutex of a handle.  The counter of the loop has `2 ^ 16` values, so a call that
does not return within as many iterations never does. -/
def acquire (profile : Profile) (myId : BitVec 32) (timeout : BitVec 16) (inner : AmlMutexInner) :
    Option (Except AmlError Unit × AmlMutexInner) :=
  if inner.owner = some myId then do
    let count ← uintAdd 32 profile inner.count 1
    return (.ok (), { inner with count })
  else do
    match ← inner.wait profile timeout (2 ^ 16) 0 with
    | .ok () => return (.ok (), ⟨true, some myId, 1⟩)
    | .error reason => return (.error reason, inner)

/-- `release` on the mutex of a handle. -/
def release (inner : AmlMutexInner) : AmlMutexInner :=
  if 0 < inner.count then
    if inner.count - 1 = 0 then
      ⟨false, none, 0⟩
    else
      { inner with count := inner.count - 1 }
  else
    inner

/-- A new mutex. -/
def fresh : AmlMutexInner := ⟨false, none, 0⟩

variable {profile : Profile} {inner : AmlMutexInner} {timeout : BitVec 16}

theorem lock_of_taken {elapsed : Nat} (taken : inner.attempt profile timeout elapsed = .taken) :
    inner.lock = false := by
  by_contra held
  rw [attempt, if_neg held] at taken
  split at taken
  · cases taken
  · cases sum : uintAdd 16 profile elapsed 1 <;> simp [sum] at taken

theorem lock_of_timedOut {elapsed : Nat}
    (expired : inner.attempt profile timeout elapsed = .timedOut) :
    inner.lock = true ∧ timeout ≠ 0xFFFF#16 := by
  rw [attempt] at expired
  split at expired
  · cases expired
  · rename_i held
    split at expired
    · rename_i passed
      exact ⟨eq_true_of_ne_false held, passed.1⟩
    · cases sum : uintAdd 16 profile elapsed 1 <;> simp [sum] at expired

theorem wait_of_free (free : inner.lock = false) (fuel elapsed : Nat) :
    inner.wait profile timeout (fuel + 1) elapsed = some (.ok ()) := by
  rw [wait, attempt, if_pos free]

/-- The loop does not take a lock that is held. -/
theorem wait_ne_ok (held : inner.lock = true) (fuel elapsed : Nat) :
    inner.wait profile timeout fuel elapsed ≠ some (.ok ()) := by
  induction fuel generalizing elapsed with
  | zero => simp [wait]
  | succ fuel induction =>
      rw [wait, attempt, if_neg (by simp [held])]
      by_cases expired : timeout ≠ 0xFFFF#16 ∧ timeout.toNat ≤ elapsed
      · simp [expired]
      · rw [if_neg expired]
        cases uintAdd 16 profile elapsed 1 with
        | none => simp
        | some next => exact induction next

/-- Without a timeout nothing ends the wait for a lock that is held. -/
theorem wait_forever (held : inner.lock = true) (fuel elapsed : Nat) :
    inner.wait profile 0xFFFF#16 fuel elapsed = none := by
  induction fuel generalizing elapsed with
  | zero => rfl
  | succ fuel induction =>
      rw [wait, attempt, if_neg (by simp [held]), if_neg (by simp)]
      cases uintAdd 16 profile elapsed 1 with
      | none => rfl
      | some next => exact induction next

theorem wait_times_out (held : inner.lock = true) (finite : timeout ≠ 0xFFFF#16)
    {fuel elapsed : Nat} (begun : elapsed ≤ timeout.toNat)
    (enough : timeout.toNat < elapsed + fuel) :
    inner.wait profile timeout fuel elapsed = some (.error .mutexAcquireTimeout) := by
  induction fuel generalizing elapsed with
  | zero => omega
  | succ fuel induction =>
      rw [wait, attempt, if_neg (by simp [held])]
      by_cases expired : timeout.toNat ≤ elapsed
      · rw [if_pos ⟨finite, expired⟩]
      · have fits : elapsed + 1 < 2 ^ 16 := by
          have := timeout.isLt
          omega
        rw [if_neg fun both => expired both.2, uintAdd_of_lt profile fits]
        exact induction (by omega) (by omega)

/-- The outcomes of `acquire`. -/
theorem acquire_cases {myId : BitVec 32} {result : Except AmlError Unit} {after : AmlMutexInner}
    (returned : inner.acquire profile myId timeout = some (result, after)) :
    (∃ reason, result = .error reason ∧ inner.owner ≠ some myId ∧ after = inner) ∨
      (result = .ok () ∧ inner.owner = some myId ∧
        ∃ count, uintAdd 32 profile inner.count 1 = some count ∧ after = { inner with count }) ∨
      (result = .ok () ∧ inner.owner ≠ some myId ∧ inner.lock = false ∧
        after = ⟨true, some myId, 1⟩) := by
  rw [acquire] at returned
  by_cases own : inner.owner = some myId
  · rw [if_pos own] at returned
    obtain ⟨count, sum, pair⟩ := Option.bind_eq_some_iff.mp returned
    obtain ⟨rfl, rfl⟩ := Prod.mk.inj (Option.some.inj pair)
    exact .inr (.inl ⟨rfl, own, count, sum, rfl⟩)
  · rw [if_neg own] at returned
    obtain ⟨outcome, waited, pair⟩ := Option.bind_eq_some_iff.mp returned
    cases outcome with
    | ok value =>
        obtain ⟨rfl, rfl⟩ := Prod.mk.inj (Option.some.inj pair)
        refine .inr (.inr ⟨rfl, own, ?_, rfl⟩)
        exact Bool.eq_false_iff.mpr fun held => wait_ne_ok held _ _ waited
    | error reason =>
        obtain ⟨rfl, rfl⟩ := Prod.mk.inj (Option.some.inj pair)
        exact .inl ⟨reason, rfl, own, rfl⟩

theorem acquire_of_free {myId : BitVec 32} (foreign : inner.owner ≠ some myId)
    (free : inner.lock = false) :
    inner.acquire profile myId timeout = some (.ok (), ⟨true, some myId, 1⟩) := by
  have taken : inner.wait profile timeout (2 ^ 16) 0 = some (.ok ()) :=
    wait_of_free free (2 ^ 16 - 1) 0
  rw [acquire, if_neg foreign, taken]
  rfl

theorem acquire_of_timeout {myId : BitVec 32} (foreign : inner.owner ≠ some myId)
    (held : inner.lock = true) (finite : timeout ≠ 0xFFFF#16) :
    inner.acquire profile myId timeout = some (.error .mutexAcquireTimeout, inner) := by
  rw [acquire, if_neg foreign, wait_times_out held finite (Nat.zero_le _) (by omega)]
  rfl

/-- A call of `acquire` does not return exactly if the count of its owner overflows with checks, or
if it waits without a timeout for a lock that is held. -/
theorem acquire_eq_none_iff {myId : BitVec 32} :
    inner.acquire profile myId timeout = none ↔
      (inner.owner = some myId ∧ uintAdd 32 profile inner.count 1 = none) ∨
        (inner.owner ≠ some myId ∧ inner.lock = true ∧ timeout = 0xFFFF#16) := by
  by_cases own : inner.owner = some myId
  · rw [acquire, if_pos own]
    cases uintAdd 32 profile inner.count 1 <;> simp [own]
  · cases held : inner.lock with
    | false =>
        rw [acquire_of_free own held]
        simp [own]
    | true =>
        by_cases endless : timeout = 0xFFFF#16
        · rw [acquire, if_neg own, endless, wait_forever held]
          simp [own]
        · rw [acquire_of_timeout own held endless]
          simp [own, endless]

end AmlMutexInner

/-! ## The table -/

namespace TmpHandler

/-- `create_mutex`. -/
def createMutex (mutexes : List AmlMutexInner) : BitVec 32 × List AmlMutexInner :=
  (BitVec.ofNat 32 mutexes.length, mutexes ++ [.fresh])

/-- `acquire`; `none` if the call does not return. -/
def acquire (profile : Profile) (whoAmI : Option (BitVec 32)) (handle : BitVec 32)
    (timeout : BitVec 16) (mutexes : List AmlMutexInner) :
    Option (Except AmlError Unit × List AmlMutexInner) := do
  let inner ← mutexes[handle.toNat]?
  match whoAmI with
  | none => return (.error .prtInvalidAddress, mutexes)
  | some myId =>
      let (result, after) ← inner.acquire profile myId timeout
      return (result, mutexes.set handle.toNat after)

/-- `release`; `none` if the call does not return. -/
def release (handle : BitVec 32) (mutexes : List AmlMutexInner) : Option (List AmlMutexInner) := do
  let inner ← mutexes[handle.toNat]?
  return mutexes.set handle.toNat inner.release

end TmpHandler

/-- The calls of the interpreter. -/
inductive AmlCall where
  | createMutex
  | acquire (handle : BitVec 32) (timeout : BitVec 16)
  | release (handle : BitVec 32)
  deriving DecidableEq

/-- A call and the core that makes it, under the number that `who_am_i` gives it. -/
structure AmlRequest where
  core : BitVec 32
  call : AmlCall
  deriving DecidableEq

/-- The table and what the cores have done with its mutexes. -/
structure AmlSystem where
  mutexes : List AmlMutexInner
  /-- A call that does not return keeps the table locked. -/
  stuck : Bool
  /-- The successful acquires of a mutex that the same core has not matched by a release. -/
  depth : Nat → BitVec 32 → Nat

namespace AmlSystem

/-- No mutex has been created. -/
def start : AmlSystem := ⟨[], false, fun _ _ => 0⟩

/-- Records that a core has a depth at a mutex. -/
def setDepth (system : AmlSystem) (handle : BitVec 32) (core : BitVec 32) (depth : Nat) :
    Nat → BitVec 32 → Nat :=
  Function.update system.depth handle.toNat
    (Function.update (system.depth handle.toNat) core depth)

/-- Serves a request. -/
def step (profile : Profile) (system : AmlSystem) (request : AmlRequest) : AmlSystem :=
  if system.stuck then
    system
  else
    match request.call with
    | .createMutex => { system with mutexes := (TmpHandler.createMutex system.mutexes).2 }
    | .acquire handle timeout =>
        match TmpHandler.acquire profile (some request.core) handle timeout system.mutexes with
        | none => { system with stuck := true }
        | some (.error _, mutexes) => { system with mutexes }
        | some (.ok _, mutexes) =>
            { system with
              mutexes
              depth := system.setDepth handle request.core
                (system.depth handle.toNat request.core + 1) }
    | .release handle =>
        match TmpHandler.release handle system.mutexes with
        | none => { system with stuck := true }
        | some mutexes =>
            { system with
              mutexes
              depth := system.setDepth handle request.core
                (system.depth handle.toNat request.core - 1) }

end AmlSystem

/-! ## Turns at one mutex -/

namespace AmlMutexInner

/-- The lock is held, the owner is known and the count is positive, or none of this. -/
def Consistent (inner : AmlMutexInner) : Prop :=
  (inner.lock = true ↔ inner.owner.isSome = true) ∧ (inner.owner.isSome = true ↔ 0 < inner.count)

/-- The cells agree with the depths of the cores. -/
structure Sound (inner : AmlMutexInner) (depth : BitVec 32 → Nat) : Prop where
  consistent : inner.Consistent
  bounded : inner.count < 2 ^ 32
  owned : ∀ core, inner.owner = some core → inner.count ≤ depth core
  outside : ∀ core, inner.owner ≠ some core → depth core = 0

/-- A turn of `core` leaves the cells consistent, makes no other core lose the mutex, and every core
with an unmatched acquire owns the mutex. -/
structure Secure (core : BitVec 32) (inner after : AmlMutexInner) (depth : BitVec 32 → Nat) :
    Prop where
  consistent : after.Consistent
  owned : ∀ holder, 0 < depth holder → after.owner = some holder
  kept : ∀ holder, inner.owner = some holder → holder ≠ core → after.owner = some holder

/-- If a release of `core` frees the mutex, it matches the last open acquire of the owner. -/
def Matched (inner : AmlMutexInner) (depth : BitVec 32 → Nat) (core : BitVec 32) : Prop :=
  inner.count = 1 → inner.owner = some core ∧ depth core = 1

theorem release_of_zero {inner : AmlMutexInner} (zero : inner.count = 0) :
    inner.release = inner := by
  rw [release, if_neg (by omega)]

theorem release_of_one {inner : AmlMutexInner} (one : inner.count = 1) : inner.release = fresh := by
  rw [release, if_pos (by omega), if_pos (by omega), fresh]

theorem release_of_gt {inner : AmlMutexInner} (nested : 1 < inner.count) :
    inner.release = { inner with count := inner.count - 1 } := by
  rw [release, if_pos (by omega), if_neg (by omega)]

theorem sound_fresh : fresh.Sound fun _ => 0 where
  consistent := by simp [Consistent, fresh]
  bounded := by simp [fresh]
  owned core owner := by simp [fresh] at owner
  outside core foreign := rfl

section Turn

variable {inner : AmlMutexInner} {depth : BitVec 32 → Nat} {core : BitVec 32}
  (sound : inner.Sound depth)

include sound

theorem Sound.owner_of_depth {holder : BitVec 32} (positive : 0 < depth holder) :
    inner.owner = some holder := by
  by_contra foreign
  have := sound.outside holder foreign
  omega

theorem Sound.owner_of_count (positive : 0 < inner.count) :
    ∃ holder, inner.owner = some holder :=
  Option.isSome_iff_exists.mp (sound.consistent.2.mpr positive)

theorem Sound.owner_of_free (free : inner.lock = false) : inner.owner = none := by
  have consistent := sound.consistent.1
  cases owner : inner.owner with
  | none => rfl
  | some holder => simp [free, owner] at consistent

/-- Taking a free mutex. -/
theorem Sound.take (free : inner.lock = false) :
    Sound ⟨true, some core, 1⟩ (Function.update depth core (depth core + 1)) where
  consistent := by simp [Consistent]
  bounded := show 1 < 2 ^ 32 by omega
  owned holder owner := by
    obtain rfl := Option.some.inj owner
    simp
  outside holder foreign := by
    have other : holder ≠ core := fun same => foreign (by rw [same])
    rw [Function.update_of_ne other]
    exact sound.outside holder (by simp [sound.owner_of_free free])

theorem Sound.secure_take (free : inner.lock = false) :
    Secure core inner ⟨true, some core, 1⟩ (Function.update depth core (depth core + 1)) where
  consistent := (sound.take free).consistent
  owned holder positive := (sound.take free).owner_of_depth positive
  kept holder owner _ := by simp [sound.owner_of_free free] at owner

/-- Entering again. -/
theorem Sound.reenter (own : inner.owner = some core) (fits : inner.count + 1 < 2 ^ 32) :
    Sound { inner with count := inner.count + 1 }
      (Function.update depth core (depth core + 1)) where
  consistent := by
    refine ⟨sound.consistent.1, ?_⟩
    simp [own]
  bounded := fits
  owned holder owner := by
    obtain rfl : core = holder := Option.some.inj (own.symm.trans owner)
    have := sound.owned core own
    rw [Function.update_self]
    exact Nat.succ_le_succ this
  outside holder foreign := by
    have other : holder ≠ core := fun same => foreign (by rw [same]; exact own)
    rw [Function.update_of_ne other]
    exact sound.outside holder foreign

theorem Sound.secure_reenter_iff {profile : Profile} {count : Nat} (own : inner.owner = some core)
    (sum : uintAdd 32 profile inner.count 1 = some count) :
    Secure core inner { inner with count } (Function.update depth core (depth core + 1)) ↔
      inner.count + 1 < 2 ^ 32 := by
  constructor
  · intro secure
    by_contra wraps
    have positive : 0 < count := secure.consistent.2.mp (by simp [own])
    have bounded := sound.bounded
    rw [uintAdd] at sum
    unfold uintWrap at sum
    rw [if_neg wraps] at sum
    cases profile with
    | dev => simp at sum
    | release =>
        have := Option.some.inj sum
        omega
  · intro fits
    obtain rfl := Option.some.inj ((uintAdd_of_lt profile fits).symm.trans sum)
    have after := sound.reenter own fits
    refine ⟨after.consistent, fun holder positive => after.owner_of_depth positive, ?_⟩
    exact fun holder owner _ => owner

theorem Sound.depth_of_zero (zero : inner.count = 0) (holder : BitVec 32) : depth holder = 0 := by
  apply sound.outside holder
  intro owner
  have positive := sound.consistent.2.mp (by simp [owner])
  omega

theorem Sound.release (matched : inner.Matched depth core) :
    inner.release.Sound (Function.update depth core (depth core - 1)) := by
  obtain zero | one | nested : inner.count = 0 ∨ inner.count = 1 ∨ 1 < inner.count := by omega
  · have same : depth core - 1 = depth core := by rw [sound.depth_of_zero zero core]
    rw [release_of_zero zero, same, Function.update_eq_self]
    exact sound
  · obtain ⟨own, last⟩ := matched one
    have empty : Function.update depth core (depth core - 1) = fun _ => 0 := by
      funext holder
      by_cases same : holder = core
      · rw [same, Function.update_self, last]
      · rw [Function.update_of_ne same]
        exact sound.outside holder fun owner => same (Option.some.inj (owner.symm.trans own))
    rw [release_of_one one, empty]
    exact sound_fresh
  · have bounded := sound.bounded
    rw [release_of_gt nested]
    refine ⟨⟨sound.consistent.1, ?_⟩, ?_, ?_, ?_⟩
    · exact ⟨fun _ => by simp only; omega, fun _ => sound.consistent.2.mpr (by omega)⟩
    · exact Nat.lt_of_le_of_lt (Nat.sub_le _ _) bounded
    · intro holder owner
      have deep := sound.owned holder owner
      by_cases same : holder = core
      · rw [← same, Function.update_self]
        exact Nat.sub_le_sub_right deep 1
      · rw [Function.update_of_ne same]
        exact Nat.le_trans (Nat.sub_le _ _) deep
    · intro holder foreign
      have out := sound.outside holder foreign
      by_cases same : holder = core
      · rw [← same, Function.update_self, out]
      · rw [Function.update_of_ne same, out]

theorem Sound.secure_release_iff :
    Secure core inner inner.release (Function.update depth core (depth core - 1)) ↔
      inner.Matched depth core := by
  constructor
  · intro secure one
    obtain ⟨holder, owner⟩ := sound.owner_of_count (by omega)
    have freed : inner.release.owner = none := by rw [release_of_one one, fresh]
    obtain rfl : holder = core := by
      by_contra other
      have kept := secure.kept holder owner other
      simp [freed] at kept
    refine ⟨owner, ?_⟩
    have deep := sound.owned holder owner
    by_contra more
    have kept := secure.owned holder (by rw [Function.update_self]; omega)
    simp [freed] at kept
  · intro matched
    have after := sound.release matched
    refine ⟨after.consistent, fun holder positive => after.owner_of_depth positive, ?_⟩
    intro holder owner other
    obtain zero | one | nested : inner.count = 0 ∨ inner.count = 1 ∨ 1 < inner.count := by omega
    · rw [release_of_zero zero]
      exact owner
    · exact absurd (Option.some.inj (owner.symm.trans (matched one).1)) other
    · rw [release_of_gt nested]
      exact owner

end Turn

end AmlMutexInner

/-! ## Runs -/

/-- The index of the mutex that a call is about. -/
def AmlCall.target : AmlCall → Option Nat
  | createMutex => none
  | acquire handle _ => some handle.toNat
  | release handle => some handle.toNat

namespace AmlSystem

/-- Every mutex has consistent cells, a mutex is granted only if it is free or the caller owns it,
a core with more acquires than releases owns the mutex, no core loses a mutex by the request of
another one, and the other mutexes stay as they are. -/
structure Exclusive (profile : Profile) (system : AmlSystem) (request : AmlRequest) : Prop where
  consistent : ∀ inner ∈ (system.step profile request).mutexes, inner.Consistent
  granted : ∀ handle timeout mutexes inner, request.call = .acquire handle timeout →
    TmpHandler.acquire profile (some request.core) handle timeout system.mutexes =
      some (.ok (), mutexes) →
    system.mutexes[handle.toNat]? = some inner →
    inner.owner = none ∨ inner.owner = some request.core
  owned : ∀ (index : Nat) inner holder, (system.step profile request).mutexes[index]? = some inner →
    0 < (system.step profile request).depth index holder → inner.owner = some holder
  kept : ∀ (index : Nat) inner holder, system.mutexes[index]? = some inner →
    inner.owner = some holder → holder ≠ request.core →
    ∃ after, (system.step profile request).mutexes[index]? = some after ∧
      after.owner = some holder
  others : ∀ index < system.mutexes.length, request.call.target ≠ some index →
    (system.step profile request).mutexes[index]? = system.mutexes[index]?

/-- A release that frees a mutex matches the last open acquire of its owner, and no count wraps. -/
def Matched (profile : Profile) (system : AmlSystem) (request : AmlRequest) : Prop :=
  system.stuck = false → ∀ index inner, request.call.target = some index →
    system.mutexes[index]? = some inner →
    match request.call with
    | .createMutex => True
    | .acquire _ _ =>
        inner.owner = some request.core → profile = .release → inner.count + 1 < 2 ^ 32
    | .release _ => inner.Matched (system.depth index) request.core

/-- The mutexes agree with the depths, and nobody has entered a mutex that does not exist. -/
structure Sound (system : AmlSystem) : Prop where
  entries : ∀ (index : Nat) inner, system.mutexes[index]? = some inner →
    inner.Sound (system.depth index)
  beyond : ∀ index, system.mutexes.length ≤ index → system.depth index = fun _ => 0

/-- The system in which a turn of `core` has replaced a mutex. -/
def settle (system : AmlSystem) (handle core : BitVec 32) (inner : AmlMutexInner) (depth : Nat) :
    AmlSystem :=
  { system with
    mutexes := system.mutexes.set handle.toNat inner
    depth := system.setDepth handle core depth }

section Settle

variable {system : AmlSystem} {handle core : BitVec 32} {inner next : AmlMutexInner} {depth : Nat}

theorem mutexes_settle_self (entry : system.mutexes[handle.toNat]? = some inner) :
    (system.settle handle core next depth).mutexes[handle.toNat]? = some next := by
  obtain ⟨inside, -⟩ := List.getElem?_eq_some_iff.mp entry
  exact List.getElem?_set_self inside

theorem mutexes_settle_of_ne {index : Nat} (other : index ≠ handle.toNat) :
    (system.settle handle core next depth).mutexes[index]? = system.mutexes[index]? :=
  List.getElem?_set_ne other.symm

theorem depth_settle_self :
    (system.settle handle core next depth).depth handle.toNat =
      Function.update (system.depth handle.toNat) core depth :=
  Function.update_self _ _ _

theorem depth_settle_of_ne {index : Nat} (other : index ≠ handle.toNat) :
    (system.settle handle core next depth).depth index = system.depth index :=
  Function.update_of_ne other _ _

theorem Sound.settle (sound : system.Sound) (entry : system.mutexes[handle.toNat]? = some inner)
    (turn : next.Sound (Function.update (system.depth handle.toNat) core depth)) :
    (system.settle handle core next depth).Sound := by
  refine ⟨?_, ?_⟩
  · intro index other found
    by_cases same : index = handle.toNat
    · subst same
      rw [mutexes_settle_self entry] at found
      obtain rfl := Option.some.inj found
      rw [depth_settle_self]
      exact turn
    · rw [mutexes_settle_of_ne same] at found
      rw [depth_settle_of_ne same]
      exact sound.entries index other found
  · intro index far
    obtain ⟨inside, -⟩ := List.getElem?_eq_some_iff.mp entry
    rw [AmlSystem.settle, List.length_set] at far
    rw [depth_settle_of_ne (by omega)]
    exact sound.beyond index far

end Settle

section Request

variable {profile : Profile} {system : AmlSystem} {request : AmlRequest} {handle core : BitVec 32}
  {timeout : BitVec 16} {inner next : AmlMutexInner}

/-- What a request does: it changes nothing, it creates a mutex, or it is a turn at a mutex, which
is secure exactly if it is matched. -/
inductive Served (profile : Profile) (system : AmlSystem) (request : AmlRequest) : Prop
  | same (mutexes : (system.step profile request).mutexes = system.mutexes)
      (depth : (system.step profile request).depth = system.depth)
      (matched : system.Matched profile request)
  | created (call : request.call = .createMutex)
      (mutexes : (system.step profile request).mutexes = system.mutexes ++ [.fresh])
      (depth : (system.step profile request).depth = system.depth)
  | settled (handle : BitVec 32) (inner next : AmlMutexInner) (depth : Nat)
      (target : request.call.target = some handle.toNat)
      (entry : system.mutexes[handle.toNat]? = some inner)
      (after : system.step profile request = system.settle handle request.core next depth)
      (secure : inner.Secure request.core next
          (Function.update (system.depth handle.toNat) request.core depth) ↔
        system.Matched profile request)
      (sound : system.Matched profile request →
        next.Sound (Function.update (system.depth handle.toNat) request.core depth))

theorem matched_of_missing (target : request.call.target = some handle.toNat)
    (missing : system.mutexes[handle.toNat]? = none) : system.Matched profile request := by
  intro _ index inner found entry
  obtain rfl : handle.toNat = index := Option.some.inj (target.symm.trans found)
  simp [missing] at entry

theorem matched_acquire_iff (running : system.stuck = false)
    (entry : system.mutexes[handle.toNat]? = some inner) :
    system.Matched profile ⟨core, .acquire handle timeout⟩ ↔
      (inner.owner = some core → profile = .release → inner.count + 1 < 2 ^ 32) := by
  constructor
  · intro matched
    exact matched running handle.toNat inner rfl entry
  · intro fits _ index found target lookup
    obtain rfl : handle.toNat = index := Option.some.inj target
    obtain rfl := Option.some.inj (entry.symm.trans lookup)
    exact fits

theorem matched_release_iff (running : system.stuck = false)
    (entry : system.mutexes[handle.toNat]? = some inner) :
    system.Matched profile ⟨core, .release handle⟩ ↔
      inner.Matched (system.depth handle.toNat) core := by
  constructor
  · intro matched
    exact matched running handle.toNat inner rfl entry
  · intro frees _ index found target lookup
    obtain rfl : handle.toNat = index := Option.some.inj target
    obtain rfl := Option.some.inj (entry.symm.trans lookup)
    exact frees

theorem set_of_entry {mutexes : List AmlMutexInner} {index : Nat}
    (entry : mutexes[index]? = some inner) : mutexes.set index inner = mutexes := by
  obtain ⟨inside, found⟩ := List.getElem?_eq_some_iff.mp entry
  rw [← found, List.set_getElem_self]

/-- A call that finds the mutex and returns `Ok`. -/
theorem step_acquire_ok (running : system.stuck = false)
    (entry : system.mutexes[handle.toNat]? = some inner)
    (returned : inner.acquire profile core timeout = some (.ok (), next)) :
    system.step profile ⟨core, .acquire handle timeout⟩ =
      system.settle handle core next (system.depth handle.toNat core + 1) := by
  simp [step, running, TmpHandler.acquire, entry, returned, settle]

theorem step_acquire_error {reason : AmlError} (running : system.stuck = false)
    (entry : system.mutexes[handle.toNat]? = some inner)
    (returned : inner.acquire profile core timeout = some (.error reason, inner)) :
    system.step profile ⟨core, .acquire handle timeout⟩ = system := by
  simp [step, running, TmpHandler.acquire, entry, returned, set_of_entry entry]
  rw [← running]

theorem step_acquire_stuck (running : system.stuck = false)
    (stuck : system.mutexes[handle.toNat]?.bind (·.acquire profile core timeout) = none) :
    system.step profile ⟨core, .acquire handle timeout⟩ = { system with stuck := true } := by
  have call : TmpHandler.acquire profile (some core) handle timeout system.mutexes = none := by
    rw [TmpHandler.acquire]
    cases entry : system.mutexes[handle.toNat]? with
    | none => rfl
    | some inner =>
        have lost : inner.acquire profile core timeout = none := by simpa [entry] using stuck
        simp [lost]
  simp [step, running, call]

theorem step_release (running : system.stuck = false)
    (entry : system.mutexes[handle.toNat]? = some inner) :
    system.step profile ⟨core, .release handle⟩ =
      system.settle handle core inner.release (system.depth handle.toNat core - 1) := by
  simp [step, running, TmpHandler.release, entry, settle]

theorem step_release_stuck (running : system.stuck = false)
    (missing : system.mutexes[handle.toNat]? = none) :
    system.step profile ⟨core, .release handle⟩ = { system with stuck := true } := by
  simp [step, running, TmpHandler.release, missing]

/-- A request that is not answered changes neither the mutexes nor the depths. -/
theorem Served.of_stuck (after : system.step profile request = { system with stuck := true })
    (matched : system.Matched profile request) : Served profile system request :=
  .same (by rw [after]) (by rw [after]) matched

/-- With checks the new count exists only if it fits. -/
theorem matched_reenter_iff {count : Nat} (running : system.stuck = false)
    (entry : system.mutexes[handle.toNat]? = some inner) (own : inner.owner = some core)
    (sum : uintAdd 32 profile inner.count 1 = some count) :
    system.Matched profile ⟨core, .acquire handle timeout⟩ ↔ inner.count + 1 < 2 ^ 32 := by
  refine (matched_acquire_iff running entry).trans ⟨fun fits => ?_, fun fits _ _ => fits⟩
  cases profile with
  | release => exact fits own rfl
  | dev =>
      by_contra wraps
      have none := (uintAdd_eq_none_iff _).mpr ⟨rfl, Nat.not_lt.mp wraps⟩
      cases sum.symm.trans none

theorem Sound.served_reenter {count : Nat} (sound : system.Sound) (running : system.stuck = false)
    (entry : system.mutexes[handle.toNat]? = some inner) (own : inner.owner = some core)
    (sum : uintAdd 32 profile inner.count 1 = some count)
    (call : inner.acquire profile core timeout = some (.ok (), { inner with count })) :
    Served profile system ⟨core, .acquire handle timeout⟩ := by
  have turn := sound.entries _ _ entry
  have fits_iff : system.Matched profile ⟨core, .acquire handle timeout⟩ ↔ _ :=
    matched_reenter_iff running entry own sum
  refine .settled handle inner _ _ rfl entry (step_acquire_ok running entry call) ?_ ?_
  · exact (turn.secure_reenter_iff own sum).trans fits_iff.symm
  · intro matched
    have fits := fits_iff.mp matched
    obtain rfl := Option.some.inj ((uintAdd_of_lt profile fits).symm.trans sum)
    exact turn.reenter own fits

theorem Sound.served_acquire (sound : system.Sound) (running : system.stuck = false) :
    Served profile system ⟨core, .acquire handle timeout⟩ := by
  cases entry : system.mutexes[handle.toNat]? with
  | none =>
      apply Served.of_stuck
      · exact step_acquire_stuck running (by rw [entry]; rfl)
      · exact matched_of_missing rfl entry
  | some inner =>
      have matched_iff : system.Matched profile ⟨core, .acquire handle timeout⟩ ↔ _ :=
        matched_acquire_iff running entry
      cases call : inner.acquire profile core timeout with
      | none =>
          apply Served.of_stuck
          · exact step_acquire_stuck running (by rw [entry]; exact call)
          · rw [matched_iff]
            rintro own rfl
            obtain ⟨-, overflow⟩ | ⟨foreign, -⟩ := AmlMutexInner.acquire_eq_none_iff.mp call
            · obtain ⟨checked, -⟩ := (uintAdd_eq_none_iff _).mp overflow
              cases checked
            · exact absurd own foreign
      | some outcome =>
          obtain ⟨result, next⟩ := outcome
          obtain ⟨reason, rfl, foreign, rfl⟩ | ⟨rfl, own, count, sum, rfl⟩ |
            ⟨rfl, foreign, free, rfl⟩ := AmlMutexInner.acquire_cases call
          · have after := step_acquire_error running entry call
            refine .same (by rw [after]) (by rw [after]) (matched_iff.mpr ?_)
            exact fun own => absurd own foreign
          · exact sound.served_reenter running entry own sum call
          · have turn := sound.entries _ _ entry
            have matched : system.Matched profile ⟨core, .acquire handle timeout⟩ :=
              matched_iff.mpr fun own => absurd own foreign
            refine .settled handle inner _ _ rfl entry (step_acquire_ok running entry call) ?_ ?_
            · exact iff_of_true (turn.secure_take free) matched
            · exact fun _ => turn.take free

theorem Sound.served (sound : system.Sound) (profile : Profile) (request : AmlRequest) :
    Served profile system request := by
  obtain ⟨core, call⟩ := request
  cases stuck : system.stuck with
  | true =>
      refine .same ?_ ?_ fun running => by simp [stuck] at running
      all_goals simp [step, stuck]
  | false =>
      cases call with
      | createMutex =>
          refine .created rfl ?_ ?_
          all_goals simp [step, stuck, TmpHandler.createMutex]
      | acquire handle timeout => exact sound.served_acquire stuck
      | release handle =>
          cases entry : system.mutexes[handle.toNat]? with
          | none =>
              apply Served.of_stuck
              · exact step_release_stuck stuck entry
              · exact matched_of_missing rfl entry
          | some inner =>
              have turn := sound.entries _ _ entry
              have matched_iff : system.Matched profile ⟨core, .release handle⟩ ↔ _ :=
                matched_release_iff stuck entry
              refine .settled handle inner _ _ rfl entry (step_release stuck entry) ?_ ?_
              · exact turn.secure_release_iff.trans matched_iff.symm
              · exact fun matched => turn.release (matched_iff.mp matched)

/-- A matched request keeps the system sound. -/
theorem Sound.step (sound : system.Sound) (matched : system.Matched profile request) :
    (system.step profile request).Sound := by
  cases sound.served profile request with
  | same mutexes depth _ =>
      refine ⟨?_, ?_⟩ <;> rw [mutexes, depth]
      · exact sound.entries
      · exact sound.beyond
  | created call mutexes depth =>
      refine ⟨?_, ?_⟩ <;> rw [mutexes, depth]
      · intro index inner found
        obtain inside | outside := Nat.lt_or_ge index system.mutexes.length
        · rw [List.getElem?_append_left inside] at found
          exact sound.entries index inner found
        · rw [List.getElem?_append_right outside, List.getElem?_singleton] at found
          obtain ⟨-, same⟩ := Option.ite_none_right_eq_some.mp found
          rw [← Option.some.inj same, sound.beyond index outside]
          exact AmlMutexInner.sound_fresh
      · intro index far
        rw [List.length_append] at far
        exact sound.beyond index (by omega)
  | settled handle inner next depth _ entry after _ turn =>
      rw [after]
      exact sound.settle entry (turn matched)

/-- `acquire` succeeds only on a mutex that is free or that the caller owns. -/
theorem Sound.granted (sound : system.Sound) {mutexes : List AmlMutexInner}
    (returned : TmpHandler.acquire profile (some core) handle timeout system.mutexes =
      some (.ok (), mutexes)) (entry : system.mutexes[handle.toNat]? = some inner) :
    inner.owner = none ∨ inner.owner = some core := by
  rw [TmpHandler.acquire, entry] at returned
  change (inner.acquire profile core timeout).bind _ = _ at returned
  obtain ⟨⟨result, next⟩, call, pair⟩ := Option.bind_eq_some_iff.mp returned
  obtain ⟨rfl, -⟩ := Prod.mk.inj (Option.some.inj pair)
  obtain ⟨reason, failed, -⟩ | ⟨-, own, -⟩ | ⟨-, -, free, -⟩ := AmlMutexInner.acquire_cases call
  · cases failed
  · exact .inr own
  · exact .inl ((sound.entries _ _ entry).owner_of_free free)

theorem Served.matched_of_exclusive (served : Served profile system request)
    (exclusive : system.Exclusive profile request) : system.Matched profile request := by
  cases served with
  | same _ _ matched => exact matched
  | created call _ _ =>
      intro _ index inner target
      simp [call, AmlCall.target] at target
  | settled handle inner next depth target entry after secure _ =>
      have found : (system.step profile request).mutexes[handle.toNat]? = some next := by
        rw [after]
        exact mutexes_settle_self entry
      refine secure.mp ⟨?_, ?_, ?_⟩
      · exact exclusive.consistent next (List.mem_of_getElem? found)
      · intro holder positive
        apply exclusive.owned handle.toNat next holder found
        rw [after, depth_settle_self]
        exact positive
      · intro holder owner other
        obtain ⟨last, met, kept⟩ := exclusive.kept handle.toNat inner holder entry owner other
        obtain rfl := Option.some.inj (found.symm.trans met)
        exact kept

/-- A matched request of one core leaves the mutexes of the other cores with their owners. -/
theorem Served.kept (served : Served profile system request)
    (matched : system.Matched profile request) {index : Nat} {holder : BitVec 32}
    (found : system.mutexes[index]? = some inner) (owner : inner.owner = some holder)
    (other : holder ≠ request.core) :
    ∃ after, (system.step profile request).mutexes[index]? = some after ∧
      after.owner = some holder := by
  cases served with
  | same mutexes _ _ => exact ⟨inner, mutexes ▸ found, owner⟩
  | created _ mutexes _ =>
      obtain ⟨inside, -⟩ := List.getElem?_eq_some_iff.mp found
      refine ⟨inner, ?_, owner⟩
      rw [mutexes, List.getElem?_append_left inside, found]
  | settled handle old next depth _ entry after secure _ =>
      rw [after]
      by_cases same : index = handle.toNat
      · subst same
        obtain rfl := Option.some.inj (entry.symm.trans found)
        exact ⟨next, mutexes_settle_self entry, (secure.mpr matched).kept holder owner other⟩
      · exact ⟨inner, (mutexes_settle_of_ne same).trans found, owner⟩

theorem Served.others (served : Served profile system request) {index : Nat}
    (inside : index < system.mutexes.length) (different : request.call.target ≠ some index) :
    (system.step profile request).mutexes[index]? = system.mutexes[index]? := by
  cases served with
  | same mutexes _ _ => rw [mutexes]
  | created _ mutexes _ => rw [mutexes, List.getElem?_append_left inside]
  | settled handle old next depth target _ after _ _ =>
      rw [after]
      exact mutexes_settle_of_ne fun same => different (by rw [target, same])

/-- In a sound system a request is exclusive exactly if it is matched. -/
theorem Sound.exclusive_iff (sound : system.Sound) :
    system.Exclusive profile request ↔ system.Matched profile request := by
  have served := sound.served profile request
  constructor
  · exact served.matched_of_exclusive
  · intro matched
    have afterwards := sound.step matched
    refine ⟨?_, fun _ _ _ _ _ returned entry => sound.granted returned entry, ?_, ?_, ?_⟩
    · intro inner member
      obtain ⟨index, found⟩ := List.mem_iff_getElem?.mp member
      exact (afterwards.entries index inner found).consistent
    · intro index inner holder found positive
      exact (afterwards.entries index inner found).owner_of_depth positive
    · exact fun index inner holder found owner other => served.kept matched found owner other
    · exact fun index inside different => served.others inside different

theorem sound_start : start.Sound where
  entries index inner found := by simp [start] at found
  beyond index _ := rfl

end Request

end AmlSystem

/-- The requests of a run are exclusive exactly if each release that frees a mutex matches the last
open acquire of its owner, and no count wraps. -/
theorem amlRun_exclusive_iff (profile : Profile) (requests : List AmlRequest) :
    Along (AmlSystem.step profile) (AmlSystem.Exclusive profile) .start requests ↔
      Along (AmlSystem.step profile) (AmlSystem.Matched profile) .start requests := by
  apply along_congr_while AmlSystem.Sound
  · exact fun system request sound matched => sound.step matched
  · exact fun system request sound => sound.exclusive_iff
  · exact AmlSystem.sound_start

/-- Core 1 releases a mutex that core 0 has acquired, and acquires it itself. -/
theorem amlMutex_released_by_other :
    let requests : List AmlRequest :=
      [⟨0, .createMutex⟩, ⟨0, .acquire 0 0⟩, ⟨1, .release 0⟩, ⟨1, .acquire 0 0⟩]
    let after := requests.foldl (AmlSystem.step .release) .start
    after.mutexes = [⟨true, some 1, 1⟩] ∧ after.depth 0 0 = 1 ∧
      ¬ Along (AmlSystem.step .release) (AmlSystem.Exclusive .release) .start requests := by
  refine ⟨by decide, by decide, ?_⟩
  intro run
  obtain ⟨-, -, released, -⟩ := run
  obtain ⟨after, found, owner⟩ := released.kept 0 ⟨true, some 0, 1⟩ 0 (by decide) rfl (by decide)
  have freed : some after = some AmlMutexInner.fresh := found.symm.trans (by decide)
  obtain rfl := Option.some.inj freed
  cases owner

end Okots
