import Okots.Library.Exec

/-!
# Spin locks of one thread

A thread with the spin locks it holds and the data behind them.  Taking a lock that the thread
already holds spins for ever; here it is the fault that names the lock.  `withLock` is the scope of
a guard.  The rules say what a scope needs and gives back, so that a program is taken apart guard by
guard.
-/

namespace StateExec

/-- The locks a thread holds, innermost first, and the data it works on. -/
structure Holding (μ σ : Type*) where
  held : List μ
  data : σ

namespace Mutex

open Exec

variable {μ σ : Type*} {α : Type} {state : Holding μ σ} {ok : α → Holding μ σ → Prop}
  {fail : μ → Holding μ σ → Prop}

/-- Work on the data. -/
def onData (program : Exec σ μ α) : Exec (Holding μ σ) μ α :=
  zoom Holding.data (fun data state => { state with data }) program

@[simp] theorem ends_onData {program : Exec σ μ α} :
    (onData program).Ends state ok fail ↔
      program.Ends state.data (fun value data => ok value { state with data })
        fun reason data => fail reason { state with data } :=
  ends_zoom _ _

variable [DecidableEq μ]

/-- Take a lock. -/
def lock (mutex : μ) : Exec (Holding μ σ) μ Unit := fun state =>
  if mutex ∈ state.held then (.error mutex, state)
  else (.ok (), { state with held := mutex :: state.held })

/-- Release a lock. -/
def unlock (mutex : μ) : Exec (Holding μ σ) μ Unit :=
  modify fun state => { state with held := state.held.erase mutex }

/-- Run `body` in the scope of a guard. -/
def withLock (mutex : μ) (body : Exec (Holding μ σ) μ α) : Exec (Holding μ σ) μ α := do
  lock mutex
  let value ← body
  unlock mutex
  return value

variable {mutex : μ}

theorem ends_lock_of_free {ok : Unit → Holding μ σ → Prop} (free : mutex ∉ state.held) :
    (lock mutex).Ends state ok fail ↔ ok () { state with held := mutex :: state.held } := by
  unfold Ends lock
  rw [if_neg free]

theorem ends_lock_of_held {ok : Unit → Holding μ σ → Prop} (held : mutex ∈ state.held) :
    (lock mutex).Ends state ok fail ↔ fail mutex state := by
  unfold Ends lock
  rw [if_pos held]

@[simp] theorem ends_unlock {ok : Unit → Holding μ σ → Prop} :
    (unlock mutex).Ends state ok fail ↔
      ok () { state with held := state.held.erase mutex } := Iff.rfl

/-- The scope of a free lock. -/
theorem ends_withLock_of_free {body : Exec (Holding μ σ) μ α} (free : mutex ∉ state.held) :
    (withLock mutex body).Ends state ok fail ↔
      body.Ends { state with held := mutex :: state.held }
        (fun value after => ok value { after with held := after.held.erase mutex }) fail := by
  simp only [withLock, ends_bind, ends_lock_of_free free, ends_unlock, ends_pure]

/-- A guard for a lock that the thread holds. -/
theorem ends_withLock_of_held {body : Exec (Holding μ σ) μ α} (held : mutex ∈ state.held) :
    (withLock mutex body).Ends state ok fail ↔ fail mutex state := by
  simp only [withLock, ends_bind, ends_lock_of_held held]

end Mutex
end StateExec
