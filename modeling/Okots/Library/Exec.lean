import Mathlib.Data.List.Basic

/-!
# State-passing computations with faults

An `Exec σ ε α` reads and writes a state of type `σ` and ends with a value or with a fault.  The
state reached by a faulting computation is kept, so cleanup on an error path is observable.
`Ends` is the weakest precondition for the two outcomes; the rules below take a program apart by
its last construct, and loops are discharged by an invariant over the processed indices.
-/

namespace StateExec

/-- A computation over states `σ` that ends with a value or a fault, and a final state. -/
def Exec (σ ε α : Type*) := σ → Except ε α × σ

namespace Exec

universe u

variable {σ ε ι : Type*} {α β : Type u}

instance : Monad (Exec σ ε) where
  pure value state := (.ok value, state)
  bind program next state :=
    match program state with
    | (.ok value, after) => next value after
    | (.error fault, after) => (.error fault, after)

/-- End with a fault in the current state. -/
def fault (reason : ε) : Exec σ ε α := fun state => (.error reason, state)

/-- Read a component of the state. -/
def read (view : σ → α) : Exec σ ε α := fun state => (.ok (view state), state)

/-- Replace the state. -/
def modify (change : σ → σ) : Exec σ ε Unit := fun state => (.ok (), change state)

/-- The value of an option, or a fault. -/
def ofOption (reason : ε) : Option α → Exec σ ε α
  | some value => pure value
  | none => fault reason

/-- Run a computation on a component of the state. -/
def zoom {τ : Type*} (view : τ → σ) (put : σ → τ → τ) (program : Exec σ ε α) : Exec τ ε α :=
  fun state => ((program (view state)).1, put (program (view state)).2 state)

/-- Run `handler` when `program` faults. -/
def handle (program : Exec σ ε α) (handler : ε → Exec σ ε α) : Exec σ ε α := fun state =>
  match program state with
  | (.ok value, after) => (.ok value, after)
  | (.error reason, after) => handler reason after

/-- Run `body` over the indices in order, threading an accumulator. -/
def foldEach : List ι → α → (α → ι → Exec σ ε α) → Exec σ ε α
  | [], value, _ => pure value
  | index :: rest, value, body => do
      let next ← body value index
      foldEach rest next body

/-- Run `body` over the indices in order. -/
def forEach (indices : List ι) (body : ι → Exec σ ε Unit) : Exec σ ε Unit :=
  foldEach indices () fun _ index => body index

/-- The outcome of `program` from `state` satisfies `ok` or `fail`, whichever applies. -/
def Ends (program : Exec σ ε α) (state : σ) (ok : α → σ → Prop) (fail : ε → σ → Prop) : Prop :=
  match program state with
  | (.ok value, after) => ok value after
  | (.error reason, after) => fail reason after

variable {program : Exec σ ε α} {state : σ} {ok : α → σ → Prop} {fail : ε → σ → Prop}

@[simp]
theorem ends_pure (value : α) : Ends (pure value) state ok fail ↔ ok value state := Iff.rfl

@[simp]
theorem ends_fault (reason : ε) :
    Ends (fault reason : Exec σ ε α) state ok fail ↔ fail reason state := Iff.rfl

@[simp]
theorem ends_read (view : σ → α) :
    Ends (read view) state ok fail ↔ ok (view state) state := Iff.rfl

@[simp]
theorem ends_modify (change : σ → σ) {ok : Unit → σ → Prop} :
    Ends (modify change) state ok fail ↔ ok () (change state) := Iff.rfl

theorem ends_ofOption (reason : ε) (value : Option α) :
    Ends (ofOption reason value) state ok fail ↔
      (∀ result, value = some result → ok result state) ∧ (value = none → fail reason state) := by
  cases value <;> simp [ofOption]

theorem ofOption_some_bind (reason : ε) (value : α) (next : α → Exec σ ε β) :
    (ofOption reason (some value) >>= next) = next value := rfl

theorem bind_bind {γ : Type u} (program : Exec σ ε α) (next : α → Exec σ ε β)
    (last : β → Exec σ ε γ) :
    (program >>= next) >>= last = program >>= fun value => next value >>= last := by
  funext state
  simp only [bind]
  rcases program state with ⟨_ | _, _⟩ <;> rfl

/-- A partial value that is there whenever `defined` holds. -/
theorem Ends.ofOption_of_total {reason : ε} {value : Option α} {defined : Prop}
    (total : defined → ∃ result, value = some result) (fails : ¬ defined → fail reason state)
    (found : ∀ result, value = some result → ok result state) :
    Ends (ofOption reason value) state ok fail := by
  refine (ends_ofOption reason value).mpr ⟨found, fun missing => fails fun holds => ?_⟩
  obtain ⟨result, there⟩ := total holds
  cases missing.symm.trans there

theorem ends_ofOption_of_some (reason : ε) {value : Option α} {result : α}
    (found : value = some result) :
    Ends (ofOption reason value) state ok fail ↔ ok result state := by
  subst found
  exact ends_pure result

@[simp]
theorem ends_bind (next : α → Exec σ ε β) {ok : β → σ → Prop} :
    Ends (program >>= next) state ok fail ↔
      Ends program state (fun value after => Ends (next value) after ok fail) fail := by
  have unfolded : (program >>= next) state =
      match program state with
      | (.ok value, after) => next value after
      | (.error reason, after) => (.error reason, after) := rfl
  unfold Ends
  rw [unfolded]
  rcases program state with ⟨_ | _, _⟩ <;> rfl

theorem ends_handle (handler : ε → Exec σ ε α) :
    Ends (handle program handler) state ok fail ↔
      Ends program state ok fun reason after => Ends (handler reason) after ok fail := by
  unfold Ends handle
  rcases program state with ⟨_ | _, _⟩ <;> rfl

@[simp]
theorem ends_zoom {τ : Type*} (view : τ → σ) (put : σ → τ → τ) {outer : τ} {ok : α → τ → Prop}
    {fail : ε → τ → Prop} :
    Ends (zoom view put program) outer ok fail ↔
      Ends program (view outer) (fun value after => ok value (put after outer))
        fun reason after => fail reason (put after outer) := by
  unfold Ends zoom
  rcases program (view outer) with ⟨_ | _, _⟩ <;> rfl

@[simp]
theorem ends_forEach_nil {body : ι → Exec σ ε Unit} {ok : Unit → σ → Prop} :
    Ends (forEach [] body) state ok fail ↔ ok () state := Iff.rfl

@[simp]
theorem ends_forEach_cons {index : ι} {rest : List ι} {body : ι → Exec σ ε Unit}
    {ok : Unit → σ → Prop} :
    Ends (forEach (index :: rest) body) state ok fail ↔
      Ends (body index) state (fun _ after => Ends (forEach rest body) after ok fail) fail := by
  rw [forEach, foldEach, ends_bind]
  rfl

/-- Weaken both postconditions. -/
theorem Ends.mono {ok' : α → σ → Prop} {fail' : ε → σ → Prop} (ends : Ends program state ok fail)
    (weakenOk : ∀ value after, ok value after → ok' value after)
    (weakenFail : ∀ reason after, fail reason after → fail' reason after) :
    Ends program state ok' fail' := by
  revert ends
  unfold Ends
  rcases program state with ⟨_ | _, _⟩
  · exact weakenFail _ _
  · exact weakenOk _ _

/-- Two specifications of one computation hold together. -/
theorem Ends.and {ok' : α → σ → Prop} {fail' : ε → σ → Prop} (ends : Ends program state ok fail)
    (ends' : Ends program state ok' fail') :
    Ends program state (fun value after => ok value after ∧ ok' value after)
      fun reason after => fail reason after ∧ fail' reason after := by
  revert ends ends'
  unfold Ends
  rcases program state with ⟨_ | _, _⟩ <;> exact And.intro

/-- A successful run satisfies the postcondition for success. -/
theorem Ends.of_ok {value : α} {after : σ} (ends : Ends program state ok fail)
    (run : program state = (.ok value, after)) : ok value after := by
  unfold Ends at ends
  rwa [run] at ends

/-- A faulting run satisfies the postcondition for faults. -/
theorem Ends.of_error {reason : ε} {after : σ} (ends : Ends program state ok fail)
    (run : program state = (.error reason, after)) : fail reason after := by
  unfold Ends at ends
  rwa [run] at ends

theorem ends_of_run {value : α} {after : σ} (run : program state = (.ok value, after)) :
    Ends program state ok fail ↔ ok value after := by
  unfold Ends
  rw [run]

theorem ends_of_fault {reason : ε} {after : σ} (run : program state = (.error reason, after)) :
    Ends program state ok fail ↔ fail reason after := by
  unfold Ends
  rw [run]

/-- Every computation ends as it does. -/
theorem ends_run (program : Exec σ ε α) (state : σ) :
    Ends program state (fun value after => program state = (.ok value, after))
      fun reason after => program state = (.error reason, after) := by
  unfold Ends
  rcases program state with ⟨_ | _, _⟩ <;> rfl

/-- A computation does not end in two ways. -/
theorem Ends.conflict {ok' : α → σ → Prop} {fail' : ε → σ → Prop}
    (fails : Ends program state ok fail) (succeeds : Ends program state ok' fail')
    (noOk : ∀ value after, ¬ ok value after) (noFail : ∀ reason after, ¬ fail' reason after) :
    False := by
  unfold Ends at fails succeeds
  rcases run : program state with ⟨_ | _, _⟩ <;> rw [run] at fails succeeds
  · exact noFail _ _ succeeds
  · exact noOk _ _ fails

/-- A computation whose faults are all excluded has a successful run. -/
theorem Ends.exists_ok (ends : Ends program state ok fail)
    (safe : ∀ reason after, ¬ fail reason after) :
    ∃ value after, program state = (.ok value, after) ∧ ok value after := by
  unfold Ends at ends
  rcases run : program state with ⟨_ | value, after⟩ <;> rw [run] at ends
  · exact absurd ends (safe _ _)
  · exact ⟨value, after, rfl, ends⟩

/-- Invariant rule for accumulating loops: the invariant is over the processed indices. -/
theorem foldEach_ends {indices : List ι} {body : α → ι → Exec σ ε α} {initial : α}
    (invariant : List ι → α → σ → Prop) (start : invariant [] initial state)
    (step : ∀ done index rest value current, indices = done ++ index :: rest →
      invariant done value current →
      Ends (body value index) current
        (fun next after => invariant (done ++ [index]) next after) fail) :
    Ends (foldEach indices initial body) state (invariant indices) fail := by
  suffices loop : ∀ rest done value current, indices = done ++ rest →
      invariant done value current →
      Ends (foldEach rest value body) current (invariant indices) fail from
    loop indices [] initial state rfl start
  intro rest
  induction rest with
  | nil =>
      intro done value current split holds
      rw [List.append_nil] at split
      rw [split]
      exact holds
  | cons index rest induction =>
      intro done value current split holds
      rw [foldEach, ends_bind]
      refine (step done index rest value current split holds).mono ?_ fun _ _ failed => failed
      intro next after advanced
      exact induction (done ++ [index]) next after (by simp [split]) advanced

/-- Invariant rule for loops without an accumulator. -/
theorem forEach_ends {indices : List ι} {body : ι → Exec σ ε Unit}
    (invariant : List ι → σ → Prop) (start : invariant [] state)
    (step : ∀ done index rest current, indices = done ++ index :: rest →
      invariant done current →
      Ends (body index) current (fun _ after => invariant (done ++ [index]) after) fail) :
    Ends (forEach indices body) state (fun _ after => invariant indices after) fail :=
  foldEach_ends (fun done _ current => invariant done current) start
    fun done index rest _ current split holds => step done index rest current split holds

end Exec
end StateExec
