import Mathlib.Data.Fintype.Card
import Mathlib.Logic.Relation
import Mathlib.Order.Filter.AtTopBot.Basic
import Mathlib.Order.Filter.Finite
import Okots.Library.Exec

/-!
# Memoized queries

The answer of a key is computed by a query that may ask for the answers of other keys.  `memoized`
keeps the answers in a store and computes an answer only when the store does not have it; the
nested questions go through the store as well.  When no key depends on itself, every call returns
the answer of its key, and the store then holds the answers of the keys that were asked for.  In
between it never holds anything else: a watched store writes down what it was after each
operation.
-/

namespace Memo

open StateExec Exec Relation

/-- A computation of an answer that may ask for the answers of keys. -/
inductive Query (Key Answer : Type*) where
  | done (answer : Answer)
  | ask (key : Key) (next : Answer → Query Key Answer)

variable {Key Store Fault : Type*} {Answer : Type}

namespace Query

/-- What the query computes when the keys have the given answers. -/
def outcome (value : Key → Answer) : Query Key Answer → Answer
  | done answer => answer
  | ask key next => outcome value (next (value key))

/-- The keys that the query then asks for, in order. -/
def asked (value : Key → Answer) : Query Key Answer → List Key
  | done _ => []
  | ask key next => key :: asked value (next (value key))

/-- Run the query with a way to find the answer of a key. -/
def run (answer : Key → Exec Store Fault Answer) : Query Key Answer → Exec Store Fault Answer
  | done result => pure result
  | ask key next => do
      let result ← answer key
      run answer (next result)

end Query

/-- Computing the answer of a key asks for the answer of another one. -/
def Asks (compute : Key → Query Key Answer) (value : Key → Answer) (key next : Key) : Prop :=
  next ∈ (compute key).asked value

/-- Take the answer from the store, or compute it and put it there.  The fuel bounds the depth of
nested questions. -/
def memoized (lookup : Key → Exec Store Fault (Option Answer))
    (store : Key → Answer → Exec Store Fault Unit) (compute : Key → Query Key Answer)
    (tooDeep : Fault) : Nat → Key → Exec Store Fault Answer
  | 0, _ => fault tooDeep
  | fuel + 1, key => do
      match ← lookup key with
      | some answer => pure answer
      | none =>
          let answer ← (compute key).run (memoized lookup store compute tooDeep fuel)
          store key answer
          return answer

/-- The answers to a sequence of questions. -/
def askAll (answer : Key → Exec Store Fault Answer) : List Key → Exec Store Fault (List Answer)
  | [] => pure []
  | key :: rest => do
      let first ← answer key
      let others ← askAll answer rest
      return first :: others

/-! ## Reached keys -/

section Reached

variable {asks : Key → Key → Prop}

/-- The keys that are asked for, directly or nested, when the given ones are. -/
def reached (asks : Key → Key → Prop) (keys : List Key) : Set Key :=
  {other | ∃ key ∈ keys, ReflTransGen asks key other}

/-- What the answer of a member depends on is a member. -/
def Closed (asks : Key → Key → Prop) (known : Set Key) : Prop :=
  ∀ key ∈ known, ∀ next, asks key next → next ∈ known

theorem reached_nil : reached asks [] = ∅ := by
  simp [reached]

theorem reached_cons (key : Key) (rest : List Key) :
    reached asks (key :: rest) = reached asks [key] ∪ reached asks rest := by
  ext other
  simp [reached]

theorem closed_union_reached {known : Set Key} (closed : Closed asks known) (keys : List Key) :
    Closed asks (known ∪ reached asks keys) := by
  rintro key (before | ⟨first, member, path⟩) next edge
  · exact .inl (closed key before next edge)
  · exact .inr ⟨first, member, path.tail edge⟩

theorem union_reached_of_mem {known : Set Key} (closed : Closed asks known) {key : Key}
    (member : key ∈ known) : known ∪ reached asks [key] = known := by
  refine Set.union_eq_self_of_subset_right ?_
  rintro other ⟨first, single, path⟩
  rw [List.mem_singleton.mp single] at path
  induction path with
  | refl => exact member
  | tail _ edge induction => exact closed _ induction _ edge

theorem reached_asked (compute : Key → Query Key Answer) (value : Key → Answer) (key : Key) :
    reached (Asks compute value) [key] =
      insert key (reached (Asks compute value) ((compute key).asked value)) := by
  ext other
  simp only [reached, List.mem_singleton, exists_eq_left, Set.mem_ofPred_eq, Set.mem_insert_iff]
  rw [ReflTransGen.cases_head_iff, eq_comm]
  rfl

/-- There is no cycle when every question goes down. -/
theorem acyclic_of_rank (rank : Key → Nat) (down : ∀ key next, asks key next → rank next < rank key)
    (key : Key) : ¬ TransGen asks key key := by
  have lower {first last : Key} (path : TransGen asks first last) : rank last < rank first := by
    induction path with
    | single edge => exact down _ _ edge
    | tail _ edge induction => exact (down _ _ edge).trans induction
  exact fun cycle => (lower cycle).false

/-- Without a cycle, the keys can be answered in an order. -/
theorem wellFounded_of_acyclic [Finite Key] (acyclic : ∀ key, ¬ TransGen asks key key) :
    WellFounded (Function.swap asks) := by
  have irreflexive : Std.Irrefl (TransGen (Function.swap asks)) :=
    ⟨fun key cycle => acyclic key (transGen_swap.mp cycle)⟩
  have closure : WellFounded (TransGen (Function.swap asks)) :=
    Finite.wellFounded_of_trans_of_irrefl _
  exact Subrelation.wf TransGen.single closure

end Reached

/-! ## Stores -/

section Store

variable {lookup : Key → Exec Store Fault (Option Answer)}
  {store : Key → Answer → Exec Store Fault Unit} {compute : Key → Query Key Answer}
  {value : Key → Answer} {tooDeep : Fault} {holds : Set Key → Store → Prop}

/-- The store operations keep the answers of a set of keys. -/
structure Remembers (lookup : Key → Exec Store Fault (Option Answer))
    (store : Key → Answer → Exec Store Fault Unit) (value : Key → Answer)
    (holds : Set Key → Store → Prop) : Prop where
  hit : ∀ {known state key}, holds known state → key ∈ known →
    Ends (lookup key) state (fun found after => found = some (value key) ∧ holds known after)
      fun _ _ => False
  miss : ∀ {known state key}, holds known state → key ∉ known →
    Ends (lookup key) state (fun found after => found = none ∧ holds known after) fun _ _ => False
  stored : ∀ {known state} key, holds known state →
    Ends (store key (value key)) state (fun _ after => holds (insert key known) after)
      fun _ _ => False

/-- From every store, the key is answered by its value, and the store has been filled with what was
asked for. -/
def Answers (compute : Key → Query Key Answer) (value : Key → Answer)
    (holds : Set Key → Store → Prop) (answer : Key → Exec Store Fault Answer) (key : Key) : Prop :=
  ∀ {known state}, holds known state → Closed (Asks compute value) known →
    Ends (answer key) state (fun result after => result = value key ∧
      holds (known ∪ reached (Asks compute value) [key]) after) fun _ _ => False

/-- A query whose questions are answered computes its outcome. -/
theorem run_answers {answer : Key → Exec Store Fault Answer} (query : Query Key Answer)
    (answers : ∀ key ∈ query.asked value, Answers compute value holds answer key)
    {known : Set Key} {state : Store} (held : holds known state)
    (closed : Closed (Asks compute value) known) :
    Ends (query.run answer) state (fun result after => result = query.outcome value ∧
      holds (known ∪ reached (Asks compute value) (query.asked value)) after)
      fun _ _ => False := by
  induction query generalizing known state with
  | done result =>
      refine ⟨rfl, ?_⟩
      rwa [Query.asked, reached_nil, Set.union_empty]
  | ask key next induction =>
      rw [Query.run, ends_bind]
      refine (answers key (List.mem_cons_self ..) held closed).mono ?_ fun _ _ => id
      rintro _ between ⟨rfl, filled⟩
      rw [Query.asked, reached_cons, ← Set.union_assoc]
      exact induction (value key) (fun other member => answers other (.tail _ member)) filled
        (closed_union_reached closed [key])

/-- A sequence of questions is answered one after the other. -/
theorem askAll_answers {answer : Key → Exec Store Fault Answer}
    (answers : ∀ key, Answers compute value holds answer key) (keys : List Key)
    {known : Set Key} {state : Store} (held : holds known state)
    (closed : Closed (Asks compute value) known) :
    Ends (askAll answer keys) state (fun results after => results = keys.map value ∧
      holds (known ∪ reached (Asks compute value) keys) after) fun _ _ => False := by
  induction keys generalizing known state with
  | nil =>
      refine ⟨rfl, ?_⟩
      rwa [reached_nil, Set.union_empty]
  | cons key rest induction =>
      rw [askAll, ends_bind]
      refine (answers key held closed).mono ?_ fun _ _ => id
      rintro _ between ⟨rfl, filled⟩
      rw [ends_bind, reached_cons, ← Set.union_assoc]
      refine (induction filled (closed_union_reached closed [key])).mono ?_ fun _ _ => id
      rintro _ after ⟨rfl, full⟩
      exact ⟨rfl, full⟩

/-- One level of `memoized`: the nested questions are answered, so the key is. -/
theorem memoized_succ_answers (remembers : Remembers lookup store value holds)
    (fixed : ∀ key, (compute key).outcome value = value key) {fuel : Nat} {key : Key}
    (nested : ∀ next ∈ (compute key).asked value,
      Answers compute value holds (memoized lookup store compute tooDeep fuel) next) :
    Answers compute value holds (memoized lookup store compute tooDeep (fuel + 1)) key := by
  intro known state held closed
  rw [memoized, ends_bind]
  by_cases member : key ∈ known
  · refine (remembers.hit held member).mono ?_ fun _ _ => id
    rintro _ after ⟨rfl, still⟩
    rw [union_reached_of_mem closed member]
    exact ⟨rfl, still⟩
  · refine (remembers.miss held member).mono ?_ fun _ _ => id
    rintro _ after ⟨rfl, still⟩
    dsimp only
    rw [ends_bind]
    refine (run_answers (compute key) nested still closed).mono ?_ fun _ _ => id
    rintro _ between ⟨rfl, filled⟩
    rw [fixed, ends_bind, reached_asked, Set.union_insert]
    exact (remembers.stored key filled).mono (fun _ after full => ⟨rfl, full⟩) fun _ _ => id

/-- With enough fuel every key is answered. -/
theorem memoized_answers [Finite Key] (tooDeep : Fault)
    (remembers : Remembers lookup store value holds)
    (fixed : ∀ key, (compute key).outcome value = value key)
    (acyclic : ∀ key, ¬ TransGen (Asks compute value) key key) :
    ∃ enough, ∀ fuel, enough ≤ fuel → ∀ key,
      Answers compute value holds (memoized lookup store compute tooDeep fuel) key := by
  rw [← Filter.eventually_atTop, Filter.eventually_all]
  intro key
  -- The answers that a key needs are available one level of fuel below it.
  induction key using (wellFounded_of_acyclic acyclic).induction with
  | h key induction =>
      have nested : ∀ᶠ fuel in Filter.atTop, ∀ next ∈ {next | next ∈ (compute key).asked value},
          Answers compute value holds (memoized lookup store compute tooDeep fuel) next :=
        (Filter.eventually_all_finite (List.finite_toSet _)).mpr induction
      rw [← Filter.map_add_atTop_eq_nat 1, Filter.eventually_map]
      exact nested.mono fun fuel answered => memoized_succ_answers remembers fixed answered

end Store

/-! ## Watched stores -/

section Watched

variable {lookup : Key → Exec Store Fault (Option Answer)}
  {store : Key → Answer → Exec Store Fault Unit} {compute : Key → Query Key Answer}
  {value : Key → Answer} {tooDeep : Fault} {holds : Set Key → Store → Prop} {Result Next : Type}

/-- Run an operation and write down the store after it. -/
def watched (operation : Exec Store Fault Result) : Exec (Store × List Store) Fault Result :=
  fun state =>
    ((operation state.1).1, ((operation state.1).2, (operation state.1).2 :: state.2))

/-- Without the list of former stores, the program does what the plain one does. -/
def Erases (program : Exec (Store × List Store) Fault Result) (plain : Exec Store Fault Result) :
    Prop :=
  ∀ state, (program state).1 = (plain state.1).1 ∧ (program state).2.1 = (plain state.1).2

theorem erases_watched (operation : Exec Store Fault Result) :
    Erases (watched operation) operation := fun _ => ⟨rfl, rfl⟩

theorem erases_pure (result : Result) :
    Erases (pure result : Exec (Store × List Store) Fault Result) (pure result) :=
  fun _ => ⟨rfl, rfl⟩

theorem Erases.bind {program : Exec (Store × List Store) Fault Result}
    {plain : Exec Store Fault Result} (erases : Erases program plain)
    {next : Result → Exec (Store × List Store) Fault Next}
    {plainNext : Result → Exec Store Fault Next}
    (after : ∀ result, Erases (next result) (plainNext result)) :
    Erases (program >>= next) (plain >>= plainNext) := by
  intro state
  obtain ⟨result, rest⟩ := erases state
  simp only [Bind.bind]
  rcases ran : program state with ⟨_ | value, former⟩ <;>
    rcases plainly : plain state.1 with ⟨_ | plainValue, current⟩ <;>
    simp only [ran, plainly, Except.error.injEq, Except.ok.injEq, reduceCtorEq] at result rest ⊢
  · exact ⟨result, rest⟩
  · subst result rest
    exact after _ former

theorem erases_run {answer : Key → Exec (Store × List Store) Fault Answer}
    {plain : Key → Exec Store Fault Answer} (erases : ∀ key, Erases (answer key) (plain key))
    (query : Query Key Answer) : Erases (query.run answer) (query.run plain) := by
  induction query with
  | done result => exact erases_pure result
  | ask key next induction => exact (erases key).bind induction

theorem erases_askAll {answer : Key → Exec (Store × List Store) Fault Answer}
    {plain : Key → Exec Store Fault Answer} (erases : ∀ key, Erases (answer key) (plain key))
    (keys : List Key) : Erases (askAll answer keys) (askAll plain keys) := by
  induction keys with
  | nil => exact erases_pure []
  | cons key rest induction =>
      exact (erases key).bind fun first => induction.bind fun others => erases_pure _

/-- Watching changes nothing. -/
theorem erases_memoized (fuel : Nat) (key : Key) :
    Erases (memoized (fun key => watched (lookup key))
        (fun key answer => watched (store key answer)) compute tooDeep fuel key)
      (memoized lookup store compute tooDeep fuel key) := by
  induction fuel generalizing key with
  | zero => exact fun _ => ⟨rfl, rfl⟩
  | succ fuel induction =>
      refine (erases_watched (lookup key)).bind fun found => ?_
      cases found with
      | some answer => exact erases_pure answer
      | none =>
          refine (erases_run induction (compute key)).bind fun answer => ?_
          exact (erases_watched (store key answer)).bind fun _ => erases_pure answer

/-- The store holds the answers of the keys, and each former one held those of some of them. -/
def HoldsWatched (holds : Set Key → Store → Prop) (known : Set Key) (state : Store × List Store) :
    Prop :=
  holds known state.1 ∧ ∀ former ∈ state.2, ∃ part ⊆ known, holds part former

theorem HoldsWatched.grow {known more : Set Key} {state : Store × List Store} {after : Store}
    (held : HoldsWatched holds known state) (larger : known ⊆ more) (now : holds more after) :
    HoldsWatched holds more (after, after :: state.2) := by
  refine ⟨now, fun former member => ?_⟩
  rcases List.mem_cons.mp member with rfl | earlier
  · exact ⟨more, Set.Subset.rfl, now⟩
  · obtain ⟨part, smaller, was⟩ := held.2 former earlier
    exact ⟨part, smaller.trans larger, was⟩

theorem ends_watched {operation : Exec Store Fault Result} {state : Store × List Store}
    {ok : Result → Store × List Store → Prop} {fail : Fault → Store × List Store → Prop} :
    Ends (watched operation) state ok fail ↔
      Ends operation state.1 (fun result after => ok result (after, after :: state.2))
        fun reason after => fail reason (after, after :: state.2) := by
  unfold Ends watched
  rcases operation state.1 with ⟨_ | _, after⟩ <;> rfl

theorem Remembers.watched (remembers : Remembers lookup store value holds) :
    Remembers (fun key => watched (lookup key)) (fun key answer => watched (store key answer)) value
      (HoldsWatched holds) where
  hit held member := by
    rw [ends_watched]
    exact (remembers.hit held.1 member).mono
      (fun _ after found => ⟨found.1, held.grow Set.Subset.rfl found.2⟩) fun _ _ => id
  miss held other := by
    rw [ends_watched]
    exact (remembers.miss held.1 other).mono
      (fun _ after found => ⟨found.1, held.grow Set.Subset.rfl found.2⟩) fun _ _ => id
  stored key held := by
    rw [ends_watched]
    exact (remembers.stored key held.1).mono
      (fun _ after now => held.grow (Set.subset_insert _ _) now) fun _ _ => id

end Watched

end Memo
