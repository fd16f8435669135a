import Mathlib.Tactic.Choose
import CachedStore.Proofs.Record.Lawful
import CachedStore.Proofs.Repository.Conduct
import CachedStore.Proofs.Repository.StoreUse

/-!
Operations of a repository that nothing else uses. If the store answers in time, what they give and
the rows that they leave depend on the rows, the time and the fresh identity, but not on the cache.
-/

namespace CachedStore

/-- Moments in order that tell one time and offer one identity. -/
structure Clockwise (clock : Nat → Moment) (time : Timestamp) (freshId : RecordId) : Prop where
  order : ∀ step, (clock step).instant ≤ (clock (step + 1)).instant
  time : ∀ step, (clock step).time = time
  freshId : ∀ step, (clock step).freshId = freshId

theorem Clockwise.le {clock : Nat → Moment} {time : Timestamp} {freshId : RecordId}
    (clockwise : Clockwise clock time freshId) {step later : Nat} (order : step ≤ later) :
    (clock step).instant ≤ (clock later).instant :=
  Instant.le_of_onward clockwise.order order

/-- What is given and which rows are left, by the time, the fresh identity and the rows. -/
abbrev Plain (α : Type) : Type := Timestamp → RecordId → Rows → α × Rows

namespace Plain

variable {α β : Type}

def done (result : α) : Plain α := fun _ _ rows => (result, rows)

def bind (first : Plain α) (next : α → Plain β) : Plain β := fun time freshId rows =>
  next (first time freshId rows).1 time freshId (first time freshId rows).2

def ask (next : Moment → Plain β) : Plain β := fun time freshId rows =>
  next ⟨⟨0⟩, time, freshId⟩ time freshId rows

def read (read : Rows → Except Failure α) : Plain (Except Failure α) := fun _ _ rows =>
  (read rows, rows)

def effect (effect : Rows → Except Failure (α × Rows)) : Plain (Except Failure α) :=
  fun _ _ rows => ((effect rows).map (·.1), ((effect rows).toOption.map (·.2)).getD rows)

def write {ρ : Type} (policy : DuplicatePolicy) (record : ρ)
    (change : Rows → Except Failure Rows) : Plain (Written ρ) :=
  (effect fun rows => (change rows).map fun rows => ((), rows)).bind fun outcome =>
    done ⟨Repository.settle policy outcome, record⟩

variable {ρ : Type} [Record ρ]

def createWith (policy : DuplicatePolicy) (record : ρ) : Plain (Written ρ) :=
  .ask fun moment =>
    match Repository.stampNew record moment with
    | .error failure => .done ⟨.error failure, record⟩
    | .ok (_, stamped) => .write policy stamped fun rows => rows.create stamped

def createIfAbsent (record : ρ) : Plain (Written ρ) :=
  (read fun rows =>
    rows.findOne (Record.blank : ρ) (Record.naturalKey record)).bind fun
    | .ok existing => .done ⟨.ok (), existing⟩
    | .error failure =>
      if failure.isNotFound then createWith .strict record else .done ⟨.error failure, record⟩

def update (record : ρ) : Plain (Written ρ) :=
  .ask fun moment =>
    .write .strict (Record.touchUpdated record moment.time) fun rows =>
      rows.update (Record.touchUpdated record moment.time)

def softDelete (record : ρ) : Plain (Written ρ) :=
  .ask fun moment =>
    match Repository.stampDeleted record moment with
    | .error failure => .done ⟨.error failure, record⟩
    | .ok stamped => .write .strict stamped fun rows => rows.update stamped

def delete (record : ρ) : Plain (Written ρ) := .write .strict record fun rows => rows.delete record

end Plain

/-! The operation of a call acts on the rows, as no failure is pending. -/

namespace MemoryStore

variable {ρ α : Type} {store : MemoryStore ρ}

theorem perform_ok {operation : Rows → Except Failure (α × Rows)} {answer : α} {rows : Rows}
    (calm : store.faults = []) (given : operation store.rows = .ok (answer, rows)) :
    store.perform operation = (.ok answer, { store with rows := rows }) := by
  simp only [perform, calm, given]

theorem perform_error {operation : Rows → Except Failure (α × Rows)} {failure : Failure}
    (calm : store.faults = []) (given : operation store.rows = .error failure) :
    store.perform operation = (.error failure, store) := by
  simp only [perform, calm, given]

theorem perform_read (calm : store.faults = []) (read : Rows → Except Failure α) :
    (store.perform fun rows => (read rows).map fun answer => (answer, rows)) =
      (read store.rows, store) := by
  cases given : read store.rows with
  | error failure => exact perform_error calm (by rw [given]; rfl)
  | ok answer => exact perform_ok calm (by rw [given]; rfl)

end MemoryStore

namespace Repository

open Snapshot World

variable {ρ : Type} [Record ρ] {meaning : Meaning ρ} {α β δ : Type}

structure Ready (meaning : Meaning ρ) (limit : Duration) (present : Instant)
    (state : RepositoryState ρ) : Prop where
  world : AtRest meaning present state
  faults : state.store.faults = []
  latency : ∀ latency, state.store.latency = some latency → latency.pauseTicks ≤ limit.ticks

/-- Run alone, the activity gives what is told, and leaves the repository ready for the next. -/
def Implements (meaning : Meaning ρ) (repository : Repository)
    (activity : Activity (RepositoryState ρ) α) (plain : Plain α) : Prop :=
  ∀ (clock : Nat → Moment) (time : Timestamp) (freshId : RecordId) (step : Nat)
    (state : RepositoryState ρ), Clockwise clock time freshId →
    Ready meaning repository.queryTimeout (clock step).instant state →
    ∃ after next, activity.runOn clock step state =
        ((plain time freshId state.store.rows).1, after, next) ∧
      after.store.rows = (plain time freshId state.store.rows).2 ∧
      Ready meaning repository.queryTimeout (clock next).instant after

/-- One answer for all repositories with a store and invalidation, whatever their cache does. -/
def Transparent (meaning : Meaning ρ)
    (family : Repository → Activity (RepositoryState ρ) α) : Prop :=
  ∃ plain : Plain α, ∀ repository : Repository, repository.invalidation = .byIdentity →
    repository.hasStore = true → Implements meaning repository (family repository) plain

/-! How such activities are made -/

theorem implements_done {repository : Repository} (result : α) :
    Implements meaning repository (.done result) (.done result) :=
  fun _ _ _ step state _ ready => ⟨state, step, rfl, rfl, ready⟩

theorem Implements.bind {repository : Repository} {activity : Activity (RepositoryState ρ) α}
    {next : α → Activity (RepositoryState ρ) β} {plain : Plain α} {plains : α → Plain β}
    (first : Implements meaning repository activity plain)
    (rest : ∀ result, Implements meaning repository (next result) (plains result)) :
    Implements meaning repository (activity.bind next) (plain.bind plains) := by
  intro clock time freshId step state clockwise ready
  obtain ⟨middle, between, ran, rows, still⟩ := first clock time freshId step state clockwise ready
  obtain ⟨after, next, ranOn, rowsAfter, last⟩ :=
    rest _ clock time freshId between middle clockwise still
  refine ⟨after, next, ?_, ?_, last⟩
  · rw [rows] at ranOn
    exact (Activity.runOn_bind_of ran _).trans ranOn
  · rw [rows] at rowsAfter
    exact rowsAfter

theorem transparent_done (result : α) : Transparent meaning fun _ => .done result :=
  ⟨.done result, fun _ _ _ => implements_done result⟩

theorem Transparent.bind {family : Repository → Activity (RepositoryState ρ) α}
    {next : Repository → α → Activity (RepositoryState ρ) β} (first : Transparent meaning family)
    (rest : ∀ result, Transparent meaning fun repository => next repository result) :
    Transparent meaning fun repository => (family repository).bind (next repository) := by
  obtain ⟨plain, implements⟩ := first
  choose plains follows using rest
  exact ⟨plain.bind plains, fun repository tracking stored =>
    (implements repository tracking stored).bind fun result =>
      follows result repository tracking stored⟩

theorem Ready.mono {limit : Duration} {present later : Instant} {state : RepositoryState ρ}
    (ready : Ready meaning limit present state) (order : present ≤ later) :
    Ready meaning limit later state := ⟨ready.world.mono order, ready.faults, ready.latency⟩

theorem Implements.ask {repository : Repository} {answer : Moment → α}
    {next : α → Activity (RepositoryState ρ) β} {plains : Moment → Plain β}
    (same : ∀ first second : Moment, first.time = second.time →
      first.freshId = second.freshId → answer first = answer second)
    (rest : ∀ moment, Implements meaning repository (next (answer moment)) (plains moment)) :
    Implements meaning repository (.act (fun moment state => (answer moment, state)) next)
      (.ask plains) := by
  intro clock time freshId step state clockwise ready
  have given : answer (clock step) = answer ⟨⟨0⟩, time, freshId⟩ :=
    same _ _ (clockwise.time step) (clockwise.freshId step)
  obtain ⟨after, last, ran, rows, still⟩ := rest ⟨⟨0⟩, time, freshId⟩ clock time freshId (step + 1)
    state clockwise (ready.mono (clockwise.order step))
  refine ⟨after, last, ?_, rows, still⟩
  rw [← given] at ran
  exact ran

/-! Calls on the store -/

section Calls

variable {repository : Repository} {clock : Nat → Moment} {time : Timestamp} {freshId : RecordId}
  {step : Nat} {state : RepositoryState ρ}

theorem Ready.after {limit : Duration} {world after : World meaning} {later : Nat}
    (ready : Ready meaning limit (clock step).instant state)
    (clockwise : Clockwise clock time freshId)
    (before : world.1.others = ∅) (steps : Step meaning world.1 (clock step) after.1)
    (free : after.1.own = none) (order : step ≤ later)
    (faults : after.1.state.store.faults = state.store.faults)
    (latency : after.1.state.store.latency = state.store.latency) :
    Ready meaning limit (clock later).instant after.1.state where
  world := ⟨after, rfl, steps.now ▸ clockwise.le order, free, steps.others.trans before⟩
  faults := faults.trans ready.faults
  latency := fun waits same => ready.latency waits (latency.symm.trans same)

omit [Record ρ] in
theorem runForOn_call (clock : Nat → Moment) (step : Nat) {limit : Nat}
    (timely : ∀ latency, state.store.latency = some latency → latency.pauseTicks ≤ limit)
    (call : StoreCall) (effect : Rows → Except Failure (α × Rows)) :
    ∃ left, (onStore (MemoryStore.call call effect)).runForOn clock step limit state =
      (some (((state.store.begin call).perform effect).1, left),
        { state with store := ((state.store.begin call).perform effect).2 }, step + 2) := by
  cases latency : state.store.latency with
  | none =>
      refine ⟨limit, ?_⟩
      simp only [onStore, MemoryStore.call, Activity.onPart, Activity.runForOn, Activity.step,
        latency]
  | some span =>
      have enough := timely span latency
      refine ⟨limit - span.pauseTicks, ?_⟩
      simp only [onStore, MemoryStore.call, Activity.onPart, Activity.runForOn, Activity.step,
        latency, enough, ↓reduceIte]

theorem runOn_deadline (clock : Nat → Moment) (step : Nat)
    (timely : ∀ latency, state.store.latency = some latency →
      latency.pauseTicks ≤ repository.queryTimeout.ticks)
    (operation : String) (call : StoreCall) (effect : Rows → Except Failure (α × Rows)) :
    (repository.deadline operation (onStore (MemoryStore.call call effect))).runOn clock step
        state =
      (((state.store.begin call).perform effect).1,
        { state with store := ((state.store.begin call).perform effect).2 }, step + 2) := by
  obtain ⟨left, ends⟩ := runForOn_call clock step timely call effect
  simp only [deadline, Activity.limited, Activity.runOn, ends]

theorem runOn_uncached (clock : Nat → Moment) (step : Nat) (stored : repository.hasStore = true)
    (calm : state.store.faults = [])
    (timely : ∀ latency, state.store.latency = some latency →
      latency.pauseTicks ≤ repository.queryTimeout.ticks)
    (operation : String) (call : StoreCall) (read : Rows → Except Failure α) :
    (repository.uncached operation (MemoryStore.readCall call read)).runOn clock step state =
      (read state.store.rows, { state with store := state.store.begin call }, step + 2) := by
  have ran := runOn_deadline clock step timely operation call
    fun rows => (read rows).map fun answer => (answer, rows)
  have begun : (state.store.begin call).faults = [] := calm
  rw [MemoryStore.perform_read begun] at ran
  rw [uncached, if_pos stored]
  exact ran

theorem ready_of_read (ready : Ready meaning repository.queryTimeout (clock step).instant state)
    (clockwise : Clockwise clock time freshId) (call : StoreCall) :
    Ready meaning repository.queryTimeout (clock (step + 2)).instant
      { state with store := state.store.begin call } := by
  obtain ⟨world, rfl, order, free, alone⟩ := ready.world
  obtain ⟨after, steps, later, reached, _⟩ := world.quiet_step (clock step)
    { world.1.state with store := world.1.state.store.begin call } order world.2.cache
    (fun _ _ stored => stored) rfl rfl
  rw [← reached]
  refine ready.after clockwise alone steps (later.own.symm.trans free) (by omega) ?_ ?_
  · rw [reached]
    rfl
  · rw [reached]
    rfl

end Calls

/-! Reads -/

theorem implements_uncached {repository : Repository} (stored : repository.hasStore = true)
    (operation : String) (call : StoreCall) (read : Rows → Except Failure α) :
    Implements meaning repository
      (repository.uncached operation (MemoryStore.readCall call read)) (.read read) := by
  intro clock time freshId step state clockwise ready
  have ran := runOn_uncached clock step stored ready.faults ready.latency operation call read
  exact ⟨{ state with store := state.store.begin call }, step + 2, ran, rfl,
    ready_of_read ready clockwise call⟩

structure TellsRead (meaning : Meaning ρ) (key : Key) (shape : Shape ρ δ)
    (read : Rows → Except Failure δ) : Prop where
  fits : ∀ {rows : Rows} {value : δ}, meaning.Sound rows → read rows = .ok value →
    meaning.Fits rows key (shape.wrap value)
  reads : ∀ {rows : Rows} {cached : Cached ρ} {value : δ}, meaning.Sound rows →
    meaning.Fits rows key cached → shape.unwrap cached = some value → read rows = .ok value

section CachedReads

variable {repository : Repository} {clock : Nat → Moment} {time : Timestamp} {freshId : RecordId}
  {step : Nat} {state : RepositoryState ρ} {key : Key} {shape : Shape ρ δ}
  {read : Rows → Except Failure δ}

theorem lookup_ready (answers : TellsRead meaning key shape read)
    (ready : Ready meaning repository.queryTimeout (clock step).instant state)
    (clockwise : Clockwise clock time freshId) :
    Ready meaning repository.queryTimeout (clock (step + 1)).instant
        (lookup shape key (clock step) state).2 ∧
      (lookup shape key (clock step) state).2.index = state.index ∧
      (lookup shape key (clock step) state).2.store = state.store ∧
      (lookup shape key (clock step) state).1.2 = state.index.epoch ∧
      ∀ value, (lookup shape key (clock step) state).1.1 = some value →
        read state.store.rows = .ok value := by
  obtain ⟨world, rfl, order, free, alone⟩ := ready.world
  obtain ⟨after, steps, later, count, reached, found⟩ := world.lookup_step shape key order
  refine ⟨?_, rfl, rfl, rfl, fun value hit => ?_⟩
  · rw [← reached]
    refine ready.after clockwise alone steps (later.own.symm.trans free) (by omega) ?_ ?_
    · rw [reached]
      rfl
    · rw [reached]
      rfl
  · rw [found] at hit
    obtain ⟨cached, alive, shaped⟩ := Option.bind_eq_some_iff.mp hit
    have explained := world.2.explained key cached (ReadCache.live?_earlier order alive)
    rcases explained with fits | ⟨debt, owes, _⟩
    · exact answers.reads world.2.rows fits shaped
    · rcases owes with others | own
      · simp [alone] at others
      · simp [free] at own

theorem keep_ready (tracking : repository.invalidation = .byIdentity)
    (answers : TellsRead meaning key shape read)
    (ready : Ready meaning repository.queryTimeout (clock step).instant state)
    (clockwise : Clockwise clock time freshId) (lifetime : Duration) {epoch : UInt64} {value : δ}
    (current : epoch = state.index.epoch) (given : read state.store.rows = .ok value) :
    Ready meaning repository.queryTimeout (clock (step + 1)).instant
        (repository.keep key (shape.wrap value) lifetime epoch (clock step) state).2 ∧
      (repository.keep key (shape.wrap value) lifetime epoch (clock step) state).2.store =
        state.store := by
  obtain ⟨world, rfl, order, free, alone⟩ := ready.world
  have explained : world.1.Explains meaning key (shape.wrap value) :=
    Or.inl (answers.fits world.2.rows given)
  obtain ⟨after, steps, later, reached, _⟩ := world.keep_step tracking key (shape.wrap value)
    lifetime order (Nat.le_refl _) (by omega) fun _ => explained
  rw [← world.2.epoch, ← current] at reached
  have store := store_keep repository key (shape.wrap value) lifetime epoch
    (clock step) world.1.state
  refine ⟨?_, store⟩
  rw [← reached] at store ⊢
  exact ready.after clockwise alone steps (later.own.symm.trans free) (by omega)
    (congrArg MemoryStore.faults store) (congrArg MemoryStore.latency store)

end CachedReads

theorem implements_cachedRead {repository : Repository} {key : Key} {shape : Shape ρ δ}
    {read : Rows → Except Failure δ} (tracking : repository.invalidation = .byIdentity)
    (stored : repository.hasStore = true) (call : StoreCall)
    (answers : TellsRead meaning key shape read) :
    Implements meaning repository
      (repository.cachedRead shape key (MemoryStore.readCall call read)) (.read read) := by
  intro clock time freshId step state clockwise ready
  obtain ⟨looked, index, store, epoch, hits⟩ := lookup_ready answers ready clockwise
  simp only [cachedRead, stored, ↓reduceIte, Activity.runOn_bind, fetch, Activity.runOn,
    Plain.read]
  generalize found : lookup shape key (clock step) state = result at looked index store epoch hits
  obtain ⟨⟨hit, seen⟩, middle⟩ := result
  obtain rfl : seen = state.index.epoch := epoch
  cases hit with
  | some value =>
      refine ⟨middle, step + 1, ?_, congrArg MemoryStore.rows store, looked⟩
      simp only [Activity.runOn, hits value rfl]
  | none =>
      have ran := runOn_deadline clock (step + 1) looked.latency "load" call
        fun rows => (read rows).map fun answer => (answer, rows)
      have calm : (middle.store.begin call).faults = [] := looked.faults
      rw [MemoryStore.perform_read calm] at ran
      have onward := ready_of_read looked clockwise call
      have rows : (middle.store.begin call).rows = state.store.rows := by
        have same : middle.store = state.store := store
        rw [← same]
        rfl
      have loaded : (repository.deadline "load" (onStore (MemoryStore.readCall call read))).runOn
          clock (step + 1) middle =
          (read state.store.rows, { middle with store := middle.store.begin call },
            step + 1 + 2) := by
        rw [← rows]
        exact ran
      simp only [Activity.runOn_bind, loaded]
      cases given : read state.store.rows with
      | error failure => exact ⟨_, _, rfl, rows, onward⟩
      | ok value =>
          have given : read (middle.store.begin call).rows = .ok value := rows.symm ▸ given
          have current : state.index.epoch = middle.index.epoch :=
            congrArg KeyIndex.epoch index.symm
          obtain ⟨last, kept⟩ :=
            keep_ready tracking answers onward clockwise repository.readTtl current given
          exact ⟨_, _, rfl, (congrArg MemoryStore.rows kept).trans rows, last⟩

/-! Writes -/

section Writes

variable {repository : Repository} {clock : Nat → Moment} {time : Timestamp} {freshId : RecordId}
  {step : Nat} {state : RepositoryState ρ}

/-- As ready, but for what a debt of the operation itself affects. -/
def Owing (meaning : Meaning ρ) (limit : Duration) (present : Instant) (debt : Debt)
    (state : RepositoryState ρ) : Prop :=
  ∃ world : World meaning, world.1.state = state ∧ world.1.now ≤ present ∧
    (world.1.own = none ∨ world.1.own = some debt) ∧ world.1.others = ∅ ∧
    state.store.faults = [] ∧
    ∀ latency, state.store.latency = some latency → latency.pauseTicks ≤ limit.ticks

theorem Ready.owing {limit : Duration} {present : Instant}
    (ready : Ready meaning limit present state) (debt : Debt) :
    Owing meaning limit present debt state := by
  obtain ⟨world, reached, order, free, alone⟩ := ready.world
  exact ⟨world, reached, order, Or.inl free, alone, ready.faults, ready.latency⟩

theorem owing_of_write (ready : Ready meaning repository.queryTimeout (clock step).instant state)
    (clockwise : Clockwise clock time freshId) (call : StoreCall) {changed : Rows} {debt : Debt}
    (allowed : meaning.Sound state.store.rows → meaning.Permits state.store.rows changed debt) :
    Owing meaning repository.queryTimeout (clock (step + 2)).instant debt
      { state with store := { state.store.begin call with rows := changed } } := by
  obtain ⟨world, rfl, order, free, alone⟩ := ready.world
  obtain ⟨sound, stale⟩ := allowed world.2.rows
  obtain ⟨after, steps, reached, owed⟩ := world.write_step (clock step)
    { world.1.state.store.begin call with rows := changed } debt order free sound stale
  refine ⟨after, reached, ?_, owed, steps.others.trans alone, ready.faults, ready.latency⟩
  exact steps.now ▸ clockwise.le (Nat.le_add_right step 2)

theorem invalidateRecord_ready (tracking : repository.invalidation = .byIdentity)
    {id : Option RecordId}
    (owing : Owing meaning repository.queryTimeout (clock step).instant (.record id) state)
    (clockwise : Clockwise clock time freshId) :
    Ready meaning repository.queryTimeout (clock (step + 1)).instant
      (repository.invalidateRecord id (clock step) state).2 := by
  obtain ⟨world, rfl, order, owed, alone, faults, latency⟩ := owing
  obtain ⟨after, steps, reached, free, _⟩ :=
    world.invalidateRecord_step tracking id order owed
  have store := store_invalidateRecord repository id (clock step) world.1.state
  rw [← reached] at store ⊢
  refine ⟨⟨after, rfl, ?_, free, steps.others.trans alone⟩, ?_, ?_⟩
  · exact steps.now ▸ clockwise.order step
  · exact store ▸ faults
  · exact store ▸ latency

theorem invalidateAll_ready
    (owing : Owing meaning repository.queryTimeout (clock step).instant .all state)
    (clockwise : Clockwise clock time freshId) :
    Ready meaning repository.queryTimeout (clock (step + 1)).instant
      (invalidateAll (clock step) state).2 := by
  obtain ⟨world, rfl, order, owed, alone, faults, latency⟩ := owing
  obtain ⟨after, steps, reached, free, _⟩ := world.invalidateAll_step order owed
  rw [← reached]
  have store : after.1.state.store = world.1.state.store := by
    rw [reached]
    rfl
  refine ⟨⟨after, rfl, ?_, free, steps.others.trans alone⟩, ?_, ?_⟩
  · exact steps.now ▸ clockwise.order step
  · exact store ▸ faults
  · exact store ▸ latency

theorem runOn_effect (ready : Ready meaning repository.queryTimeout (clock step).instant state)
    (clockwise : Clockwise clock time freshId) (operation : String) (call : StoreCall)
    {effect : Rows → Except Failure (α × Rows)} {debt : Debt}
    (allowed : ∀ answer changed, meaning.Sound state.store.rows →
      effect state.store.rows = .ok (answer, changed) →
      meaning.Permits state.store.rows changed debt) :
    ∃ store : MemoryStore ρ,
      (repository.deadline operation (onStore (MemoryStore.call call effect))).runOn clock step
          state =
        ((effect state.store.rows).map (·.1), { state with store := store }, step + 2) ∧
      store.rows = ((effect state.store.rows).toOption.map (·.2)).getD state.store.rows ∧
      Owing meaning repository.queryTimeout (clock (step + 2)).instant debt
        { state with store := store } ∧
      ∀ failure, effect state.store.rows = .error failure →
        Ready meaning repository.queryTimeout (clock (step + 2)).instant
          { state with store := store } := by
  have ran := runOn_deadline clock step ready.latency operation call effect
  have calm : (state.store.begin call).faults = [] := ready.faults
  cases given : effect state.store.rows with
  | error failure =>
      rw [MemoryStore.perform_error calm given] at ran
      have left := ready_of_read ready clockwise call
      exact ⟨state.store.begin call, ran, rfl, left.owing debt, fun _ _ => left⟩
  | ok result =>
      obtain ⟨answer, changed⟩ := result
      rw [MemoryStore.perform_ok calm given] at ran
      refine ⟨{ state.store.begin call with rows := changed }, ran, rfl, ?_, ?_⟩
      · exact owing_of_write ready clockwise call fun sound => allowed answer changed sound given
      · exact fun failure impossible => by simp at impossible

end Writes

theorem implements_write {repository : Repository}
    (tracking : repository.invalidation = .byIdentity) (operation : String)
    (policy : DuplicatePolicy) (id : Option RecordId) (record : ρ) (call : StoreCall)
    {change : Rows → Except Failure Rows}
    (allowed : ∀ rows changed, meaning.Sound rows → change rows = .ok changed →
      meaning.Permits rows changed (.record id)) :
    Implements meaning repository
      (repository.write operation policy id record (MemoryStore.writeCall call change))
      (.write policy record change) := by
  let effect : Rows → Except Failure (Unit × Rows) :=
    fun rows => (change rows).map fun rows => ((), rows)
  intro clock time freshId step state clockwise ready
  have permitted : ∀ answer changed, meaning.Sound state.store.rows →
      effect state.store.rows = .ok (answer, changed) →
      meaning.Permits state.store.rows changed (.record id) := by
    intro answer changed sound given
    cases outcome : change state.store.rows with
    | error failure => simp [effect, outcome, Except.map] at given
    | ok made =>
        obtain rfl : made = changed := by simpa [effect, outcome, Except.map] using given
        exact allowed _ made sound outcome
  obtain ⟨store, ran, rows, owing, failed⟩ :=
    runOn_effect ready clockwise operation call permitted
  have written : (repository.write operation policy id record
      (MemoryStore.writeCall call change)).runOn clock step state =
      (repository.finishWrite policy id record
        ((effect state.store.rows).map (·.1))).runOn clock (step + 2)
          { state with store := store } :=
    Activity.runOn_bind_of ran _
  simp only [written, finishWrite, Plain.write, Plain.bind, Plain.effect, Plain.done]
  cases settled : settle policy ((effect state.store.rows).map (·.1)) with
  | error failure =>
      cases given : effect state.store.rows with
      | error cause => exact ⟨_, _, rfl, rows, failed cause given⟩
      | ok result => simp [given, Except.map, settle] at settled
  | ok answer =>
      have left := invalidateRecord_ready tracking owing clockwise
      refine ⟨_, _, rfl, ?_, left⟩
      have store := store_invalidateRecord repository id (clock (step + 2))
        { state with store := store }
      exact (congrArg MemoryStore.rows store).trans rows

theorem implements_truncate {repository : Repository} (stored : repository.hasStore = true)
    (empty : meaning.Sound .empty) :
    Implements meaning repository
      (repository.truncate : Activity (RepositoryState ρ) (Except Failure Nat))
      (.effect fun rows => .ok (rows.size, .empty)) := by
  let effect : Rows → Except Failure (Nat × Rows) := fun rows => .ok (rows.size, .empty)
  intro clock time freshId step state clockwise ready
  have permitted : ∀ answer changed, meaning.Sound state.store.rows →
      effect state.store.rows = .ok (answer, changed) →
      meaning.Permits state.store.rows changed .all := by
    intro answer changed _ given
    obtain ⟨_, rfl⟩ := Prod.mk.inj (Except.ok.inj given)
    exact ⟨empty, fun _ _ _ => Or.inr trivial⟩
  obtain ⟨store, ran, rows, owing, _⟩ :=
    runOn_effect ready clockwise "truncate" .truncate permitted
  refine ⟨_, _, ?_, rows, invalidateAll_ready owing clockwise⟩
  simp only [truncate, uncached, stored, ↓reduceIte]
  exact Activity.runOn_bind_of ran _

/-! The writes of records -/

section Records

variable {repository : Repository}

theorem implements_needingStore (stored : repository.hasStore = true) {record : ρ}
    {activity : Activity (RepositoryState ρ) (Written ρ)} {plain : Plain (Written ρ)}
    (implements : Implements meaning repository activity plain) :
    Implements meaning repository (repository.needingStore record activity) plain := by
  rw [needingStore, if_pos stored]
  exact implements

theorem implements_createWith (lawful : meaning.Lawful)
    (tracking : repository.invalidation = .byIdentity) (stored : repository.hasStore = true)
    (policy : DuplicatePolicy) (record : ρ) :
    Implements meaning repository (repository.createWith policy record)
      (Plain.createWith policy record) := by
  have stamps : ∀ first second : Moment, first.time = second.time →
      first.freshId = second.freshId → stampNew record first = stampNew record second := by
    intro first second time freshId
    simp only [stampNew, time, freshId]
  refine implements_needingStore stored (Implements.ask stamps fun moment => ?_)
  cases given : stampNew record moment with
  | error failure => exact implements_done _
  | ok result =>
      exact implements_write tracking "create" policy (some result.1) result.2 .create
        fun rows changed sound made => lawful.create sound given made

theorem implements_createIfAbsent (lawful : meaning.Lawful)
    (tracking : repository.invalidation = .byIdentity) (stored : repository.hasStore = true)
    (record : ρ) :
    Implements meaning repository (repository.createIfAbsent record)
      (Plain.createIfAbsent record) := by
  refine implements_needingStore stored
    ((implements_uncached stored "create_if_not" .findOne _).bind fun found => ?_)
  cases found with
  | ok existing => exact implements_done _
  | error failure =>
      by_cases missing : failure.isNotFound
      · simp only [missing, ↓reduceIte]
        exact implements_createWith lawful tracking stored .strict record
      · simp only [missing, Bool.false_eq_true, ↓reduceIte]
        exact implements_done _

theorem implements_update (lawful : meaning.Lawful)
    (tracking : repository.invalidation = .byIdentity) (stored : repository.hasStore = true)
    (record : ρ) :
    Implements meaning repository (repository.update record) (Plain.update record) := by
  have stamps : ∀ first second : Moment, first.time = second.time →
      first.freshId = second.freshId →
      Record.touchUpdated record first.time = Record.touchUpdated record second.time :=
    fun first second time _ => congrArg (Record.touchUpdated record) time
  refine implements_needingStore stored (Implements.ask stamps fun moment => ?_)
  exact implements_write tracking "update" .strict _ _ .update
    fun rows changed sound made => lawful.update sound made

theorem implements_softDelete (lawful : meaning.Lawful)
    (tracking : repository.invalidation = .byIdentity) (stored : repository.hasStore = true)
    (record : ρ) :
    Implements meaning repository (repository.softDelete record) (Plain.softDelete record) := by
  have stamps : ∀ first second : Moment, first.time = second.time →
      first.freshId = second.freshId → stampDeleted record first = stampDeleted record second := by
    intro first second time _
    simp only [stampDeleted, time]
  refine implements_needingStore stored (Implements.ask stamps fun moment => ?_)
  cases stampDeleted record moment with
  | error failure => exact implements_done _
  | ok stamped =>
      exact implements_write tracking "soft_delete" .strict _ _ .update
        fun rows changed sound made => lawful.update sound made

theorem implements_delete (lawful : meaning.Lawful)
    (tracking : repository.invalidation = .byIdentity) (stored : repository.hasStore = true)
    (record : ρ) :
    Implements meaning repository (repository.delete record) (Plain.delete record) :=
  implements_needingStore stored (implements_write tracking "delete" .strict _ _ .delete
    fun _ _ sound made => lawful.delete sound made)

end Records

end Repository

end CachedStore
