import CachedStore.Proofs.Activity.Clocked
import CachedStore.Repository.Writes

/-!
What the operations of a repository do to its store: they only call it, so that what no call breaks
stays as it is.
-/

namespace CachedStore

namespace MemoryStore

variable {ρ α : Type}

/-- What no call on a store breaks. -/
structure Steady (kept : MemoryStore ρ → Prop) : Prop where
  begin : ∀ store call, kept store → kept (store.begin call)
  perform : ∀ {α : Type} store (operation : Rows → Except Failure (α × Rows)), kept store →
    kept (store.perform operation).2

theorem latency_perform (store : MemoryStore ρ) (operation : Rows → Except Failure (α × Rows)) :
    (store.perform operation).2.latency = store.latency := by
  unfold perform
  cases store.faults with
  | cons failure faults => rfl
  | nil =>
      cases outcome : operation store.rows with
      | error failure => simp
      | ok result => simp

theorem steady_latency (latency : Option Duration) :
    Steady fun store : MemoryStore ρ => store.latency = latency where
  begin _ _ same := same
  perform store operation same := (latency_perform store operation).trans same

theorem keeps_call {kept : MemoryStore ρ → Prop} (steady : Steady kept) (call : StoreCall)
    (operation : Rows → Except Failure (α × Rows)) :
    (MemoryStore.call call operation).Keeps kept := by
  refine ⟨fun _ store => steady.begin store call, fun latency => ?_⟩
  cases latency with
  | none => exact ⟨fun _ store => steady.perform store operation, fun _ => trivial⟩
  | some latency => exact ⟨fun _ store => steady.perform store operation, fun _ => trivial⟩

end MemoryStore

namespace Repository

variable {ρ : Type} [Record ρ] {α δ : Type} {repository : Repository}

theorem store_keep (repository : Repository) (key : Key) (cached : Cached ρ) (lifetime : Duration)
    (epoch : UInt64) (moment : Moment) (state : RepositoryState ρ) :
    (repository.keep key cached lifetime epoch moment state).2.store = state.store := by
  cases tracking : repository.invalidation with
  | disabled => simp only [keep, tracking]
  | byIdentity =>
      simp only [keep, tracking]
      split <;> rfl

omit [Record ρ] in
theorem store_invalidateRecord (repository : Repository) (id : Option RecordId) (moment : Moment)
    (state : RepositoryState ρ) :
    (repository.invalidateRecord id moment state).2.store = state.store := by
  cases tracking : repository.invalidation <;> simp only [invalidateRecord, tracking]

section Any

variable {kept : RepositoryState ρ → Prop}

theorem keeps_deadline {call : Activity (RepositoryState ρ) (Except Failure α)}
    (keeps : call.Keeps kept) (operation : String) :
    (repository.deadline operation call).Keeps kept := ⟨keeps, fun _ => trivial⟩

theorem keeps_fetch {shape : Shape ρ δ} {key : Key} {lifetime : Duration}
    {load : Activity (RepositoryState ρ) (Except Failure δ)}
    (looks : ∀ moment state, kept state → kept (lookup shape key moment state).2)
    (loads : load.Keeps kept)
    (tracks : ∀ cached epoch moment state, kept state →
      kept (repository.keep key cached lifetime epoch moment state).2) :
    (repository.fetch shape key lifetime load).Keeps kept := by
  refine ⟨looks, fun answer => ?_⟩
  obtain ⟨_ | value, epoch⟩ := answer
  · refine (keeps_deadline loads "load").bind fun loaded => ?_
    cases loaded with
    | error failure => trivial
    | ok value => exact ⟨tracks _ epoch, fun _ => trivial⟩
  · trivial

theorem keeps_needingStore {record : ρ} {activity : Activity (RepositoryState ρ) (Written ρ)}
    (keeps : activity.Keeps kept) : (repository.needingStore record activity).Keeps kept := by
  unfold needingStore
  split
  · exact keeps
  · trivial

theorem keeps_uncached_of {operation : String}
    {call : Activity (MemoryStore ρ) (Except Failure α)} (keeps : (onStore call).Keeps kept) :
    (repository.uncached operation call).Keeps kept := by
  unfold uncached
  split
  · exact keeps_deadline keeps operation
  · trivial

theorem keeps_cachedRead_of {shape : Shape ρ δ} {key : Key}
    {load : Activity (MemoryStore ρ) (Except Failure δ)}
    (keeps : (repository.fetch shape key repository.readTtl (onStore load)).Keeps kept) :
    (repository.cachedRead shape key load).Keeps kept := by
  unfold cachedRead
  split
  · exact keeps.bind fun _ => trivial
  · trivial

end Any

/-! Writes -/

/-- What no step of a write breaks. -/
structure Steady (repository : Repository) (kept : RepositoryState ρ → Prop) : Prop where
  call : ∀ {α : Type} (call : StoreCall) (effect : Rows → Except Failure (α × Rows)),
    (onStore (MemoryStore.call call effect)).Keeps kept
  invalidateRecord : ∀ id moment state, kept state →
    kept (repository.invalidateRecord id moment state).2
  invalidateAll : ∀ moment state, kept state → kept (invalidateAll moment state).2

section Writes

variable {kept : RepositoryState ρ → Prop} (steady : repository.Steady kept)

include steady

theorem keeps_write (operation : String) (policy : DuplicatePolicy) (id : Option RecordId)
    (record : ρ) (call : StoreCall) (change : Rows → Except Failure Rows) :
    (repository.write operation policy id record (MemoryStore.writeCall call change)).Keeps
      kept := by
  refine (keeps_deadline (steady.call call _) operation).bind fun outcome => ?_
  unfold finishWrite
  cases settle policy outcome with
  | error failure => trivial
  | ok answer => exact ⟨steady.invalidateRecord id, fun _ => trivial⟩

theorem keeps_createWith (policy : DuplicatePolicy) (record : ρ) :
    (repository.createWith policy record).Keeps kept := by
  refine keeps_needingStore ⟨fun _ _ holds => holds, fun stamped => ?_⟩
  cases stamped with
  | error failure => trivial
  | ok result => exact keeps_write steady ..

theorem keeps_createIfAbsent (record : ρ) : (repository.createIfAbsent record).Keeps kept := by
  refine keeps_needingStore ?_
  refine (keeps_uncached_of (steady.call .findOne _)).bind fun found => ?_
  cases found with
  | ok existing => trivial
  | error failure =>
      by_cases missing : failure.isNotFound
      · simp only [missing, ↓reduceIte]
        exact keeps_createWith steady .strict record
      · simp only [missing, Bool.false_eq_true, ↓reduceIte]
        trivial

theorem keeps_update (record : ρ) : (repository.update record).Keeps kept :=
  keeps_needingStore ⟨fun _ _ holds => holds, fun _ => keeps_write steady ..⟩

theorem keeps_softDelete (record : ρ) : (repository.softDelete record).Keeps kept := by
  refine keeps_needingStore ⟨fun _ _ holds => holds, fun stamped => ?_⟩
  cases stamped with
  | error failure => trivial
  | ok stamped => exact keeps_write steady ..

theorem keeps_delete (record : ρ) : (repository.delete record).Keeps kept :=
  keeps_needingStore (keeps_write steady ..)

theorem keeps_truncate :
    (repository.truncate : Activity (RepositoryState ρ) (Except Failure Nat)).Keeps kept := by
  refine (keeps_uncached_of (steady.call .truncate _)).bind fun emptied => ?_
  cases emptied with
  | error failure => trivial
  | ok removed => exact ⟨steady.invalidateAll, fun _ => trivial⟩

end Writes

/-! The store -/

section Store

variable {kept : MemoryStore ρ → Prop}

omit [Record ρ] in
theorem keeps_onStore {call : Activity (MemoryStore ρ) α} (keeps : call.Keeps kept) :
    (onStore call).Keeps fun state => kept state.store := keeps.onPart fun _ _ => rfl

theorem keeps_cachedRead {shape : Shape ρ δ} {key : Key}
    {load : Activity (MemoryStore ρ) (Except Failure δ)} (keeps : load.Keeps kept) :
    (repository.cachedRead shape key load).Keeps fun state => kept state.store := by
  refine keeps_cachedRead_of (keeps_fetch (fun _ _ holds => holds) (keeps_onStore keeps) ?_)
  intro cached epoch moment state holds
  rw [store_keep]
  exact holds

theorem keeps_uncached {operation : String} {call : Activity (MemoryStore ρ) (Except Failure α)}
    (keeps : call.Keeps kept) :
    (repository.uncached operation call).Keeps fun state => kept state.store :=
  keeps_uncached_of (keeps_onStore keeps)

omit [Record ρ] in
theorem steady_store (repository : Repository) (steady : MemoryStore.Steady kept) :
    repository.Steady fun state => kept state.store where
  call call effect := keeps_onStore (MemoryStore.keeps_call steady call effect)
  invalidateRecord id moment state holds := by
    rw [store_invalidateRecord]
    exact holds
  invalidateAll _ _ holds := holds

end Store

/-! Calls that take longer than they may -/

section Late

variable {clock : Nat → Moment} {step : Nat} {state : RepositoryState ρ}

/-- The store takes longer for a call than the repository waits. -/
def Late (limit : Duration) (store : MemoryStore ρ) : Prop :=
  ∃ latency, store.latency = some latency ∧ limit.ticks < latency.pauseTicks

omit [Record ρ] in
theorem soon_of_not_late {limit : Duration} {store : MemoryStore ρ} (timely : ¬ Late limit store)
    (latency : Duration) (same : store.latency = some latency) :
    latency.pauseTicks ≤ limit.ticks :=
  Nat.not_lt.mp fun long => timely ⟨latency, same, long⟩

theorem runOn_deadline_late (late : Late repository.queryTimeout state.store) (operation : String)
    (call : StoreCall) (effect : Rows → Except Failure (α × Rows)) :
    ((repository.deadline operation (onStore (MemoryStore.call call effect))).runOn clock step
      state).1 = .error (deadlineExceeded ρ operation repository.queryTimeout) := by
  obtain ⟨latency, same, long⟩ := late
  have waits : ¬ latency.pauseTicks ≤ repository.queryTimeout.ticks := by omega
  simp only [deadline, Activity.limited, Activity.runOn, onStore, MemoryStore.call,
    Activity.onPart, Activity.runForOn, same, waits, ↓reduceIte]

theorem runOn_uncached_late (stored : repository.hasStore = true)
    (late : Late repository.queryTimeout state.store) (operation : String) (call : StoreCall)
    (effect : Rows → Except Failure (α × Rows)) :
    ((repository.uncached operation (MemoryStore.call call effect)).runOn clock step state).1 =
      .error (deadlineExceeded ρ operation repository.queryTimeout) := by
  rw [uncached, if_pos stored]
  exact runOn_deadline_late late operation call effect

theorem runOn_write_late (late : Late repository.queryTimeout state.store) (operation : String)
    (policy : DuplicatePolicy) (id : Option RecordId) (record : ρ) (call : StoreCall)
    (change : Rows → Except Failure Rows) :
    ((repository.write operation policy id record (MemoryStore.writeCall call change)).runOn clock
      step state).1.outcome = .error (deadlineExceeded ρ operation repository.queryTimeout) := by
  have missed : ((repository.deadline operation (onStore (MemoryStore.call call
      fun rows => (change rows).map fun rows => ((), rows)))).runOn clock step state).1 =
      .error (deadlineExceeded ρ operation repository.queryTimeout) :=
    runOn_deadline_late late operation call _
  have refused : settle policy (.error (deadlineExceeded ρ operation repository.queryTimeout)) =
      .error (deadlineExceeded ρ operation repository.queryTimeout) := by
    simp [settle, deadlineExceeded, Failure.isDuplicate]
  rw [write, Activity.runOn_bind, MemoryStore.writeCall, missed, finishWrite, refused]
  rfl

theorem runOn_createWith_late (stored : repository.hasStore = true)
    (late : Late repository.queryTimeout state.store) (policy : DuplicatePolicy) (record : ρ) :
    ∃ failure, ((repository.createWith policy record).runOn clock step state).1.outcome =
      .error failure := by
  rw [createWith, needingStore, if_pos stored]
  simp only [Activity.runOn]
  cases stampNew record (clock step) with
  | error failure => exact ⟨failure, rfl⟩
  | ok result => exact ⟨_, runOn_write_late late ..⟩

theorem runOn_createIfAbsent_late (stored : repository.hasStore = true)
    (late : Late repository.queryTimeout state.store) (record : ρ) :
    ∃ failure, ((repository.createIfAbsent record).runOn clock step state).1.outcome =
      .error failure := by
  rw [createIfAbsent, needingStore, if_pos stored, Activity.runOn_bind, MemoryStore.findOne,
    MemoryStore.readCall, runOn_uncached_late stored late]
  exact ⟨_, rfl⟩

end Late

end Repository

end CachedStore
