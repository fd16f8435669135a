import CachedStore.Proofs.Repository.Loading
import CachedStore.Proofs.Repository.Sequence
import CachedStore.Proofs.Store.Requests

/-!
Operations that fail, run alone. Whatever the reason, they leave the rows, the index and the live
entries of the cache as they were.
-/

namespace CachedStore

namespace Repository

structure Unchanged {ρ : Type} (before after : RepositoryState ρ) : Prop where
  rows : after.store.rows = before.store.rows
  latency : after.store.latency = before.store.latency
  index : after.index = before.index
  cache : after.cache = before.cache

variable {ρ α β δ : Type} [Record ρ] {repository : Repository} {before after : RepositoryState ρ}
  {clock : Nat → Moment} {step : Nat}

omit [Record ρ] in
theorem Unchanged.refl (state : RepositoryState ρ) : Unchanged state state := ⟨rfl, rfl, rfl, rfl⟩

omit [Record ρ] in
theorem Unchanged.trans {middle : RepositoryState ρ} (first : Unchanged before middle)
    (second : Unchanged middle after) : Unchanged before after where
  rows := second.rows.trans first.rows
  latency := second.latency.trans first.latency
  index := second.index.trans first.index
  cache := second.cache.trans first.cache

/-- Run alone, the activity changes nothing if it ends with such a result. -/
def Spares (activity : Activity (RepositoryState ρ) α) (ends : α → Prop) : Prop :=
  ∀ (clock : Nat → Moment) (step : Nat) (state : RepositoryState ρ),
    ends (activity.runOn clock step state).1 →
    Unchanged state (activity.runOn clock step state).2.1

def Fails (result : Except Failure α) : Prop := Failure.of? result ≠ none

theorem not_fails_ok (value : α) : ¬Fails (.ok value) := fun fails => fails rfl

theorem Fails.of_map {result : Except Failure α} {wrap : α → β} (fails : Fails (result.map wrap)) :
    Fails result := by
  cases result with
  | ok value => exact absurd fails (not_fails_ok (wrap value))
  | error failure => exact fails

theorem eq_ok_of_not_fails {result : Except Failure α} (succeeds : ¬Fails result) :
    ∃ value, result = .ok value := by
  cases result with
  | ok value => exact ⟨value, rfl⟩
  | error failure => exact absurd (Option.some_ne_none failure) succeeds

namespace Spares

variable {ends : β → Prop} {mild : α → Prop} {activity : Activity (RepositoryState ρ) α}

omit [Record ρ] in
theorem done (result : β) : Spares (.done result : Activity (RepositoryState ρ) β) ends :=
  fun _ _ state _ => .refl state

omit [Record ρ] in
theorem bind {next : α → Activity (RepositoryState ρ) β} (first : Spares activity mild)
    (rest : ∀ result, mild result → Spares (next result) ends)
    (apart : ∀ result, ¬mild result → ∀ clock step state,
      ¬ends ((next result).runOn clock step state).1) :
    Spares (activity.bind next) ends := by
  intro clock step state ended
  rw [Activity.runOn_bind] at ended ⊢
  by_cases met : mild (activity.runOn clock step state).1
  · exact (first clock step state met).trans (rest _ met _ _ _ ended)
  · exact absurd ended (apart _ met _ _ _)

omit [Record ρ] in
theorem ask {answer : Moment → α} {next : α → Activity (RepositoryState ρ) β}
    (rest : ∀ result, Spares (next result) ends) :
    Spares (.act (fun moment state => (answer moment, state)) next) ends :=
  fun clock step state ended => rest _ clock (step + 1) state ended

end Spares

/-! Calls on the store -/

def Reads (call : Activity (MemoryStore ρ) α) : Prop :=
  ∀ rows latency, call.Keeps fun store => store.rows = rows ∧ store.latency = latency

omit [Record ρ] in
theorem reads_readCall (call : StoreCall) (read : Rows → Except Failure α) :
    Reads (MemoryStore.readCall call read : Activity (MemoryStore ρ) _) :=
  fun rows latency => (MemoryStore.keeps_readCall call read rows).and
    (MemoryStore.keeps_call (MemoryStore.steady_latency latency) call _)

theorem runOn_deadline_reads (repository : Repository) (clock : Nat → Moment) (step : Nat)
    (state : RepositoryState ρ) (operation : String)
    {call : Activity (MemoryStore ρ) (Except Failure α)} (reads : Reads call) :
    let after := ((repository.deadline operation (onStore call)).runOn clock step state).2.1
    after.store.rows = state.store.rows ∧ after.store.latency = state.store.latency :=
  (keeps_deadline (keeps_onStore (reads _ _)) operation).runOn clock step ⟨rfl, rfl⟩

theorem spares_deadline (operation : String) (call : StoreCall)
    (effect : Rows → Except Failure (α × Rows)) :
    Spares (repository.deadline operation
      (onStore (MemoryStore.call call effect) : Activity (RepositoryState ρ) _)) Fails := by
  intro clock step state failed
  have performs : ∀ store : MemoryStore ρ, Fails (store.perform effect).1 →
      (store.perform effect).2.rows = store.rows := by
    intro store failed
    rcases store.perform_cases effect with ⟨failure, after, performed, kept⟩ |
      ⟨answer, rows, _, performed⟩
    · rw [performed]
      exact kept
    · rw [performed] at failed
      exact absurd failed (not_fails_ok answer)
  obtain ⟨cache, index⟩ :=
    runOn_deadline_apart repository clock step state operation (MemoryStore.call call effect)
  refine ⟨?_, ?_, index, cache⟩
  · cases latency : state.store.latency with
    | none =>
        simp only [deadline, Activity.limited, Activity.runOn, onStore, MemoryStore.call,
          Activity.onPart, Activity.runForOn, Activity.step, latency] at failed ⊢
        exact performs (state.store.begin call) failed
    | some span =>
        by_cases enough : span.pauseTicks ≤ repository.queryTimeout.ticks
        · simp only [deadline, Activity.limited, Activity.runOn, onStore, MemoryStore.call,
            Activity.onPart, Activity.runForOn, Activity.step, latency, enough, ↓reduceIte]
            at failed ⊢
          exact performs (state.store.begin call) failed
        · simp only [deadline, Activity.limited, Activity.runOn, onStore, MemoryStore.call,
            Activity.onPart, Activity.runForOn, Activity.step, latency, enough, ↓reduceIte]
          rfl
  · have steady : (MemoryStore.call call effect).Keeps fun store : MemoryStore ρ =>
        store.latency = state.store.latency :=
      MemoryStore.keeps_call (MemoryStore.steady_latency _) call effect
    exact (keeps_deadline (keeps_onStore steady) operation).runOn clock step rfl

theorem spares_uncached (operation : String) (call : StoreCall)
    (effect : Rows → Except Failure (α × Rows)) :
    Spares (repository.uncached operation (MemoryStore.call call effect) :
      Activity (RepositoryState ρ) _) Fails := by
  unfold uncached
  split
  · exact spares_deadline operation call effect
  · exact .done _

theorem spares_read (operation : String) (call : StoreCall) (read : Rows → Except Failure α) :
    Spares (repository.uncached operation (MemoryStore.readCall call read) :
      Activity (RepositoryState ρ) _) fun _ => True := by
  unfold uncached
  split
  · intro clock step state _
    obtain ⟨cache, index⟩ :=
      runOn_deadline_apart repository clock step state operation (MemoryStore.readCall call read)
    obtain ⟨rows, latency⟩ := runOn_deadline_reads repository clock step state operation
      (reads_readCall call read)
    exact ⟨rows, latency, index, cache⟩
  · exact .done _

/-! Writes -/

omit [Record ρ] in
theorem spares_finishWrite (policy : DuplicatePolicy) (id : Option RecordId) (record : ρ)
    (outcome : Except Failure Unit) :
    Spares (repository.finishWrite policy id record outcome) fun written =>
      Fails written.outcome := by
  unfold finishWrite
  split
  · exact .done _
  · exact fun _ _ _ failed => absurd failed (not_fails_ok ())

theorem spares_write (operation : String) (policy : DuplicatePolicy) (id : Option RecordId)
    (record : ρ) (call : StoreCall) (change : Rows → Except Failure Rows) :
    Spares (repository.write operation policy id record (MemoryStore.writeCall call change))
      fun written => Fails written.outcome := by
  refine (spares_deadline operation call _).bind
    (fun outcome _ => spares_finishWrite policy id record outcome) ?_
  intro outcome succeeds clock step state
  obtain ⟨value, rfl⟩ := eq_ok_of_not_fails succeeds
  exact not_fails_ok ()

theorem spares_needingStore {record : ρ} {activity : Activity (RepositoryState ρ) (Written ρ)}
    {ends : Written ρ → Prop} (spares : Spares activity ends) :
    Spares (repository.needingStore record activity) ends := by
  unfold needingStore
  split
  · exact spares
  · exact .done _

theorem spares_createWith (policy : DuplicatePolicy) (record : ρ) :
    Spares (repository.createWith policy record) fun written => Fails written.outcome := by
  refine spares_needingStore (.ask fun stamped => ?_)
  cases stamped with
  | error failure => exact .done _
  | ok stamped => exact spares_write _ _ _ _ _ _

theorem spares_createIfAbsent (record : ρ) :
    Spares (repository.createIfAbsent record) fun written => Fails written.outcome := by
  refine spares_needingStore ((spares_read "create_if_not" .findOne _).bind
    (fun found _ => ?_) fun _ other => absurd trivial other)
  cases found with
  | ok existing => exact .done _
  | error failure =>
      by_cases missing : failure.isNotFound = true
      · simp only [missing, ↓reduceIte]
        exact spares_createWith .strict record
      · simp only [missing, Bool.false_eq_true, ↓reduceIte]
        exact .done _

theorem spares_update (record : ρ) :
    Spares (repository.update record) fun written => Fails written.outcome :=
  spares_needingStore (.ask fun _ => spares_write _ _ _ _ _ _)

theorem spares_softDelete (record : ρ) :
    Spares (repository.softDelete record) fun written => Fails written.outcome := by
  refine spares_needingStore (.ask fun stamped => ?_)
  cases stamped with
  | error failure => exact .done _
  | ok stamped => exact spares_write _ _ _ _ _ _

theorem spares_delete (record : ρ) :
    Spares (repository.delete record) fun written => Fails written.outcome :=
  spares_needingStore (spares_write _ _ _ _ _ _)

theorem spares_truncate :
    Spares (repository.truncate : Activity (RepositoryState ρ) (Except Failure Nat)) Fails := by
  refine (spares_uncached "truncate" .truncate _).bind (fun emptied failed => ?_) ?_
  · cases emptied with
    | error failure => exact .done _
    | ok removed => exact absurd failed (not_fails_ok removed)
  · intro emptied succeeds clock step state
    obtain ⟨removed, rfl⟩ := eq_ok_of_not_fails succeeds
    exact not_fails_ok removed

/-! Reads past the cache -/

theorem spares_findByKeyWithFields (id : RecordId) (columns : List String) :
    Spares (repository.findByKeyWithFields id columns : Activity (RepositoryState ρ) _) Fails := by
  refine (spares_read "find_by_key_with_fields" .find _).bind (fun found _ => ?_)
    fun _ other => absurd trivial other
  rcases found with failure | ⟨_ | ⟨record, rest⟩⟩
  · exact .done _
  · exact .done _
  · exact .done _

theorem spares_existsLike (record : ρ) : Spares (repository.existsLike record) Fails := by
  refine (spares_read "exists" .findOne _).bind (fun found _ => ?_)
    fun _ other => absurd trivial other
  cases found with
  | error failure => exact .done _
  | ok existing => exact .done _

/-! Reads through the cache -/

/--
Nothing is left of a read but that an expired entry under its key may be gone, and that nothing
happened to the rows if its load only `reads`.
-/
structure Untraced (read? : Option Key) (reads : Prop) (now : Instant)
    (before after : RepositoryState ρ) : Prop where
  rows : reads → after.store.rows = before.store.rows
  latency : reads → after.store.latency = before.store.latency
  index : after.index = before.index
  entries : ∀ key, after.cache.stored? key = before.cache.stored? key ∨
    read? = some key ∧ after.cache.stored? key = none ∧
      ∃ entry, before.cache.stored? key = some entry ∧ entry.isExpired now = true
  live : ∀ instant key, now ≤ instant →
    (after.cache.get instant key).1 = (before.cache.get instant key).1

omit [Record ρ] in
theorem Unchanged.untraced (unchanged : Unchanged before after) (read? : Option Key)
    (reads : Prop) (now : Instant) : Untraced read? reads now before after where
  rows _ := unchanged.rows
  latency _ := unchanged.latency
  index := unchanged.index
  entries _ := Or.inl (by rw [unchanged.cache])
  live _ _ _ := by rw [unchanged.cache]

omit [Record ρ] in
theorem untraced_lookup {reads : Prop} {key : Key} {now : Instant} (sound : before.cache.Sound)
    (rows : reads → after.store.rows = before.store.rows)
    (latency : reads → after.store.latency = before.store.latency)
    (index : after.index = before.index) (looked : after.cache = (before.cache.get now key).2) :
    Untraced (some key) reads now before after where
  rows := rows
  latency := latency
  index := index
  entries other := by
    rw [looked]
    rcases sound.stored?_get now key other with same | ⟨rfl, gone, expired⟩
    · exact Or.inl same
    · exact Or.inr ⟨rfl, gone, expired⟩
  live instant other order := by
    rw [looked, (sound.get now key).get_fst, sound.get_fst, ReadCache.live?, ReadCache.live?]
    rcases sound.stored?_get now key other with same | ⟨rfl, gone, entry, stored, expired⟩
    · rw [same]
    · rw [gone, stored]
      exact (Entry.live?_of_expired expired order).symm

theorem untraced_fetch {shape : Shape ρ δ} {key : Key} {lifetime : Duration}
    {load : Activity (MemoryStore ρ) (Except Failure δ)} (sound : before.cache.Sound)
    (failed : Fails ((repository.fetch shape key lifetime (onStore load)).runOn clock step
      before).1.outcome) :
    Untraced (some key) (Reads load) (clock step).instant before
      ((repository.fetch shape key lifetime (onStore load)).runOn clock step before).2.1 := by
  have ends := fetch_ends repository clock shape key lifetime (onStore load) step before
  generalize (repository.fetch shape key lifetime (onStore load)).runOn clock step before = ended
    at ends failed ⊢
  cases ends with
  | @hit value found => exact absurd failed (not_fails_ok value)
  | @kept value _ _ _ _ => exact absurd failed (not_fails_ok value)
  | @failed failure middle later missed loaded =>
      let looked := (lookup shape key (clock step) before).2
      obtain ⟨cache, index⟩ :=
        runOn_deadline_apart repository clock (step + 1) looked "load" load
      have store := fun reads : Reads load =>
        runOn_deadline_reads repository clock (step + 1) looked "load" reads
      simp only [looked, loaded] at cache index store
      exact untraced_lookup sound (fun reads => (store reads).1) (fun reads => (store reads).2)
        index cache

def Traceless (activity : Activity (RepositoryState ρ) α) (read? : Option Key) (reads : Prop)
    (ends : α → Prop) : Prop :=
  ∀ (clock : Nat → Moment) (step : Nat) (state : RepositoryState ρ), state.cache.Sound →
    ends (activity.runOn clock step state).1 →
    Untraced read? reads (clock step).instant state (activity.runOn clock step state).2.1

section Traceless

variable {activity : Activity (RepositoryState ρ) α} {read? : Option Key} {reads : Prop}
  {ends : β → Prop}

omit [Record ρ] in
theorem Spares.traceless {ends : α → Prop} (spares : Spares activity ends) (read? : Option Key)
    (reads : Prop) : Traceless activity read? reads ends :=
  fun clock step state _ ended => (spares clock step state ended).untraced read? reads _

omit [Record ρ] in
theorem Traceless.map {report : α → β}
    (traceless : Traceless activity read? reads fun result => ends (report result)) :
    Traceless (activity.bind fun result => .done (report result)) read? reads ends := by
  intro clock step state sound ended
  rw [Activity.runOn_bind] at ended ⊢
  exact traceless clock step state sound ended

omit [Record ρ] in
theorem Traceless.mono {ends others : α → Prop}
    (traceless : Traceless activity read? reads others)
    (fewer : ∀ result, ends result → others result) : Traceless activity read? reads ends :=
  fun clock step state sound ended => traceless clock step state sound (fewer _ ended)

theorem traceless_fetch (shape : Shape ρ δ) (key : Key) (lifetime : Duration)
    (load : Activity (MemoryStore ρ) (Except Failure δ)) :
    Traceless (repository.fetch shape key lifetime (onStore load)) (some key) (Reads load)
      fun fetched => Fails fetched.outcome :=
  fun _ _ _ sound failed => untraced_fetch sound failed

theorem traceless_cachedRead (shape : Shape ρ δ) (key : Key) (call : StoreCall)
    (read : Rows → Except Failure δ) :
    Traceless (repository.cachedRead shape key (MemoryStore.readCall call read)) (some key) True
      Fails := by
  unfold cachedRead
  split
  · refine Traceless.map fun clock step state sound failed => ?_
    have untraced := traceless_fetch shape key repository.readTtl
      (MemoryStore.readCall call read) clock step state sound failed
    have only : Reads (MemoryStore.readCall call read : Activity (MemoryStore ρ) _) :=
      reads_readCall call read
    exact { untraced with rows := fun _ => untraced.rows only,
                          latency := fun _ => untraced.latency only }
  · exact (Spares.done _).traceless _ _

end Traceless

end Repository

/-- How an attempt failed, if it did, and the record that it left with its caller. -/
structure Report (ρ : Type) where
  failure : Option Failure
  record : Option ρ

def Outcome.report {ρ : Type} : Outcome ρ → Report ρ
  | read result => ⟨Failure.of? result, none⟩
  | wrote written => ⟨Failure.of? written.outcome, some written.record⟩
  | truncated result => ⟨Failure.of? result, none⟩
  | invalidated => ⟨none, none⟩

/-- What clients may ask of a repository, reads past the cache included. -/
inductive Attempt (ρ : Type) : Type 1 where
  | operate (operation : Operation ρ)
  | findMatches (filter : Filter)
  | findByKeyWithFields (id : RecordId) (columns : List String)
  | existsLike (record : ρ)

namespace Attempt

open Repository

variable {ρ : Type}

def readKey? : Attempt ρ → Option Key
  | operate operation => operation.readKey?
  | _ => none

def OnlyReads : Attempt ρ → Prop
  | operate (.fetchOne _ _ load) => Reads load
  | operate (.fetchMany _ _ load) => Reads load
  | _ => True

def record? : Attempt ρ → Option ρ
  | operate (.create _ record) => some record
  | operate (.createIfAbsent record) => some record
  | operate (.update record) => some record
  | operate (.softDelete record) => some record
  | operate (.delete record) => some record
  | _ => none

def needsStore : Attempt ρ → Bool
  | operate (.fetchOne _ _ _) => false
  | operate (.fetchMany _ _ _) => false
  | operate (.invalidate _) => false
  | _ => true

variable [Record ρ]

def activity (repository : Repository) : Attempt ρ → Activity (RepositoryState ρ) (Report ρ)
  | operate operation =>
    (operation.activity repository).bind fun outcome => .done outcome.report
  | findMatches filter =>
    (repository.findMatches filter : Activity (RepositoryState ρ) _).bind fun result =>
      .done ⟨Failure.of? result, none⟩
  | findByKeyWithFields id columns =>
    (repository.findByKeyWithFields id columns : Activity (RepositoryState ρ) _).bind fun result =>
      .done ⟨Failure.of? result, none⟩
  | existsLike record =>
    (repository.existsLike record).bind fun result => .done ⟨Failure.of? result, none⟩

theorem traceless_operation (repository : Repository) (operation : Operation ρ) :
    Traceless (operation.activity repository) operation.readKey?
      (OnlyReads (.operate operation)) fun outcome => outcome.report.failure ≠ none := by
  cases operation with
  | fetchOne key lifetime load =>
      exact .map ((traceless_fetch .one key lifetime load).mono fun _ => Fails.of_map)
  | fetchMany key lifetime load =>
      exact .map ((traceless_fetch .many key lifetime load).mono fun _ => Fails.of_map)
  | readByKey key id =>
      exact .map ((traceless_cachedRead .one key .readByKey _).mono fun _ => Fails.of_map)
  | findOne key filter =>
      exact .map ((traceless_cachedRead .one key .findOne _).mono fun _ => Fails.of_map)
  | find key query =>
      exact .map ((traceless_cachedRead .many key .find _).mono fun _ => Fails.of_map)
  | invalidate key => exact fun _ _ _ _ failed => absurd rfl failed
  | create policy record => exact .map ((spares_createWith policy record).traceless none True)
  | createIfAbsent record => exact .map ((spares_createIfAbsent record).traceless none True)
  | update record => exact .map ((spares_update record).traceless none True)
  | softDelete record => exact .map ((spares_softDelete record).traceless none True)
  | delete record => exact .map ((spares_delete record).traceless none True)
  | truncate => exact .map (spares_truncate.traceless none True)

theorem traceless (repository : Repository) (attempt : Attempt ρ) :
    Traceless (attempt.activity repository) attempt.readKey? attempt.OnlyReads
      fun report => report.failure ≠ none := by
  cases attempt with
  | operate operation => exact .map (traceless_operation repository operation)
  | findMatches filter =>
      have spares : Spares (repository.findMatches filter : Activity (RepositoryState ρ) _) Fails :=
        spares_uncached "find_matches" .find _
      exact .map (spares.traceless none True)
  | findByKeyWithFields id columns =>
      exact .map ((spares_findByKeyWithFields id columns).traceless none True)
  | existsLike record => exact .map ((spares_existsLike record).traceless none True)

theorem runOn_without_store {repository : Repository} (missing : repository.hasStore = false)
    {attempt : Attempt ρ} (needs : attempt.needsStore = true) (clock : Nat → Moment) (step : Nat)
    (state : RepositoryState ρ) :
    (attempt.activity repository).runOn clock step state =
      (⟨some (noStore ρ), attempt.record?⟩, state, step) := by
  have absent : ¬repository.hasStore = true := by simp [missing]
  have refused : ∀ record (write : Activity (RepositoryState ρ) (Written ρ)),
      repository.needingStore record write = .done ⟨.error (noStore ρ), record⟩ :=
    fun record write => if_neg absent
  have unread : ∀ {δ : Type} (shape : Shape ρ δ) key load,
      repository.cachedRead shape key load = .done (.error (noStore ρ)) :=
    fun shape key load => if_neg absent
  have uncalled : ∀ {α : Type} operation (call : Activity (MemoryStore ρ) (Except Failure α)),
      repository.uncached operation call = .done (.error (noStore ρ)) :=
    fun operation call => if_neg absent
  cases attempt with
  | operate operation =>
      cases operation with
      | fetchOne _ _ _ | fetchMany _ _ _ | invalidate _ => cases needs
      | readByKey key id =>
          rw [activity, Operation.activity, Repository.readByKey, unread]
          rfl
      | findOne key filter =>
          rw [activity, Operation.activity, Repository.findOne, unread]
          rfl
      | find key query =>
          rw [activity, Operation.activity, Repository.find, unread]
          rfl
      | create policy record =>
          rw [activity, Operation.activity, Repository.createWith, refused]
          rfl
      | createIfAbsent record =>
          rw [activity, Operation.activity, Repository.createIfAbsent, refused]
          rfl
      | update record =>
          rw [activity, Operation.activity, Repository.update, refused]
          rfl
      | softDelete record =>
          rw [activity, Operation.activity, Repository.softDelete, refused]
          rfl
      | delete record =>
          rw [activity, Operation.activity, Repository.delete, refused]
          rfl
      | truncate =>
          rw [activity, Operation.activity, Repository.truncate, uncalled]
          rfl
  | findMatches filter =>
      rw [activity, Repository.findMatches, uncalled]
      rfl
  | findByKeyWithFields id columns =>
      rw [activity, Repository.findByKeyWithFields, uncalled]
      rfl
  | existsLike record =>
      rw [activity, Repository.existsLike, uncalled]
      rfl

end Attempt

namespace Repository

variable {ρ : Type} [Record ρ] {repository : Repository} {clock : Nat → Moment} {step next : Nat}
  {before after : RepositoryState ρ} {attempt : Attempt ρ} {failure : Failure} {record : Option ρ}

/--
An operation that fails leaves the rows, the index and what is live in the cache as they were. Only
an expired entry under the key of a read may be gone. If there is no store, nothing has changed.
-/
theorem failed_attempt_untraced (sound : before.cache.Sound)
    (ran : (attempt.activity repository).runOn clock step before =
      (⟨some failure, record⟩, after, next)) :
    Untraced attempt.readKey? attempt.OnlyReads (clock step).instant before after ∧
      (repository.hasStore = false → attempt.needsStore = true →
        failure = noStore ρ ∧ record = attempt.record? ∧ after = before) := by
  have failed : ((attempt.activity repository).runOn clock step before).1.failure ≠ none := by
    rw [ran]
    exact Option.some_ne_none failure
  have untraced := attempt.traceless repository clock step before sound failed
  rw [ran] at untraced
  refine ⟨untraced, fun missing needs => ?_⟩
  have refused := attempt.runOn_without_store missing needs clock step before
  rw [ran] at refused
  obtain ⟨report, state⟩ := Prod.mk.inj refused
  obtain ⟨cause, handed⟩ := Report.mk.inj report
  exact ⟨Option.some.inj cause, handed, congrArg Prod.fst state⟩

/-- An expired account in the cache, before a store that is slower than its repository waits. -/
def staleCache : ReadCache (Cached Account) :=
  ((ReadCache.single ⟨8, .empty, .empty, .zero⟩).insert ⟨0⟩ "k" (.one (.named "x")) (some ⟨5⟩)).2

def slowStore : RepositoryState Account := ⟨staleCache, .empty, .create (some (.ofSeconds 10))⟩

def readStale : Attempt Account := .operate (.readByKey "k" ⟨"a"⟩)

def afternoon (step : Nat) : Moment := ⟨⟨10 + step⟩, ⟨2024, 1, 1, 15, 0, 0, 0⟩, ⟨"b"⟩⟩

theorem failed_attempt_untraced_stale :
    ∃ (after : RepositoryState Account) (next : Nat) (record : Option Account),
      slowStore.cache.Sound ∧
      (readStale.activity standard).runOn afternoon 3 slowStore =
        (⟨some (deadlineExceeded Account "load" (.ofSeconds 5)), record⟩, after, next) ∧
      (slowStore.cache.stored? "k").isSome = true ∧ (after.cache.stored? "k").isSome = false ∧
      Untraced (some "k") True ⟨13⟩ slowStore after := by
  have created : ReadCache.create 8 none =
      .ok (ReadCache.single ⟨8, .empty, .empty, .zero⟩ : ReadCache (Cached Account)) := rfl
  have sound : slowStore.cache.Sound := (ReadCache.create_sound created).1.insert _ _ _ _
  let ended := (readStale.activity standard).runOn afternoon 3 slowStore
  have failure : ended.1.failure = some (deadlineExceeded Account "load" (.ofSeconds 5)) := by
    decide +kernel
  have ran : (readStale.activity standard).runOn afternoon 3 slowStore =
      (⟨some (deadlineExceeded Account "load" (.ofSeconds 5)), ended.1.record⟩, ended.2.1,
        ended.2.2) := by
    rw [← failure]
  have untraced := (failed_attempt_untraced sound ran).1
  exact ⟨_, _, _, sound, ran, by decide +kernel, by decide +kernel, untraced⟩

end Repository

end CachedStore
