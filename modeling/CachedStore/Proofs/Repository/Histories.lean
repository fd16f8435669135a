import CachedStore.Proofs.Cache.Eviction
import CachedStore.Proofs.Repository.FailedOperations

/-!
Histories of a repository: whatever its operations do, one after the other or interleaved, they do
in steps of a few kinds. A step takes at most one entry away from the cache for want of room, and of
the others only those that it is about.
-/

namespace CachedStore

/-- What an operation does to the state of its repository in one step. -/
inductive Change (ρ : Type) where
  | look (key : Key)
  | keep (key : Key) (cached : Cached ρ) (lifetime : Duration) (epoch : UInt64)
  | drop (key : Key)
  | invalidateRecord (id : Option RecordId)
  | invalidateAll
  | useStore (store : MemoryStore ρ)

namespace Change

open Repository

variable {ρ : Type}

/-- Whether reads that the step overlaps are to notice it. -/
def invalidates (repository : Repository) : Change ρ → Bool
  | invalidateRecord _ => repository.invalidation = .byIdentity
  | invalidateAll => true
  | _ => false

/-- The step drops the entry of a key, evicts it, or keeps another value under the key. -/
def Removes (repository : Repository) (key : Key) (state : RepositoryState ρ) : Change ρ → Prop
  | keep other _ _ _ => other = key ∨ state.cache.victim? other = some key
  | drop other => other = key
  | invalidateRecord id => repository.invalidation = .byIdentity ∧ key ∈ (state.index.take id).1
  | invalidateAll => True
  | look _ | useStore _ => False

variable [Record ρ]

def apply (repository : Repository) (moment : Moment) (state : RepositoryState ρ) :
    Change ρ → RepositoryState ρ
  | look key => (lookup .one key moment state).2
  | keep key cached lifetime epoch => (repository.keep key cached lifetime epoch moment state).2
  | drop key => invalidateKey key state
  | invalidateRecord id => (repository.invalidateRecord id moment state).2
  | invalidateAll => (Repository.invalidateAll moment state).2
  | useStore store => { state with store := store }

end Change

abbrev History (ρ : Type) := List (Moment × Change ρ)

namespace Repository

section Histories

variable {ρ : Type} [Record ρ] (repository : Repository)

def undergo : History ρ → RepositoryState ρ → RepositoryState ρ
  | [], state => state
  | (moment, change) :: rest, state => undergo rest (change.apply repository moment state)

def invalidations (history : History ρ) : Nat :=
  history.countP fun (_, change) => change.invalidates repository

def LeavesAlone (key : Key) : History ρ → RepositoryState ρ → Prop
  | [], _ => True
  | (moment, change) :: rest, state =>
    ¬change.Removes repository key state ∧
      LeavesAlone key rest (change.apply repository moment state)

end Histories

variable {ρ δ : Type} [Record ρ] {repository : Repository}

/-! Keeping a value -/

/-- A new key came into the cache: of the other entries one at most is gone, for want of room. -/
structure Inserts (key : Key) (before after : RepositoryState ρ) : Prop where
  others : ∀ other, other ≠ key → after.cache.stored? other =
    if before.cache.victim? key = some other then none else before.cache.stored? other
  store : after.store = before.store

/-- The value is the one most recently used, and expires when its lifetime is over. -/
structure Entered (key : Key) (cached : Cached ρ) (lifetime : Duration) (now : Instant)
    (before after : RepositoryState ρ) : Prop extends Inserts key before after where
  stored : after.cache.stored? key = some ⟨cached, now.after? lifetime⟩
  first : (after.cache.shardOf key).keys.head? = some key

structure Dropped (key : Key) (before after : RepositoryState ρ) : Prop
    extends Inserts key before after where
  absent : after.cache.stored? key = none

section Keep

variable {state : RepositoryState ρ} {key : Key} {cached : Cached ρ} {lifetime : Duration}
  {epoch : UInt64} {moment : Moment}

theorem cache_keep_current
    (current : repository.invalidation = .disabled ∨ state.index.epoch = epoch) :
    (repository.keep key cached lifetime epoch moment state).2.cache =
      (state.cache.insert moment.instant key cached (some lifetime)).2 := by
  cases tracking : repository.invalidation with
  | disabled => simp only [keep, tracking]
  | byIdentity =>
      have same : state.index.epoch = epoch := current.resolve_left (by simp [tracking])
      obtain ⟨remembered, _⟩ := state.index.remember_current key cached.recordId?
      rw [same] at remembered
      -- What remembering does beyond its answer concerns the index alone.
      simp only [keep, tracking, remember]
      generalize state.index.remember epoch key cached.recordId? = outcome at remembered ⊢
      obtain ⟨_ | _, index⟩ := outcome
      · cases remembered
      · rfl

theorem cache_keep_overlapped (tracking : repository.invalidation = .byIdentity)
    (overlapped : state.index.epoch ≠ epoch) :
    (repository.keep key cached lifetime epoch moment state).2.cache =
      (state.cache.insert moment.instant key cached (some lifetime)).2.delete key := by
  simp only [keep, tracking, remember, KeyIndex.remember_overlapped overlapped]

theorem keep_entered (sound : state.cache.Sound)
    (current : repository.invalidation = .disabled ∨ state.index.epoch = epoch) :
    Entered key cached lifetime moment.instant state
      (repository.keep key cached lifetime epoch moment state).2 where
  others other different := by
    rw [cache_keep_current current]
    exact sound.stored?_insert_other different _ _ _
  store := store_keep repository key cached lifetime epoch moment state
  stored := by
    rw [cache_keep_current current]
    exact sound.stored?_insert _ _ _ _
  first := by
    rw [cache_keep_current current]
    exact sound.keys_insert _ _ _ _

theorem keep_dropped (sound : state.cache.Sound) (tracking : repository.invalidation = .byIdentity)
    (overlapped : state.index.epoch ≠ epoch) :
    Dropped key state (repository.keep key cached lifetime epoch moment state).2 where
  others other different := by
    rw [cache_keep_overlapped tracking overlapped, (sound.insert _ _ _ _).stored?_delete,
      if_neg different]
    exact sound.stored?_insert_other different _ _ _
  store := store_keep repository key cached lifetime epoch moment state
  absent := by
    rw [cache_keep_overlapped tracking overlapped, (sound.insert _ _ _ _).stored?_delete,
      if_pos rfl]

omit [Record ρ] in
theorem current_or_overlapped (repository : Repository) (state : RepositoryState ρ)
    (epoch : UInt64) :
    (repository.invalidation = .disabled ∨ state.index.epoch = epoch) ∨
      repository.invalidation = .byIdentity ∧ state.index.epoch ≠ epoch := by
  cases repository.invalidation with
  | disabled => exact Or.inl (Or.inl rfl)
  | byIdentity => exact (eq_or_ne state.index.epoch epoch).imp Or.inr fun apart => ⟨rfl, apart⟩

theorem keep_inserts (sound : state.cache.Sound) :
    Inserts key state (repository.keep key cached lifetime epoch moment state).2 := by
  rcases current_or_overlapped repository state epoch with current | ⟨tracking, overlapped⟩
  · exact (keep_entered sound current).toInserts
  · exact (keep_dropped sound tracking overlapped).toInserts

theorem sound_keep (sound : state.cache.Sound) :
    (repository.keep key cached lifetime epoch moment state).2.cache.Sound := by
  have inserted := sound.insert moment.instant key cached (some lifetime)
  rcases current_or_overlapped repository state epoch with current | ⟨tracking, overlapped⟩
  · rw [cache_keep_current current]
    exact inserted
  · rw [cache_keep_overlapped tracking overlapped]
    exact inserted.delete key

end Keep

/-! What a history leaves -/

section Histories

variable {state : RepositoryState ρ} {key : Key} {entry : Entry (Cached ρ)} {moment : Moment}

theorem sound_apply (sound : state.cache.Sound) (moment : Moment) (change : Change ρ) :
    (change.apply repository moment state).cache.Sound := by
  cases change with
  | look key => exact sound.get _ _
  | keep key cached lifetime epoch => exact sound_keep sound
  | drop key => exact sound.delete key
  | invalidateRecord id =>
      cases tracking : repository.invalidation with
      | disabled => simpa only [Change.apply, invalidateRecord, tracking] using sound
      | byIdentity =>
          simpa only [Change.apply, invalidateRecord, tracking] using sound.deleteAll _
  | invalidateAll => exact sound.clear
  | useStore store => exact sound

theorem epoch_apply (repository : Repository) (state : RepositoryState ρ) (moment : Moment)
    (change : Change ρ) :
    (change.apply repository moment state).index.epoch =
      state.index.epoch + if change.invalidates repository then 1 else 0 := by
  cases change with
  | look key => exact (UInt64.add_zero _).symm
  | keep key cached lifetime epoch =>
      exact (epoch_keep ..).trans (UInt64.add_zero _).symm
  | drop key => exact (UInt64.add_zero _).symm
  | invalidateRecord id =>
      cases tracking : repository.invalidation <;>
        simp [Change.apply, Change.invalidates, invalidateRecord, tracking, KeyIndex.take]
  | invalidateAll => rfl
  | useStore store => exact (UInt64.add_zero _).symm

theorem stored?_apply (sound : state.cache.Sound) {change : Change ρ}
    (spared : ¬change.Removes repository key state)
    (stored : state.cache.stored? key = some entry)
    (fresh : entry.isExpired moment.instant = false) :
    (change.apply repository moment state).cache.stored? key = some entry := by
  cases change with
  | look other =>
      rcases sound.stored?_get moment.instant other key with same | ⟨rfl, _, held, found, expired⟩
      · exact same.trans stored
      · obtain rfl : entry = held := Option.some.inj (stored.symm.trans found)
        simp [fresh] at expired
  | keep other cached lifetime epoch =>
      obtain ⟨different, roomy⟩ := not_or.mp spared
      have kept : Inserts other state
          (repository.keep other cached lifetime epoch moment state).2 := keep_inserts sound
      exact (kept.others key (Ne.symm different)).trans ((if_neg roomy).trans stored)
  | drop other =>
      exact (sound.stored?_delete other key).trans ((if_neg (Ne.symm spared)).trans stored)
  | invalidateRecord id =>
      cases tracking : repository.invalidation with
      | disabled => simpa only [Change.apply, invalidateRecord, tracking] using stored
      | byIdentity =>
          have apart : key ∉ (state.index.take id).1 := fun listed => spared ⟨tracking, listed⟩
          simp only [Change.apply, invalidateRecord, tracking]
          rw [sound.stored?_deleteAll, if_neg apart]
          exact stored
  | invalidateAll => exact absurd trivial spared
  | useStore store => exact stored

theorem sound_undergo (sound : state.cache.Sound) (history : History ρ) :
    (repository.undergo history state).cache.Sound := by
  induction history generalizing state with
  | nil => exact sound
  | cons past rest ih => exact ih (sound_apply sound past.1 past.2)

theorem epoch_undergo (repository : Repository) (state : RepositoryState ρ)
    (history : History ρ) :
    (repository.undergo history state).index.epoch =
      state.index.epoch + UInt64.ofNat (repository.invalidations history) := by
  induction history generalizing state with
  | nil => exact (UInt64.add_zero _).symm
  | cons past rest ih =>
      have one := epoch_apply repository state past.1 past.2
      have counted : repository.invalidations (past :: rest) =
          repository.invalidations rest + if past.2.invalidates repository then 1 else 0 :=
        List.countP_cons
      rw [undergo, ih, one, counted]
      split_ifs
      · rw [Nat.add_comm, UInt64.ofNat_add, ← UInt64.add_assoc]
        rfl
      · rw [Nat.add_zero, UInt64.add_zero]

theorem stored?_undergo (sound : state.cache.Sound) {history : History ρ}
    (leaves : repository.LeavesAlone key history state)
    (stored : state.cache.stored? key = some entry)
    (fresh : ∀ past ∈ history, entry.isExpired past.1.instant = false) :
    (repository.undergo history state).cache.stored? key = some entry := by
  induction history generalizing state with
  | nil => exact stored
  | cons past rest ih =>
      obtain ⟨spared, later⟩ := leaves
      have now := fresh past List.mem_cons_self
      have after := stored?_apply sound spared stored now
      exact ih (sound_apply sound past.1 past.2) later after
        fun past member => fresh past (List.mem_cons_of_mem _ member)

end Histories

/-! Operations -/

section Operations

variable {start state : RepositoryState ρ}

theorem undergo_append (repository : Repository) (first second : History ρ)
    (state : RepositoryState ρ) :
    repository.undergo (first ++ second) state =
      repository.undergo second (repository.undergo first state) := by
  induction first generalizing state with
  | nil => rfl
  | cons past rest ih => exact ih _

def Reached (repository : Repository) (start state : RepositoryState ρ) : Prop :=
  ∃ history, state = repository.undergo history start

theorem Reached.apply (reached : repository.Reached start state) (moment : Moment)
    (change : Change ρ) : repository.Reached start (change.apply repository moment state) := by
  obtain ⟨history, rfl⟩ := reached
  exact ⟨history ++ [(moment, change)],
    (undergo_append repository history [(moment, change)] start).symm⟩

theorem steady_reached (repository : Repository) (start : RepositoryState ρ) :
    repository.Steady (repository.Reached start) where
  call _ _ := .of_onPart _ fun moment store _ reached => reached.apply moment (.useStore store)
  invalidateRecord id moment _ reached := reached.apply moment (.invalidateRecord id)
  invalidateAll moment _ reached := reached.apply moment .invalidateAll

theorem keeps_reached_fetch (shape : Shape ρ δ) (key : Key) (lifetime : Duration)
    (load : Activity (MemoryStore ρ) (Except Failure δ)) :
    (repository.fetch shape key lifetime (onStore load)).Keeps (repository.Reached start) := by
  refine keeps_fetch ?_ (.of_onPart load ?_) ?_
  · exact fun moment _ reached => reached.apply moment (.look key)
  · exact fun moment store _ reached => reached.apply moment (.useStore store)
  · exact fun cached epoch moment _ reached =>
      reached.apply moment (.keep key cached lifetime epoch)

theorem keeps_reached_operation (operation : Operation ρ) :
    (operation.activity repository).Keeps (repository.Reached start) := by
  have steady := steady_reached repository start
  cases operation with
  | fetchOne key lifetime load =>
      exact (keeps_reached_fetch .one key lifetime load).bind fun _ => trivial
  | fetchMany key lifetime load =>
      exact (keeps_reached_fetch .many key lifetime load).bind fun _ => trivial
  | readByKey key id => exact (keeps_cachedRead_of (keeps_reached_fetch ..)).bind fun _ => trivial
  | findOne key filter => exact (keeps_cachedRead_of (keeps_reached_fetch ..)).bind fun _ => trivial
  | find key query => exact (keeps_cachedRead_of (keeps_reached_fetch ..)).bind fun _ => trivial
  | invalidate key =>
      exact ⟨fun moment _ reached => reached.apply moment (.drop key), fun _ => trivial⟩
  | create policy record => exact (keeps_createWith steady policy record).bind fun _ => trivial
  | createIfAbsent record => exact (keeps_createIfAbsent steady record).bind fun _ => trivial
  | update record => exact (keeps_update steady record).bind fun _ => trivial
  | softDelete record => exact (keeps_softDelete steady record).bind fun _ => trivial
  | delete record => exact (keeps_delete steady record).bind fun _ => trivial
  | truncate => exact (keeps_truncate steady).bind fun _ => trivial

/-- Histories tell all: each step of what clients may ask of a repository is one of the changes. -/
theorem keeps_reached (attempt : Attempt ρ) :
    (attempt.activity repository).Keeps (repository.Reached start) := by
  have steady := steady_reached repository start
  cases attempt with
  | operate operation => exact (keeps_reached_operation operation).bind fun _ => trivial
  | findMatches filter => exact (keeps_uncached_of (steady.call .find _)).bind fun _ => trivial
  | findByKeyWithFields id columns =>
      refine Activity.Keeps.bind ?_ fun _ => trivial
      refine (keeps_uncached_of (steady.call .find _)).bind fun found => ?_
      rcases found with failure | ⟨_ | ⟨record, rest⟩⟩ <;> trivial
  | existsLike record =>
      refine Activity.Keeps.bind ?_ fun _ => trivial
      refine (keeps_uncached_of (steady.call .findOne _)).bind fun found => ?_
      cases found <;> trivial

end Operations

end Repository

end CachedStore
