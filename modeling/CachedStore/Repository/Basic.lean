import CachedStore.Cache.ReadCache
import CachedStore.Repository.KeyIndex
import CachedStore.Store.Calls

/-!
A repository: a store with a cache in front of it. Reads look into the cache first; writes go to the
store and drop the cached reads that they make stale. This module holds the policy of a repository,
its state, and the steps on the cache and the index that reads and writes are made of.
-/

namespace CachedStore

inductive Cached (ρ : Type) where
  | one (record : ρ)
  | many (records : List ρ)
deriving DecidableEq

namespace Cached

variable {ρ : Type} [Record ρ]

def recordId? : Cached ρ → Option RecordId
  | one record => Record.id? record
  | many _ => none

end Cached

/-- What a read expects to find: a value of type `δ`, kept as a cached read. -/
structure Shape (ρ δ : Type) where
  wrap : δ → Cached ρ
  unwrap : Cached ρ → Option δ

namespace Shape

variable {ρ : Type}

def one : Shape ρ ρ :=
  ⟨.one, fun
    | .one record => some record
    | .many _ => none⟩

def many : Shape ρ (List ρ) :=
  ⟨.many, fun
    | .one _ => none
    | .many records => some records⟩

end Shape

inductive DuplicatePolicy where
  | strict
  | ignore
deriving DecidableEq, Repr

inductive Invalidation where
  | byIdentity
  | disabled
deriving DecidableEq, Repr

structure Repository where
  readTtl : Duration
  queryTimeout : Duration
  invalidation : Invalidation
  hasStore : Bool
deriving DecidableEq, Repr

structure RepositoryState (ρ : Type) where
  cache : ReadCache (Cached ρ)
  index : KeyIndex
  store : MemoryStore ρ

namespace Repository

def defaultReadTtl : Duration := .ofSeconds 600

def defaultQueryTimeout : Duration := .ofSeconds 5

def standard : Repository := ⟨defaultReadTtl, defaultQueryTimeout, .byIdentity, true⟩

/-- The index is not pruned below this many keys. -/
def pruneFloor : Nat := 64

section Failures

variable (ρ : Type) [Record ρ]

def noCache : Failure :=
  ⟨.configuration, Record.kindName ρ ++ " repository built without a cache"⟩

def noStore : Failure :=
  ⟨.configuration, Record.kindName ρ ++ " repository has no backing store"⟩

def deadlineExceeded (operation : String) (limit : Duration) : Failure :=
  ⟨.queryFailed,
    Record.kindName ρ ++ " " ++ operation ++ " exceeded the " ++ limit.text ++ " deadline"⟩

end Failures

variable {ρ : Type} [Record ρ] {α : Type}

/-- A repository needs a cache and time for its queries. A missing store shows in each operation. -/
def build (repository : Repository) (cache : Option (ReadCache (Cached ρ)))
    (store : MemoryStore ρ) : Except Failure (RepositoryState ρ) :=
  match cache with
  | none => .error (noCache ρ)
  | some cache =>
    if repository.queryTimeout.isZero then .error .zeroTimeout
    else .ok ⟨cache, .empty, store⟩

def onStore (call : Activity (MemoryStore ρ) α) : Activity (RepositoryState ρ) α :=
  call.onPart RepositoryState.store fun store state => { state with store := store }

def deadline (repository : Repository) (operation : String)
    (call : Activity (RepositoryState ρ) (Except Failure α)) :
    Activity (RepositoryState ρ) (Except Failure α) :=
  call.limited repository.queryTimeout
    (.error (deadlineExceeded ρ operation repository.queryTimeout))

/-- Looks into the cache, and notes the epoch in which a load would start. -/
def lookup {δ : Type} (shape : Shape ρ δ) (key : Key) (moment : Moment)
    (state : RepositoryState ρ) : (Option δ × UInt64) × RepositoryState ρ :=
  let (cached, cache) := state.cache.get moment.instant key
  ((cached.bind shape.unwrap, state.index.epoch), { state with cache := cache })

/-- Tracks a read in the index; the first part tells whether no write overlapped it. -/
def remember (cache : ReadCache (Cached ρ)) (index : KeyIndex) (now : Instant) (key : Key)
    (cached : Cached ρ) (epoch : UInt64) : Bool × KeyIndex :=
  match index.remember epoch key cached.recordId? with
  | (false, index) => (false, index)
  | (true, index) =>
    (true, (index.pruneOver (max pruneFloor (2 * cache.length)) (cache.contains now)).2)

def keep (repository : Repository) (key : Key) (cached : Cached ρ) (lifetime : Duration)
    (epoch : UInt64) (moment : Moment) (state : RepositoryState ρ) : Unit × RepositoryState ρ :=
  let cache := (state.cache.insert moment.instant key cached (some lifetime)).2
  match repository.invalidation with
  | .disabled => ((), { state with cache := cache })
  | .byIdentity =>
    match remember cache state.index moment.instant key cached epoch with
    | (true, index) => ((), { state with cache := cache, index := index })
    | (false, index) => ((), { state with cache := cache.delete key, index := index })

def invalidateRecord (repository : Repository) (id : Option RecordId) (_ : Moment)
    (state : RepositoryState ρ) : Unit × RepositoryState ρ :=
  match repository.invalidation with
  | .disabled => ((), state)
  | .byIdentity =>
    let (keys, index) := state.index.take id
    ((), { state with cache := state.cache.deleteAll keys, index := index })

def invalidateAll (_ : Moment) (state : RepositoryState ρ) : Unit × RepositoryState ρ :=
  ((), { state with cache := state.cache.clear, index := state.index.takeAll.2 })

def invalidateKey (key : Key) (state : RepositoryState ρ) : RepositoryState ρ :=
  { state with cache := state.cache.delete key }

end Repository

end CachedStore
