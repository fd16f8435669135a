import CachedStore.Cache.Sharded

/-!
The cache behind a repository: one cache, or one in shards.
-/

namespace CachedStore

inductive ReadCache (α : Type) where
  | single (cache : LruCache α)
  | sharded (cache : ShardedCache α)

namespace ReadCache

variable {α : Type}

def create (capacity : UInt64) (shards : Option UInt64) : Except Obstacle (ReadCache α) :=
  match shards with
  | none => ((LruCache.create capacity.toNat).mapError .failure).map single
  | some shards => (ShardedCache.create capacity shards).map sharded

def insert (cache : ReadCache α) (now : Instant) (key : Key) (value : α)
    (lifetime : Option Duration) : Bool × ReadCache α :=
  match cache with
  | single cache =>
    let (evicted, cache) := cache.insert now key value lifetime
    (evicted, single cache)
  | sharded cache =>
    let (evicted, cache) := cache.insert now key value lifetime
    (evicted, sharded cache)

def get (cache : ReadCache α) (now : Instant) (key : Key) : Option α × ReadCache α :=
  match cache with
  | single cache =>
    let (value, cache) := cache.get now key
    (value, single cache)
  | sharded cache =>
    let (value, cache) := cache.get now key
    (value, sharded cache)

def contains (cache : ReadCache α) (now : Instant) (key : Key) : Bool :=
  match cache with
  | single cache => cache.contains now key
  | sharded cache => cache.contains now key

def delete (cache : ReadCache α) (key : Key) : ReadCache α :=
  match cache with
  | single cache => single (cache.delete key)
  | sharded cache => sharded (cache.delete key)

def length (cache : ReadCache α) : Nat :=
  match cache with
  | single cache => cache.length
  | sharded cache => cache.length

def stats (cache : ReadCache α) : Tally :=
  match cache with
  | single cache => cache.stats
  | sharded cache => cache.stats

def clear (cache : ReadCache α) : ReadCache α :=
  match cache with
  | single cache => single cache.clear
  | sharded cache => sharded cache.clear

def purge (cache : ReadCache α) (now : Instant) : Nat × ReadCache α :=
  match cache with
  | single cache =>
    let (count, cache) := cache.purge now
    (count, single cache)
  | sharded cache =>
    let (count, cache) := cache.purge now
    (count, sharded cache)

def capacity (cache : ReadCache α) : Nat :=
  match cache with
  | single cache => cache.capacity
  | sharded cache => cache.capacity.toNat

/-- The keys of a single cache, the most recently used first. Shards have no order among them. -/
def keys? (cache : ReadCache α) : Option (List Key) :=
  match cache with
  | single cache => some cache.keys
  | sharded _ => none

def deleteAll (cache : ReadCache α) (keys : List Key) : ReadCache α :=
  keys.foldl delete cache

end ReadCache

end CachedStore
