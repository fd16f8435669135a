import CachedStore.Cache.Lru
import CachedStore.Text.Fingerprint

/-!
A cache split into shards by the fingerprint of the key. Each shard is a cache of its own, with its
own order of use; only whole-cache operations look at more than one.
-/

namespace CachedStore

structure ShardedCache (α : Type) where
  shards : Array (LruCache α)
  shards_pos : 0 < shards.size

namespace ShardedCache

variable {α : Type}

/-- The share of each shard: the capacity divided and rounded up. -/
def shareOf (capacity shards : UInt64) : UInt64 :=
  .ofNat ((capacity.toNat + shards.toNat - 1) / shards.toNat)

def create (capacity shards : UInt64) : Except Obstacle (ShardedCache α) :=
  if capacity = 0 ∨ shards = 0 then
    .error (.failure (if shards = 0 then .noShards else .noCapacity))
  -- Rounding up starts with the sum of both, which has to be a word.
  else if 2 ^ 64 ≤ capacity.toNat + shards.toNat then .error .overflow
  else
    match LruCache.create (shareOf capacity shards).toNat with
    | .error failure => .error (.failure failure)
    | .ok shard =>
      if positive : 0 < shards.toNat then
        .ok ⟨Array.replicate shards.toNat shard, by simpa using positive⟩
      else .error (.failure .noShards)

def owner (cache : ShardedCache α) (key : Key) : Fin cache.shards.size :=
  ⟨(Fingerprint.ofText key).toNat % cache.shards.size, Nat.mod_lt _ cache.shards_pos⟩

def shardOf (cache : ShardedCache α) (key : Key) : LruCache α := cache.shards[cache.owner key]

def onOwner {β : Type} (cache : ShardedCache α) (key : Key)
    (operation : LruCache α → β × LruCache α) : β × ShardedCache α :=
  let (answer, shard) := operation (cache.shardOf key)
  (answer,
    ⟨cache.shards.set (cache.owner key) shard, by simpa using cache.shards_pos⟩)

def onEach (cache : ShardedCache α) (operation : LruCache α → LruCache α) : ShardedCache α :=
  ⟨cache.shards.map operation, by simpa using cache.shards_pos⟩

def insert (cache : ShardedCache α) (now : Instant) (key : Key) (value : α)
    (lifetime : Option Duration) : Bool × ShardedCache α :=
  cache.onOwner key (·.insert now key value lifetime)

def get (cache : ShardedCache α) (now : Instant) (key : Key) : Option α × ShardedCache α :=
  cache.onOwner key (·.get now key)

def contains (cache : ShardedCache α) (now : Instant) (key : Key) : Bool :=
  (cache.shardOf key).contains now key

def delete (cache : ShardedCache α) (key : Key) : ShardedCache α :=
  (cache.onOwner key fun shard => ((), shard.delete key)).2

def purge (cache : ShardedCache α) (now : Instant) : Nat × ShardedCache α :=
  ((cache.shards.toList.map fun shard => (shard.purge now).1).sum,
    cache.onEach fun shard => (shard.purge now).2)

def length (cache : ShardedCache α) : Nat := (cache.shards.toList.map (·.length)).sum

def capacity (cache : ShardedCache α) : UInt64 :=
  (cache.shards.toList.map fun shard => UInt64.ofNat shard.capacity).sum

def stats (cache : ShardedCache α) : Tally :=
  cache.shards.toList.foldl (fun total shard => total.merge shard.stats) .zero

def clear (cache : ShardedCache α) : ShardedCache α := cache.onEach (·.clear)

end ShardedCache

end CachedStore
