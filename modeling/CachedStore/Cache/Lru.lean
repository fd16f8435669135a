import Std.Data.TreeMap
import CachedStore.Cache.Recency
import CachedStore.Cache.Tally
import CachedStore.Failure
import CachedStore.Time.Duration

/-!
A cache of bounded size that drops the entry least recently used. Entries may expire; an expired one
stays until it is looked up, purged, evicted or overwritten.
-/

namespace CachedStore

abbrev Key := String

structure Entry (α : Type) where
  value : α
  deadline : Option Instant

namespace Entry

variable {α : Type}

/-- An entry without a lifetime, or with one that ends past the clock, never expires. -/
def create (now : Instant) (value : α) (lifetime : Option Duration) : Entry α :=
  ⟨value, lifetime.bind now.after?⟩

def isExpired (entry : Entry α) (now : Instant) : Bool :=
  match entry.deadline with
  | some deadline => deadline ≤ now
  | none => false

def remaining (entry : Entry α) (now : Instant) : Option Duration :=
  entry.deadline.map fun deadline => ⟨deadline.nanoseconds - now.nanoseconds⟩

def live? (entry : Entry α) (now : Instant) : Option α :=
  if entry.isExpired now then none else some entry.value

end Entry

structure LruCache (α : Type) where
  capacity : Nat
  index : Std.TreeMap Key Nat
  order : Recency (Key × Entry α)
  tally : Tally

namespace LruCache

variable {α : Type}

def create (capacity : Nat) : Except Failure (LruCache α) :=
  if capacity = 0 then .error .noCapacity
  else .ok ⟨capacity, .empty, .empty, .zero⟩

def length (cache : LruCache α) : Nat := cache.index.size

def unlink (cache : LruCache α) (key : Key) : Option (Entry α) × LruCache α :=
  match cache.index[key]? with
  | none => (none, cache)
  | some slot =>
    let index := cache.index.erase key
    let (removed, order) := cache.order.remove slot
    (removed.map (·.2),
      { cache with index := index, order := order, tally := cache.tally.withEntries index.size })

def makeRoom (cache : LruCache α) : Bool × LruCache α :=
  if cache.order.length < cache.capacity then (false, cache)
  else
    match cache.order.popBack with
    | (some (oldest, _), order) =>
      (true,
        { cache with
          index := cache.index.erase oldest
          order := order
          tally := cache.tally.recordEviction })
    | (none, _) => (false, cache)

/--
Stores a value, as the most recently used one. Overwriting keeps the slot of the key; a new key may
evict, which the first part tells.
-/
def insert (cache : LruCache α) (now : Instant) (key : Key) (value : α)
    (lifetime : Option Duration) : Bool × LruCache α :=
  let entry := Entry.create now value lifetime
  match cache.index[key]? with
  | some slot =>
    (false, { cache with order := (cache.order.set slot (key, entry)).moveToFront slot })
  | none =>
    let (evicted, cache) := cache.makeRoom
    let (slot, order) := cache.order.pushFront (key, entry)
    let index := cache.index.insert key slot
    (evicted,
      { cache with index := index, order := order, tally := cache.tally.withEntries index.size })

def get (cache : LruCache α) (now : Instant) (key : Key) : Option α × LruCache α :=
  match cache.index[key]? with
  | none => (none, { cache with tally := cache.tally.recordMiss })
  | some slot =>
    match (cache.order.get? slot).bind (·.2.live? now) with
    | some value =>
      (some value,
        { cache with order := cache.order.moveToFront slot, tally := cache.tally.recordHit })
    | none =>
      let dropped := (cache.unlink key).2
      (none, { dropped with tally := dropped.tally.recordExpiration.recordMiss })

def peek (cache : LruCache α) (now : Instant) (key : Key) : Option α :=
  cache.index[key]?.bind fun slot => (cache.order.get? slot).bind (·.2.live? now)

def contains (cache : LruCache α) (now : Instant) (key : Key) : Bool := (cache.peek now key).isSome

/-- Removes a key; the first part is its value if it was live. -/
def remove (cache : LruCache α) (now : Instant) (key : Key) : Option α × LruCache α :=
  let (entry, cache) := cache.unlink key
  (entry.bind (·.live? now), cache)

def delete (cache : LruCache α) (key : Key) : LruCache α := (cache.unlink key).2

def keys (cache : LruCache α) : List Key := cache.order.toList.map (·.1)

def expiredKeys (cache : LruCache α) (now : Instant) : List Key :=
  (cache.order.toList.filter fun (_, entry) => entry.isExpired now).map (·.1)

def purge (cache : LruCache α) (now : Instant) : Nat × LruCache α :=
  let expired := cache.expiredKeys now
  (expired.length,
    expired.foldl
      (fun cache key =>
        let dropped := (cache.unlink key).2
        { dropped with tally := dropped.tally.recordExpiration })
      cache)

def stats (cache : LruCache α) : Tally := cache.tally.withEntries cache.length

/-- Drops every entry and keeps the counts. -/
def clear (cache : LruCache α) : LruCache α :=
  { cache with index := .empty, order := .empty, tally := cache.tally.withEntries 0 }

end LruCache

end CachedStore
