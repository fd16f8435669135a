import CachedStore.Cache.Lru

/-!
The plain form of a cache: a list of keys, values and deadlines, the most recently used first, and
the calls that clients make on either form.
-/

namespace CachedStore

/-- Entries in the order of their last use, and the counts of what happened to them. -/
structure UsageList (α : Type) where
  capacity : Nat
  entries : List (Key × Entry α)
  tally : Tally

namespace UsageList

variable {α : Type}

def create (capacity : Nat) : UsageList α := ⟨capacity, [], .zero⟩

def find? (list : UsageList α) (key : Key) : Option (Entry α) := list.entries.lookup key

def others (list : UsageList α) (key : Key) : List (Key × Entry α) :=
  list.entries.filter fun entry => entry.1 != key

/-- A stored key is replaced in front; a new key drops the last entry of a full list. -/
def insert (list : UsageList α) (now : Instant) (key : Key) (value : α)
    (lifetime : Option Duration) : Bool × UsageList α :=
  let entry := (key, Entry.create now value lifetime)
  if (list.find? key).isSome then (false, { list with entries := entry :: list.others key })
  else if list.entries.length < list.capacity then
    (false, { list with entries := entry :: list.entries })
  else
    (true,
      { list with
        entries := entry :: list.entries.dropLast
        tally := list.tally.recordEviction })

def get (list : UsageList α) (now : Instant) (key : Key) : Option α × UsageList α :=
  match list.find? key with
  | none => (none, { list with tally := list.tally.recordMiss })
  | some entry =>
    if entry.isExpired now then
      (none,
        { list with
          entries := list.others key
          tally := list.tally.recordExpiration.recordMiss })
    else
      (some entry.value,
        { list with
          entries := (key, entry) :: list.others key
          tally := list.tally.recordHit })

def peek (list : UsageList α) (now : Instant) (key : Key) : Option α :=
  (list.find? key).bind (·.live? now)

def delete (list : UsageList α) (key : Key) : UsageList α :=
  { list with entries := list.others key }

def purge (list : UsageList α) (now : Instant) : Nat × UsageList α :=
  let expired := list.entries.countP (·.2.isExpired now)
  (expired,
    { list with
      entries := list.entries.filter fun entry => !entry.2.isExpired now
      tally := { list.tally with
        expirations := list.tally.expirations + UInt64.ofNat expired } })

def clear (list : UsageList α) : UsageList α := { list with entries := [] }

def stats (list : UsageList α) : Tally := list.tally.withEntries list.entries.length

structure Valid (list : UsageList α) : Prop where
  distinct : (list.entries.map (·.1)).Nodup
  bounded : list.entries.length ≤ list.capacity

end UsageList

inductive CacheCall (α : Type) where
  | add (key : Key) (value : α)
  | addWithLifetime (key : Key) (value : α) (lifetime : Duration)
  | get (key : Key)
  | peek (key : Key)
  | contains (key : Key)
  | remove (key : Key)
  | delete (key : Key)
  | purge
  | keys
  | length
  | clear
  | stats

inductive CacheAnswer (α : Type) where
  | done
  | evicted (evicted : Bool)
  | value (value : Option α)
  | present (present : Bool)
  | count (count : Nat)
  | keys (keys : List Key)
  | stats (tally : Tally)
deriving DecidableEq

def answerCalls {α σ : Type} (answer : Instant → CacheCall α → σ → CacheAnswer α × σ) :
    List (Instant × CacheCall α) → σ → List (CacheAnswer α) × σ
  | [], state => ([], state)
  | (now, call) :: rest, state =>
    let (first, state) := answer now call state
    let (others, state) := answerCalls answer rest state
    (first :: others, state)

def LruCache.answer {α : Type} (now : Instant) (call : CacheCall α) (cache : LruCache α) :
    CacheAnswer α × LruCache α :=
  match call with
  | .add key value => (cache.insert now key value none).map .evicted id
  | .addWithLifetime key value lifetime =>
    (cache.insert now key value (some lifetime)).map .evicted id
  | .get key => (cache.get now key).map .value id
  | .peek key => (.value (cache.peek now key), cache)
  | .contains key => (.present (cache.contains now key), cache)
  | .remove key => (cache.remove now key).map .value id
  | .delete key => (.done, cache.delete key)
  | .purge => (cache.purge now).map .count id
  | .keys => (.keys cache.keys, cache)
  | .length => (.count cache.length, cache)
  | .clear => (.done, cache.clear)
  | .stats => (.stats cache.stats, cache)

def UsageList.answer {α : Type} (now : Instant) (call : CacheCall α) (list : UsageList α) :
    CacheAnswer α × UsageList α :=
  match call with
  | .add key value => (list.insert now key value none).map .evicted id
  | .addWithLifetime key value lifetime =>
    (list.insert now key value (some lifetime)).map .evicted id
  | .get key => (list.get now key).map .value id
  | .peek key => (.value (list.peek now key), list)
  | .contains key => (.present (list.peek now key).isSome, list)
  | .remove key => (.value (list.peek now key), list.delete key)
  | .delete key => (.done, list.delete key)
  | .purge => (list.purge now).map .count id
  | .keys => (.keys (list.entries.map (·.1)), list)
  | .length => (.count list.entries.length, list)
  | .clear => (.done, list.clear)
  | .stats => (.stats list.stats, list)

end CachedStore
