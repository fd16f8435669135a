import CachedStore.Repository.Basic

/-!
One-line descriptions for diagnosis. A cache or a store is a name, then its fields between braces.
-/

namespace CachedStore

namespace Description

def braced (name : String) (fields : List (String × String)) : String :=
  name ++ " \x7b " ++ ", ".intercalate (fields.map fun (field, value) => field ++ ": " ++ value) ++
    " \x7d"

def ofTally (tally : Tally) : String :=
  braced "CacheStats" (tally.counts.map fun (name, count) => (name, toString count))

def ofLru {α : Type} (cache : LruCache α) : String :=
  braced "LruCache" [
    ("capacity", toString cache.capacity),
    ("len", toString cache.length),
    ("stats", ofTally cache.tally)]

def ofSharded {α : Type} (cache : ShardedCache α) : String :=
  braced "ShardedCache" [
    ("shards", "[" ++ ", ".intercalate (cache.shards.toList.map ofLru) ++ "]"),
    ("hasher", "FnvBuildHasher")]

def ofCache {α : Type} : ReadCache α → String
  | .single cache => ofLru cache
  | .sharded cache => ofSharded cache

def ofStore {ρ : Type} (store : MemoryStore ρ) : String :=
  braced "MemoryStore" [
    ("rows", toString store.rows.size),
    ("latency", store.latency.elim "None" fun latency => "Some(" ++ latency.text ++ ")")]

def ofFailureKind : FailureKind → String
  | .duplicate => "Duplicate"
  | .notFound => "NotFound"
  | .queryFailed => "QueryFailed"
  | .configuration => "Configuration"

def ofInvalidation : Invalidation → String
  | .byIdentity => "ByIdentity"
  | .disabled => "Disabled"

end Description

end CachedStore
