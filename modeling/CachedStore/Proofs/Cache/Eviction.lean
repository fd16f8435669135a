import CachedStore.Proofs.Cache.Contents

/-!
What an insertion costs: the entry least recently used, if its key is new and there is no room, and
nothing else. In a cache in shards only the shard of the key has to make room.
-/

namespace CachedStore

namespace UsageList

variable {α : Type} {list : UsageList α} {key other : Key}

theorem lookup_dropLast {entries : List (Key × Entry α)}
    (distinct : (entries.map (·.1)).Nodup) :
    entries.dropLast.lookup other =
      if entries.getLast?.map (·.1) = some other then none else entries.lookup other := by
  rcases List.eq_nil_or_concat entries with rfl | ⟨kept, ⟨oldest, entry⟩, rfl⟩
  · simp
  · simp only [List.concat_eq_append, List.map_append, List.map_cons, List.map_nil] at distinct ⊢
    rw [List.dropLast_concat, List.getLast?_concat, Option.map_some, List.lookup_append]
    split_ifs with last
    · obtain rfl : oldest = other := Option.some.inj last
      have apart := (List.nodup_append.mp distinct).2.2
      rw [List.lookup_eq_none_iff]
      intro item member
      simpa using (apart _ (List.mem_map_of_mem member) oldest (List.mem_singleton_self _)).symm
    · have skipped : (other == oldest) = false := by
        simpa using fun same : other = oldest => last (congrArg some same.symm)
      simp [List.lookup_cons, skipped]

def victim? (list : UsageList α) (key : Key) : Option Key :=
  if (list.find? key).isSome ∨ list.entries.length < list.capacity then none
  else list.entries.getLast?.map (·.1)

theorem find?_insert (distinct : (list.entries.map (·.1)).Nodup) (different : other ≠ key)
    (now : Instant) (value : α) (lifetime : Option Duration) :
    (list.insert now key value lifetime).2.find? other =
      if list.victim? key = some other then none else list.find? other := by
  have skipped : (other == key) = false := by simpa using different
  unfold UsageList.insert victim?
  by_cases stored : (list.find? key).isSome
  · simp only [stored, true_or, ↓reduceIte, reduceCtorEq]
    rw [UsageList.find?, List.lookup_cons, skipped]
    exact list.lookup_others different
  · by_cases room : list.entries.length < list.capacity
    · simp only [stored, room, or_true, Bool.false_eq_true, ↓reduceIte, reduceCtorEq]
      rw [UsageList.find?, List.lookup_cons, skipped]
      rfl
    · simp only [stored, room, or_self, Bool.false_eq_true, ↓reduceIte]
      rw [UsageList.find?, List.lookup_cons, skipped]
      exact lookup_dropLast distinct

theorem keys_insert (list : UsageList α) (now : Instant) (key : Key) (value : α)
    (lifetime : Option Duration) :
    ((list.insert now key value lifetime).2.entries.map (·.1)).head? = some key := by
  unfold UsageList.insert
  split_ifs <;> rfl

end UsageList

namespace LruCache

variable {α : Type} {cache : LruCache α} {key other : Key}

/-- The key that a new one takes the place of: the one least recently used in a full cache. -/
def victim? (cache : LruCache α) (key : Key) : Option Key :=
  if (cache.stored? key).isSome ∨ cache.length < cache.capacity then none
  else cache.keys.getLast?

theorem Represents.victim? {list : UsageList α} (represents : cache.Represents list) (key : Key) :
    cache.victim? key = list.victim? key := by
  rw [LruCache.victim?, UsageList.victim?, represents.stored?_eq, represents.length_eq,
    represents.capacity, represents.keys, List.getLast?_map]

theorem Sound.stored?_insert_other (sound : cache.Sound) (different : other ≠ key) (now : Instant)
    (value : α) (lifetime : Option Duration) :
    (cache.insert now key value lifetime).2.stored? other =
      if cache.victim? key = some other then none else cache.stored? other := by
  obtain ⟨list, represents⟩ := sound
  rw [(represents.insert now key value lifetime).2.stored?_eq, represents.stored?_eq,
    represents.victim?]
  exact UsageList.find?_insert represents.distinct different now value lifetime

theorem Sound.keys_insert (sound : cache.Sound) (now : Instant) (key : Key) (value : α)
    (lifetime : Option Duration) :
    (cache.insert now key value lifetime).2.keys.head? = some key := by
  obtain ⟨list, represents⟩ := sound
  rw [(represents.insert now key value lifetime).2.keys]
  exact list.keys_insert now key value lifetime

end LruCache

namespace ReadCache

variable {α : Type} {cache : ReadCache α} {key other : Key}

def shardOf (cache : ReadCache α) (key : Key) : LruCache α :=
  match cache with
  | single cache => cache
  | sharded cache => cache.shardOf key

def victim? (cache : ReadCache α) (key : Key) : Option Key :=
  match cache with
  | single cache => cache.victim? key
  | sharded cache =>
    ((cache.shardOf key).victim? key).filter fun victim =>
      (cache.owner key).val = (cache.owner victim).val

theorem Sound.stored?_insert_other (sound : cache.Sound) (different : other ≠ key) (now : Instant)
    (value : α) (lifetime : Option Duration) :
    (cache.insert now key value lifetime).2.stored? other =
      if cache.victim? key = some other then none else cache.stored? other := by
  cases cache with
  | single cache => exact LruCache.Sound.stored?_insert_other sound different now value lifetime
  | sharded cache =>
      have sound : cache.Sound := sound
      change ((cache.onOwner key (·.insert now key value lifetime)).2.shardOf other).stored? other =
        if ((cache.shardOf key).victim? key).filter _ = some other then none
        else (cache.shardOf other).stored? other
      simp only [ShardedCache.shardOf_onOwner, Option.filter_eq_some_iff, decide_eq_true_eq]
      by_cases same : (cache.owner key).val = (cache.owner other).val
      · rw [if_pos same, ShardedCache.shardOf_congr same]
        simp only [same, and_true]
        exact (sound.shardOf key).stored?_insert_other different now value lifetime
      · rw [if_neg same, if_neg fun lost => same lost.2]

theorem Sound.keys_insert (sound : cache.Sound) (now : Instant) (key : Key) (value : α)
    (lifetime : Option Duration) :
    ((cache.insert now key value lifetime).2.shardOf key).keys.head? = some key := by
  cases cache with
  | single cache => exact LruCache.Sound.keys_insert sound now key value lifetime
  | sharded cache =>
      have sound : cache.Sound := sound
      change ((cache.onOwner key (·.insert now key value lifetime)).2.shardOf key).keys.head? = _
      rw [ShardedCache.shardOf_owner]
      exact (sound.shardOf key).keys_insert now key value lifetime

end ReadCache

end CachedStore
