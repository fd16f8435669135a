import CachedStore.Cache.ReadCache
import CachedStore.Proofs.Cache.LruRefinement

/-!
What a cache holds under each key, and how the operations change it. Eviction may take any entry
away, so that an operation on one key leaves of the others some or all.
-/

namespace CachedStore

/-! Expiry -/

theorem Instant.le_refl (now : Instant) : now ≤ now := Nat.le_refl now.nanoseconds

theorem Instant.le_trans {first second third : Instant} (before : first ≤ second)
    (after : second ≤ third) : first ≤ third := Nat.le_trans before after

theorem Instant.le_of_onward {instants : Nat → Instant}
    (onward : ∀ step, instants step ≤ instants (step + 1)) {step later : Nat}
    (order : step ≤ later) : instants step ≤ instants later := by
  induction order with
  | refl => exact Instant.le_refl _
  | step _ ih => exact Instant.le_trans ih (onward _)

namespace Entry

variable {α : Type} {entry : Entry α} {now later : Instant}

theorem isExpired_later (expired : entry.isExpired now = true) (order : now ≤ later) :
    entry.isExpired later = true := by
  unfold isExpired at expired ⊢
  cases given : entry.deadline with
  | none => simp [given] at expired
  | some deadline =>
      simp only [given, decide_eq_true_eq] at expired ⊢
      exact Instant.le_trans expired order

theorem live?_of_expired (expired : entry.isExpired now = true) (order : now ≤ later) :
    entry.live? later = none := by
  simp [live?, isExpired_later expired order]

theorem live?_earlier {value : α} (order : now ≤ later) (live : entry.live? later = some value) :
    entry.live? now = some value := by
  cases expired : entry.isExpired now with
  | true => simp [live?_of_expired expired order] at live
  | false =>
      unfold live? at live ⊢
      split at live
      · cases live
      · simpa [expired] using live

end Entry

/-! Plain lists -/

namespace UsageList

variable {α : Type} (list : UsageList α) {key other : Key} {entry : Entry α}

theorem lookup_others_self : (list.others key).lookup key = none := by
  rw [List.lookup_eq_none_iff]
  intro entry member
  have different : entry.1 ≠ key := by simpa using (List.mem_filter.mp member).2
  simpa using different.symm

theorem lookup_others (different : other ≠ key) :
    (list.others key).lookup other = list.find? other := by
  unfold UsageList.others UsageList.find?
  induction list.entries with
  | nil => rfl
  | cons entry rest ih =>
      by_cases same : entry.1 = key
      · have skipped : (other == entry.1) = false := by simpa [same] using different
        simp only [same, bne_self_eq_false, Bool.false_eq_true, not_false_eq_true,
          List.filter_cons_of_neg, ih]
        rw [List.lookup_cons, skipped]
      · have kept : (entry.1 != key) = true := by simpa using same
        rw [List.filter_cons, if_pos kept, List.lookup_cons, List.lookup_cons, ih]

theorem lookup_of_prefix {entries rest : List (Key × Entry α)}
    (found : entries.lookup key = some entry) : (entries ++ rest).lookup key = some entry := by
  rw [List.lookup_append, found]
  rfl

theorem lookup_of_dropLast {entries : List (Key × Entry α)}
    (found : entries.dropLast.lookup key = some entry) : entries.lookup key = some entry := by
  cases entries with
  | nil => exact found
  | cons first rest =>
      have whole := List.dropLast_append_getLast (List.cons_ne_nil first rest)
      rw [← whole]
      exact lookup_of_prefix found

theorem find?_insert_self (now : Instant) (value : α) (lifetime : Option Duration) :
    (list.insert now key value lifetime).2.find? key =
      some (Entry.create now value lifetime) := by
  unfold UsageList.insert
  split_ifs <;> simp [UsageList.find?]

theorem find?_of_insert {now : Instant} {value : α} {lifetime : Option Duration}
    (different : other ≠ key)
    (found : (list.insert now key value lifetime).2.find? other = some entry) :
    list.find? other = some entry := by
  have skipped : (other == key) = false := by simpa using different
  unfold UsageList.insert at found
  split_ifs at found
  · rw [UsageList.find?, List.lookup_cons, skipped] at found
    exact (list.lookup_others different).symm.trans found
  · rwa [UsageList.find?, List.lookup_cons, skipped] at found
  · rw [UsageList.find?, List.lookup_cons, skipped] at found
    exact lookup_of_dropLast found

theorem get_fst (now : Instant) :
    (list.get now key).1 = (list.find? key).bind (·.live? now) := by
  unfold UsageList.get
  cases found : list.find? key with
  | none => rfl
  | some entry =>
      by_cases expired : entry.isExpired now <;> simp [expired, Entry.live?]

theorem find?_of_get {now : Instant} (found : (list.get now key).2.find? other = some entry) :
    list.find? other = some entry := by
  unfold UsageList.get at found
  cases stored : list.find? key with
  | none =>
      simp only [stored] at found
      exact found
  | some kept =>
      simp only [stored] at found
      by_cases same : other = key
      · subst same
        by_cases expired : kept.isExpired now
        · simp [expired, UsageList.find?, lookup_others_self] at found
        · have equal : kept = entry := by
            simpa [expired, UsageList.find?] using found
          rw [stored, equal]
      · have skipped : (other == key) = false := by simpa using same
        rw [← list.lookup_others same]
        by_cases expired : kept.isExpired now
        · simpa [expired, UsageList.find?] using found
        · simpa [expired, UsageList.find?, List.lookup_cons, skipped] using found

theorem find?_get (now : Instant) :
    (list.get now key).2.find? other = list.find? other ∨
      other = key ∧ (list.get now key).2.find? other = none ∧
        ∃ entry, list.find? key = some entry ∧ entry.isExpired now = true := by
  unfold UsageList.get
  cases stored : list.find? key with
  | none => exact Or.inl rfl
  | some kept =>
      by_cases same : other = key
      · subst same
        by_cases expired : kept.isExpired now
        · simp only [expired, ↓reduceIte]
          exact Or.inr ⟨trivial, list.lookup_others_self, kept, rfl, expired⟩
        · simp [expired, UsageList.find?, ← stored]
      · have skipped : (other == key) = false := by simpa using same
        refine Or.inl ?_
        rw [← list.lookup_others same]
        by_cases expired : kept.isExpired now
        · simp [expired, UsageList.find?]
        · simp [expired, UsageList.find?, List.lookup_cons, skipped]

end UsageList

/-! Single caches -/

namespace LruCache

variable {α : Type}

/-- A cache that stands for some plain list. -/
def Sound (cache : LruCache α) : Prop := ∃ list, cache.Represents list

def stored? (cache : LruCache α) (key : Key) : Option (Entry α) :=
  (cache.index[key]?.bind cache.order.get?).map (·.2)

variable {cache : LruCache α} {key other : Key} {entry : Entry α}

theorem Represents.stored?_eq {list : UsageList α} (represents : cache.Represents list)
    (key : Key) :
    cache.stored? key = list.find? key := by
  cases found : cache.index[key]? with
  | none => simp [stored?, found, represents.find?_missing found]
  | some slot =>
      obtain ⟨_, entry, _, _, item, stored, _⟩ := represents.split found
      simp [stored?, found, item, stored]

theorem Represents.keys {list : UsageList α} (represents : cache.Represents list) :
    cache.keys = list.entries.map (·.1) := by
  rw [LruCache.keys, represents.toList]

namespace Sound

theorem insert (sound : cache.Sound) (now : Instant) (key : Key) (value : α)
    (lifetime : Option Duration) : (cache.insert now key value lifetime).2.Sound := by
  obtain ⟨list, represents⟩ := sound
  exact ⟨_, (represents.insert now key value lifetime).2⟩

theorem stored?_insert (sound : cache.Sound) (now : Instant) (value : α)
    (lifetime : Option Duration) :
    (cache.insert now key value lifetime).2.stored? key =
      some (Entry.create now value lifetime) := by
  obtain ⟨list, represents⟩ := sound
  rw [(represents.insert now key value lifetime).2.stored?_eq]
  exact list.find?_insert_self now value lifetime

theorem stored?_of_insert (sound : cache.Sound) {now : Instant} {value : α}
    {lifetime : Option Duration} (different : other ≠ key)
    (found : (cache.insert now key value lifetime).2.stored? other = some entry) :
    cache.stored? other = some entry := by
  obtain ⟨list, represents⟩ := sound
  rw [(represents.insert now key value lifetime).2.stored?_eq] at found
  rw [represents.stored?_eq]
  exact list.find?_of_insert different found

theorem get (sound : cache.Sound) (now : Instant) (key : Key) : (cache.get now key).2.Sound := by
  obtain ⟨list, represents⟩ := sound
  exact ⟨_, (represents.get now key).2⟩

theorem get_fst (sound : cache.Sound) (now : Instant) (key : Key) :
    (cache.get now key).1 = (cache.stored? key).bind (·.live? now) := by
  obtain ⟨list, represents⟩ := sound
  rw [(represents.get now key).1, represents.stored?_eq]
  exact list.get_fst now

theorem stored?_of_get (sound : cache.Sound) {now : Instant}
    (found : (cache.get now key).2.stored? other = some entry) :
    cache.stored? other = some entry := by
  obtain ⟨list, represents⟩ := sound
  rw [(represents.get now key).2.stored?_eq] at found
  rw [represents.stored?_eq]
  exact list.find?_of_get found

theorem stored?_get (sound : cache.Sound) (now : Instant) (key other : Key) :
    (cache.get now key).2.stored? other = cache.stored? other ∨
      other = key ∧ (cache.get now key).2.stored? other = none ∧
        ∃ entry, cache.stored? key = some entry ∧ entry.isExpired now = true := by
  obtain ⟨list, represents⟩ := sound
  simp only [(represents.get now key).2.stored?_eq, represents.stored?_eq]
  exact list.find?_get now

theorem contains (sound : cache.Sound) (now : Instant) (key : Key) :
    cache.contains now key = ((cache.stored? key).bind (·.live? now)).isSome := by
  obtain ⟨list, represents⟩ := sound
  rw [LruCache.contains, represents.peek, represents.stored?_eq]
  rfl

theorem delete (sound : cache.Sound) (key : Key) : (cache.delete key).Sound := by
  obtain ⟨list, represents⟩ := sound
  exact ⟨_, (represents.unlink key).2⟩

theorem stored?_delete (sound : cache.Sound) (key other : Key) :
    (cache.delete key).stored? other = if other = key then none else cache.stored? other := by
  obtain ⟨list, represents⟩ := sound
  rw [LruCache.delete, (represents.unlink key).2.stored?_eq, represents.stored?_eq]
  split_ifs with same
  · rw [same]
    exact list.lookup_others_self
  · exact list.lookup_others same

theorem clear (sound : cache.Sound) : cache.clear.Sound := by
  obtain ⟨list, represents⟩ := sound
  exact ⟨_, represents.clear⟩

theorem mem_keys (sound : cache.Sound) (stored : cache.stored? key = some entry) :
    key ∈ cache.keys := by
  obtain ⟨list, represents⟩ := sound
  rw [represents.stored?_eq, UsageList.find?, List.lookup_eq_some_iff] at stored
  obtain ⟨before, after, entries, _⟩ := stored
  rw [represents.keys, entries]
  simp

theorem length_keys (sound : cache.Sound) : cache.keys.length = cache.length := by
  obtain ⟨list, represents⟩ := sound
  rw [represents.keys, List.length_map, represents.length_eq]

end Sound

theorem stored?_clear (cache : LruCache α) (key : Key) : cache.clear.stored? key = none := by
  simp [stored?, LruCache.clear]

theorem length_clear (cache : LruCache α) : cache.clear.length = 0 := rfl

theorem create_sound {capacity : Nat} {fresh : LruCache α}
    (created : LruCache.create capacity = .ok fresh) :
    fresh.Sound ∧ ∀ key, fresh.stored? key = none := by
  have positive : 0 < capacity := by
    rcases Nat.eq_zero_or_pos capacity with zero | positive
    · simp [LruCache.create, zero] at created
    · exact positive
  obtain ⟨same, created', represents⟩ := create_represents (α := α) capacity positive
  obtain rfl : same = fresh := by
    rw [created'] at created
    exact Except.ok.inj created
  exact ⟨⟨_, represents⟩, fun key => represents.stored?_eq key⟩

end LruCache

/-! Caches in shards -/

namespace ShardedCache

variable {α β : Type} (cache : ShardedCache α) {key other : Key}

def Sound : Prop := ∀ shard ∈ cache.shards, shard.Sound

variable {cache}

theorem Sound.shardOf (sound : cache.Sound) (key : Key) : (cache.shardOf key).Sound :=
  sound _ (Array.getElem_mem _)

theorem shardOf_onOwner (operation : LruCache α → β × LruCache α) :
    (cache.onOwner key operation).2.shardOf other =
      if (cache.owner key).val = (cache.owner other).val then (operation (cache.shardOf key)).2
      else cache.shardOf other := by
  have size : (cache.onOwner key operation).2.shards.size = cache.shards.size :=
    Array.size_set (cache.owner key).isLt
  have same : ((cache.onOwner key operation).2.owner other).val = (cache.owner other).val := by
    simp only [owner, size]
  have bound : (cache.owner other).val < (cache.onOwner key operation).2.shards.size :=
    lt_of_lt_of_eq (cache.owner other).isLt size.symm
  have found : (cache.onOwner key operation).2.shardOf other =
      (cache.onOwner key operation).2.shards[(cache.owner other).val] := by
    simp only [ShardedCache.shardOf, Fin.getElem_fin, same]
  rw [found]
  exact Array.getElem_set (cache.owner key).isLt bound

theorem shardOf_owner (operation : LruCache α → β × LruCache α) :
    (cache.onOwner key operation).2.shardOf key = (operation (cache.shardOf key)).2 := by
  rw [shardOf_onOwner, if_pos rfl]

theorem shardOf_congr (same : (cache.owner key).val = (cache.owner other).val) :
    cache.shardOf other = cache.shardOf key := by
  simp only [shardOf, Fin.getElem_fin, same]

theorem stored?_of_onOwner (operation : LruCache α → β × LruCache α) {entry : Entry α}
    (keeps : (operation (cache.shardOf key)).2.stored? other = some entry →
      (cache.shardOf key).stored? other = some entry)
    (found : ((cache.onOwner key operation).2.shardOf other).stored? other = some entry) :
    (cache.shardOf other).stored? other = some entry := by
  rw [shardOf_onOwner] at found
  split_ifs at found with same
  · rw [shardOf_congr same]
    exact keeps found
  · exact found

theorem Sound.onOwner (sound : cache.Sound) (operation : LruCache α → β × LruCache α)
    (kept : (operation (cache.shardOf key)).2.Sound) :
    (cache.onOwner key operation).2.Sound := by
  intro shard member
  rcases Array.mem_or_eq_of_mem_set (w := (cache.owner key).isLt) member with old | rfl
  · exact sound shard old
  · exact kept

theorem Sound.onEach (sound : cache.Sound) {operation : LruCache α → LruCache α}
    (keeps : ∀ shard, shard.Sound → (operation shard).Sound) :
    (cache.onEach operation).Sound := by
  intro shard member
  obtain ⟨old, belongs, rfl⟩ := Array.mem_map.mp member
  exact keeps old (sound old belongs)

theorem shardOf_onEach (operation : LruCache α → LruCache α) :
    (cache.onEach operation).shardOf key = operation (cache.shardOf key) := by
  simp [ShardedCache.shardOf, owner, ShardedCache.onEach]

theorem shareOf_one (capacity : UInt64) : shareOf capacity 1 = capacity := by
  simp [shareOf]

theorem create_eq_ok {capacity shards : UInt64} {fresh : ShardedCache α}
    (created : ShardedCache.create capacity shards = .ok fresh) :
    ∃ one, LruCache.create (shareOf capacity shards).toNat = .ok one ∧
      fresh.shards = Array.replicate shards.toNat one := by
  cases made : (LruCache.create (shareOf capacity shards).toNat : Except Failure (LruCache α)) with
  | error failure =>
      simp only [ShardedCache.create, made] at created
      split_ifs at created
  | ok one =>
      simp only [ShardedCache.create, made] at created
      split_ifs at created
      obtain rfl := Except.ok.inj created
      exact ⟨one, rfl, rfl⟩

theorem create_sound {capacity shards : UInt64} {fresh : ShardedCache α}
    (created : ShardedCache.create capacity shards = .ok fresh) :
    fresh.Sound ∧ ∀ key, (fresh.shardOf key).stored? key = none := by
  obtain ⟨one, made, replicated⟩ := create_eq_ok created
  have clean := LruCache.create_sound made
  constructor
  · intro shard member
    rw [replicated] at member
    exact Array.eq_of_mem_replicate member ▸ clean.1
  · intro key
    have same : fresh.shardOf key = one := by simp [ShardedCache.shardOf, replicated]
    exact same ▸ clean.2 key

end ShardedCache

/-! Either kind of cache -/

namespace ReadCache

variable {α : Type}

/-- Every cache that is built and used through its operations is sound. -/
def Sound : ReadCache α → Prop
  | single cache => cache.Sound
  | sharded cache => cache.Sound

def stored? (cache : ReadCache α) (key : Key) : Option (Entry α) :=
  match cache with
  | single cache => cache.stored? key
  | sharded cache => (cache.shardOf key).stored? key

def live? (cache : ReadCache α) (now : Instant) (key : Key) : Option α :=
  (cache.stored? key).bind (·.live? now)

variable {cache : ReadCache α} {key other : Key} {entry : Entry α}

namespace Sound

theorem insert (sound : cache.Sound) (now : Instant) (key : Key) (value : α)
    (lifetime : Option Duration) : (cache.insert now key value lifetime).2.Sound := by
  cases cache with
  | single cache => exact LruCache.Sound.insert sound now key value lifetime
  | sharded cache =>
      have sound : cache.Sound := sound
      exact sound.onOwner (·.insert now key value lifetime)
        ((sound.shardOf key).insert now key value lifetime)

theorem stored?_insert (sound : cache.Sound) (now : Instant) (key : Key) (value : α)
    (lifetime : Option Duration) :
    (cache.insert now key value lifetime).2.stored? key =
      some (Entry.create now value lifetime) := by
  cases cache with
  | single cache => exact LruCache.Sound.stored?_insert sound now value lifetime
  | sharded cache =>
      have sound : cache.Sound := sound
      change ((cache.onOwner key (·.insert now key value lifetime)).2.shardOf key).stored? key = _
      rw [ShardedCache.shardOf_owner]
      exact (sound.shardOf key).stored?_insert now value lifetime

theorem stored?_of_insert (sound : cache.Sound) {now : Instant} {value : α}
    {lifetime : Option Duration} (different : other ≠ key)
    (found : (cache.insert now key value lifetime).2.stored? other = some entry) :
    cache.stored? other = some entry := by
  cases cache with
  | single cache => exact LruCache.Sound.stored?_of_insert sound different found
  | sharded cache =>
      have sound : cache.Sound := sound
      exact ShardedCache.stored?_of_onOwner (·.insert now key value lifetime)
        ((sound.shardOf key).stored?_of_insert different) found

theorem live?_insert (sound : cache.Sound) {now later : Instant} {value found : α}
    {lifetime : Option Duration}
    (alive : (cache.insert now key value lifetime).2.live? later key = some found) :
    found = value := by
  rw [live?, sound.stored?_insert, Option.bind_some, Entry.live?] at alive
  split at alive
  · simp at alive
  · exact (Option.some.inj alive).symm

theorem get (sound : cache.Sound) (now : Instant) (key : Key) : (cache.get now key).2.Sound := by
  cases cache with
  | single cache => exact LruCache.Sound.get sound now key
  | sharded cache =>
      have sound : cache.Sound := sound
      exact sound.onOwner (·.get now key) ((sound.shardOf key).get now key)

theorem get_fst (sound : cache.Sound) (now : Instant) (key : Key) :
    (cache.get now key).1 = cache.live? now key := by
  cases cache with
  | single cache => exact LruCache.Sound.get_fst sound now key
  | sharded cache =>
      have sound : cache.Sound := sound
      exact (sound.shardOf key).get_fst now key

theorem stored?_of_get (sound : cache.Sound) {now : Instant} {key : Key}
    (found : (cache.get now key).2.stored? other = some entry) :
    cache.stored? other = some entry := by
  cases cache with
  | single cache => exact LruCache.Sound.stored?_of_get sound found
  | sharded cache =>
      have sound : cache.Sound := sound
      exact ShardedCache.stored?_of_onOwner (·.get now key)
        (sound.shardOf key).stored?_of_get found

theorem stored?_get (sound : cache.Sound) (now : Instant) (key other : Key) :
    (cache.get now key).2.stored? other = cache.stored? other ∨
      other = key ∧ (cache.get now key).2.stored? other = none ∧
        ∃ entry, cache.stored? key = some entry ∧ entry.isExpired now = true := by
  cases cache with
  | single cache => exact LruCache.Sound.stored?_get sound now key other
  | sharded cache =>
      have sound : cache.Sound := sound
      change ((cache.onOwner key (·.get now key)).2.shardOf other).stored? other =
          (cache.shardOf other).stored? other ∨ other = key ∧
        ((cache.onOwner key (·.get now key)).2.shardOf other).stored? other = none ∧ _
      rw [ShardedCache.shardOf_onOwner]
      split_ifs with owner
      · rw [ShardedCache.shardOf_congr owner]
        exact (sound.shardOf key).stored?_get now key other
      · exact Or.inl rfl

theorem contains (sound : cache.Sound) (now : Instant) (key : Key) :
    cache.contains now key = (cache.live? now key).isSome := by
  cases cache with
  | single cache => exact LruCache.Sound.contains sound now key
  | sharded cache =>
      have sound : cache.Sound := sound
      exact (sound.shardOf key).contains now key

theorem delete (sound : cache.Sound) (key : Key) : (cache.delete key).Sound := by
  cases cache with
  | single cache => exact LruCache.Sound.delete sound key
  | sharded cache =>
      have sound : cache.Sound := sound
      exact sound.onOwner (fun shard => ((), shard.delete key)) ((sound.shardOf key).delete key)

theorem stored?_delete (sound : cache.Sound) (key other : Key) :
    (cache.delete key).stored? other = if other = key then none else cache.stored? other := by
  cases cache with
  | single cache => exact LruCache.Sound.stored?_delete sound key other
  | sharded cache =>
      have sound : cache.Sound := sound
      change ((cache.onOwner key fun shard => ((), shard.delete key)).2.shardOf
        other).stored? other = _
      rw [ShardedCache.shardOf_onOwner]
      split_ifs with owner same same
      · rw [(sound.shardOf key).stored?_delete, if_pos same]
      · rw [(sound.shardOf key).stored?_delete, if_neg same, ← ShardedCache.shardOf_congr owner]
        rfl
      · exact absurd (same ▸ rfl) owner
      · rfl

theorem deleteAll (sound : cache.Sound) (keys : List Key) : (cache.deleteAll keys).Sound := by
  unfold ReadCache.deleteAll
  induction keys generalizing cache with
  | nil => exact sound
  | cons key rest ih => exact ih (sound.delete key)

theorem stored?_deleteAll (sound : cache.Sound) (keys : List Key) (key : Key) :
    (cache.deleteAll keys).stored? key = if key ∈ keys then none else cache.stored? key := by
  unfold ReadCache.deleteAll
  induction keys generalizing cache with
  | nil => simp
  | cons first rest ih =>
      rw [List.foldl_cons, ih (sound.delete first), sound.stored?_delete]
      by_cases head : key = first <;> simp [head]

theorem clear (sound : cache.Sound) : cache.clear.Sound := by
  cases cache with
  | single cache => exact LruCache.Sound.clear sound
  | sharded cache =>
      have sound : cache.Sound := sound
      exact sound.onEach fun _ shard => shard.clear

end Sound

theorem stored?_clear (cache : ReadCache α) (key : Key) : cache.clear.stored? key = none := by
  cases cache with
  | single cache => exact cache.stored?_clear key
  | sharded cache =>
      change ((cache.onEach _).shardOf key).stored? key = none
      rw [ShardedCache.shardOf_onEach]
      exact LruCache.stored?_clear _ key

theorem length_clear (cache : ReadCache α) : cache.clear.length = 0 := by
  cases cache with
  | single cache => rfl
  | sharded cache =>
      simp [ReadCache.clear, ReadCache.length, ShardedCache.length, ShardedCache.clear,
        ShardedCache.onEach, LruCache.length_clear, Function.comp_def]

def allKeys (cache : ReadCache α) : List Key :=
  match cache with
  | single cache => cache.keys
  | sharded cache => cache.shards.toList.flatMap (·.keys)

theorem Sound.mem_allKeys (sound : cache.Sound) (stored : cache.stored? key = some entry) :
    key ∈ cache.allKeys := by
  cases cache with
  | single cache => exact LruCache.Sound.mem_keys sound stored
  | sharded cache =>
      have sound : cache.Sound := sound
      have owner : cache.shardOf key ∈ cache.shards := Array.getElem_mem _
      exact List.mem_flatMap.mpr
        ⟨_, Array.mem_def.mp owner, (sound.shardOf key).mem_keys stored⟩

theorem Sound.length_allKeys (sound : cache.Sound) : cache.allKeys.length = cache.length := by
  cases cache with
  | single cache => exact LruCache.Sound.length_keys sound
  | sharded cache =>
      have sound : cache.Sound := sound
      rw [allKeys, List.length_flatMap]
      refine congrArg List.sum (List.map_congr_left fun shard member => ?_)
      exact (sound shard (Array.mem_def.mpr member)).length_keys

theorem create_sound {capacity : UInt64} {shards : Option UInt64} {fresh : ReadCache α}
    (created : ReadCache.create capacity shards = .ok fresh) :
    fresh.Sound ∧ ∀ key, fresh.stored? key = none := by
  cases shards with
  | none =>
      cases made : LruCache.create (α := α) capacity.toNat with
      | error failure => simp [ReadCache.create, made, Except.map, Except.mapError] at created
      | ok cache =>
          obtain rfl : single cache = fresh := by
            simpa [ReadCache.create, made, Except.map, Except.mapError] using created
          exact LruCache.create_sound made
  | some shards =>
      cases made : ShardedCache.create (α := α) capacity shards with
      | error failure => simp [ReadCache.create, made, Except.map] at created
      | ok cache =>
          obtain rfl : sharded cache = fresh := by
            simpa [ReadCache.create, made, Except.map] using created
          exact ShardedCache.create_sound made

end ReadCache

end CachedStore
