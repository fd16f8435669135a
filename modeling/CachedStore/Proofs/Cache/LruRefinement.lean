import CachedStore.Proofs.Cache.RecencyChain
import CachedStore.Proofs.Cache.UsageList

/-!
A cache is its plain form: the map of keys, the chain of nodes and the internal count of entries
agree after every call, and every call gives the answer of the plain list.
-/

namespace CachedStore

namespace LruCache

variable {α : Type}

structure Indexed (index : Std.TreeMap Key Nat) (entries : List (Nat × Key × Entry α)) : Prop where
  slots : ∀ key slot, index[key]? = some slot ↔ ∃ entry, (slot, key, entry) ∈ entries
  distinct : (entries.map (·.2.1)).Nodup
  size : index.size = entries.length

theorem keys_middle {before after : List (Nat × Key × Entry α)} {slot : Nat} {key : Key}
    {entry : Entry α} (distinct : ((before ++ (slot, key, entry) :: after).map (·.2.1)).Nodup) :
    key ∉ (before ++ after).map (·.2.1) := by
  rw [List.map_append, List.map_cons, List.nodup_middle, List.nodup_cons, ← List.map_append]
    at distinct
  exact distinct.1

namespace Indexed

variable {index : Std.TreeMap Key Nat} {entries before after : List (Nat × Key × Entry α)}
  {slot : Nat} {key : Key} {entry : Entry α}

theorem reorder (indexed : Indexed index entries) {others : List (Nat × Key × Entry α)}
    (same : (others.map fun entry => (entry.1, entry.2.1)).Perm
      (entries.map fun entry => (entry.1, entry.2.1))) : Indexed index others where
  slots := fun key slot => by
    have member : ∀ list : List (Nat × Key × Entry α),
        (∃ entry, (slot, key, entry) ∈ list) ↔
          (slot, key) ∈ list.map fun entry => (entry.1, entry.2.1) := by
      intro list
      simp
    rw [indexed.slots, member, member, same.mem_iff]
  distinct := by
    have keys := same.map Prod.snd
    simp only [List.map_map, Function.comp_def] at keys
    exact keys.nodup_iff.mpr indexed.distinct
  size := by
    rw [indexed.size]
    simpa using same.length_eq.symm

theorem split (indexed : Indexed index entries) (found : index[key]? = some slot) :
    ∃ before entry after, entries = before ++ (slot, key, entry) :: after := by
  obtain ⟨entry, member⟩ := (indexed.slots key slot).mp found
  obtain ⟨before, after, rfl⟩ := List.append_of_mem member
  exact ⟨before, entry, after, rfl⟩

theorem absent (indexed : Indexed index entries) (missing : index[key]? = none) :
    key ∉ entries.map (·.2.1) := by
  intro member
  obtain ⟨⟨slot, other, entry⟩, belongs, same⟩ := List.mem_map.mp member
  change other = key at same
  subst same
  have found := (indexed.slots other slot).mpr ⟨entry, belongs⟩
  simp [missing] at found

theorem missing (indexed : Indexed index entries) (absent : key ∉ entries.map (·.2.1)) :
    index[key]? = none := by
  cases found : index[key]? with
  | none => rfl
  | some slot =>
      obtain ⟨entry, member⟩ := (indexed.slots key slot).mp found
      exact absurd (List.mem_map.mpr ⟨_, member, rfl⟩) absent

theorem found (indexed : Indexed index (before ++ (slot, key, entry) :: after)) :
    index[key]? = some slot :=
  (indexed.slots key slot).mpr ⟨entry, by simp⟩

theorem erase (indexed : Indexed index (before ++ (slot, key, entry) :: after)) :
    Indexed (index.erase key) (before ++ after) where
  slots := fun other place => by
    have absent := keys_middle indexed.distinct
    rw [Std.TreeMap.getElem?_erase]
    by_cases same : key = other
    · subst same
      simp only [Std.ReflCmp.compare_self, ↓reduceIte, reduceCtorEq, false_iff, not_exists]
      intro kept member
      exact absent (List.mem_map.mpr ⟨_, member, rfl⟩)
    · simp only [Std.LawfulEqCmp.compare_eq_iff_eq, same, ↓reduceIte, indexed.slots,
        List.mem_append, List.mem_cons, Prod.mk.injEq]
      simp [Ne.symm same]
  distinct := by
    have distinct := indexed.distinct
    rw [List.map_append, List.map_cons, List.nodup_middle, List.nodup_cons, ← List.map_append]
      at distinct
    exact distinct.2
  size := by
    have stored : index.contains key = true := by
      rw [← Std.TreeMap.isSome_getElem?_eq_contains, indexed.found]
      rfl
    rw [Std.TreeMap.size_erase, if_pos stored, indexed.size]
    simp

theorem insert (indexed : Indexed index entries) (missing : index[key]? = none) (slot : Nat)
    (entry : Entry α) : Indexed (index.insert key slot) ((slot, key, entry) :: entries) where
  slots := fun other place => by
    rw [Std.TreeMap.getElem?_insert]
    by_cases same : key = other
    · subst same
      have absent := indexed.absent missing
      simp only [Std.ReflCmp.compare_self, ↓reduceIte, Option.some.injEq, List.mem_cons,
        Prod.mk.injEq]
      constructor
      · intro equal
        exact ⟨entry, Or.inl ⟨equal.symm, trivial, rfl⟩⟩
      · rintro ⟨kept, ⟨equal, _⟩ | member⟩
        · exact equal.symm
        · exact absurd (List.mem_map.mpr ⟨_, member, rfl⟩) absent
    · simp [Std.LawfulEqCmp.compare_eq_iff_eq, same, Ne.symm same, indexed.slots]
  distinct := List.nodup_cons.mpr ⟨indexed.absent missing, indexed.distinct⟩
  size := by
    have stored : index.contains key = false := by
      rw [← Std.TreeMap.isSome_getElem?_eq_contains, missing]
      rfl
    simp [Std.TreeMap.size_insert, stored, indexed.size]

end Indexed

/-! Keys of the plain list -/

theorem lookup_eq_none {entries : List (Key × Entry α)} {key : Key} :
    entries.lookup key = none ↔ key ∉ entries.map (·.1) := by
  rw [List.lookup_eq_none_iff]
  constructor
  · intro apart member
    obtain ⟨item, stored, rfl⟩ := List.mem_map.mp member
    simpa using apart item stored
  · intro absent item stored
    simpa using fun same : key = item.1 => absent (same ▸ List.mem_map_of_mem stored)

theorem find?_middle {list : UsageList α} {before after : List (Key × Entry α)} {key : Key}
    {entry : Entry α} (entries : list.entries = before ++ (key, entry) :: after)
    (absent : key ∉ before.map (·.1)) : list.find? key = some entry := by
  simp [UsageList.find?, entries, List.lookup_append, lookup_eq_none.mpr absent]

theorem filter_absent {entries : List (Key × Entry α)} {key : Key}
    (absent : key ∉ entries.map (·.1)) :
    entries.filter (fun entry => entry.1 != key) = entries := by
  rw [List.filter_eq_self]
  intro entry member
  simpa using fun same : entry.1 = key => absent (List.mem_map.mpr ⟨entry, member, same⟩)

theorem others_middle {list : UsageList α} {before after : List (Key × Entry α)} {key : Key}
    {entry : Entry α} (entries : list.entries = before ++ (key, entry) :: after)
    (absent : key ∉ (before ++ after).map (·.1)) : list.others key = before ++ after := by
  rw [List.map_append, List.mem_append, not_or] at absent
  simp [UsageList.others, entries, filter_absent absent.1, filter_absent absent.2]

/-- The cache stands for the plain list, within its capacity. -/
structure Represents (cache : LruCache α) (list : UsageList α) : Prop where
  chain : cache.order.Represents cache.order.entries
  indexed : Indexed cache.index cache.order.entries
  entries : cache.order.entries.map (·.2) = list.entries
  capacity : cache.capacity = list.capacity
  positive : 0 < list.capacity
  bounded : list.entries.length ≤ list.capacity
  tally : cache.tally = list.tally.withEntries list.entries.length

namespace Represents

variable {cache : LruCache α} {list : UsageList α}

theorem of_chain {entries : List (Nat × Key × Entry α)} (holds : cache.order.Represents entries)
    (indexed : Indexed cache.index entries) (same : entries.map (·.2) = list.entries)
    (capacity : cache.capacity = list.capacity) (positive : 0 < list.capacity)
    (bounded : list.entries.length ≤ list.capacity)
    (tally : cache.tally = list.tally.withEntries list.entries.length) : Represents cache list := by
  have listed := holds.entries_eq
  exact ⟨listed.symm ▸ holds, listed.symm ▸ indexed, listed.symm ▸ same, capacity, positive,
    bounded,
    tally⟩

theorem distinct (represents : Represents cache list) : (list.entries.map (·.1)).Nodup := by
  rw [← represents.entries, List.map_map]
  exact represents.indexed.distinct

theorem length (represents : Represents cache list) :
    cache.order.entries.length = list.entries.length := by
  rw [← represents.entries, List.length_map]

theorem absent (represents : Represents cache list) {key : Key}
    (missing : cache.index[key]? = none) : key ∉ list.entries.map (·.1) := by
  rw [← represents.entries, List.map_map]
  exact represents.indexed.absent missing

theorem find?_missing (represents : Represents cache list) {key : Key}
    (missing : cache.index[key]? = none) : list.find? key = none :=
  lookup_eq_none.mpr (represents.absent missing)

theorem split (represents : Represents cache list) {key : Key} {slot : Nat}
    (found : cache.index[key]? = some slot) :
    ∃ before entry after, cache.order.entries = before ++ (slot, key, entry) :: after ∧
      cache.order.get? slot = some (key, entry) ∧ list.find? key = some entry ∧
        list.others key = (before ++ after).map (·.2) := by
  obtain ⟨before, entry, after, listed⟩ := represents.indexed.split found
  have holds := represents.chain
  have absent := keys_middle (listed ▸ represents.indexed.distinct)
  have entries : list.entries = before.map (·.2) ++ (key, entry) :: after.map (·.2) := by
    rw [← represents.entries, listed]
    simp
  have outside : key ∉ (before.map (·.2) ++ after.map (·.2)).map (·.1) := by
    simpa [List.map_append, List.map_map, Function.comp_def] using absent
  refine ⟨before, entry, after, listed, ?_, find?_middle entries ?_, ?_⟩
  · rw [listed] at holds
    exact holds.get?_eq
  · rw [List.map_append, List.mem_append, not_or] at outside
    exact outside.1
  · rw [others_middle entries outside, List.map_append]

theorem length_others (represents : Represents cache list) {key : Key} {slot : Nat}
    (found : cache.index[key]? = some slot) :
    list.entries.length = (list.others key).length + 1 := by
  obtain ⟨before, entry, after, listed, _, _, others⟩ := represents.split found
  rw [← represents.length, listed, others]
  simp only [List.length_append, List.length_cons, List.length_map]
  omega

/-! The calls -/

theorem count (represents : Represents cache list) (change : Tally → Tally)
    (apart : ∀ tally entries, change (tally.withEntries entries) =
      (change tally).withEntries entries) :
    Represents { cache with tally := change cache.tally }
      { list with tally := change list.tally } where
  chain := represents.chain
  indexed := represents.indexed
  entries := represents.entries
  capacity := represents.capacity
  positive := represents.positive
  bounded := represents.bounded
  tally := by rw [represents.tally, apart]

theorem unlink (represents : Represents cache list) (key : Key) :
    (cache.unlink key).1 = list.find? key ∧
      Represents (cache.unlink key).2 (list.delete key) := by
  cases found : cache.index[key]? with
  | none =>
      have missing := represents.find?_missing found
      have same : list.delete key = list := by
        simp only [UsageList.delete, UsageList.others, filter_absent (represents.absent found)]
      simp only [LruCache.unlink, found, missing, same, true_and]
      exact represents
  | some slot =>
      obtain ⟨before, entry, after, listed, _, stored, others⟩ := represents.split found
      have removed := (listed ▸ represents.chain).remove
      have erased := (listed ▸ represents.indexed).erase
      have shorter := represents.length_others found
      have bounded := represents.bounded
      simp only [LruCache.unlink, found, removed.1, stored, Option.map_some, true_and]
      refine of_chain removed.2 erased others.symm represents.capacity represents.positive ?_ ?_
      · simp only [UsageList.delete]
        omega
      · simp only [UsageList.delete, others, List.length_map, erased.size, represents.tally]
        rfl

theorem toFront (represents : Represents cache list) {key : Key} {slot : Nat}
    {before after : List (Nat × Key × Entry α)} {entry : Entry α} {order : Recency (Key × Entry α)}
    (found : cache.index[key]? = some slot)
    (listed : cache.order.entries.map (fun entry => (entry.1, entry.2.1)) =
      (before ++ (slot, key, entry) :: after).map fun entry => (entry.1, entry.2.1))
    (others : list.others key = (before ++ after).map (·.2))
    (holds : order.Represents (before ++ (slot, key, entry) :: after)) :
    Represents { cache with order := order.moveToFront slot }
      { list with entries := (key, entry) :: list.others key } := by
  have shorter := represents.length_others found
  have length : ((key, entry) :: list.others key).length = list.entries.length := by
    rw [shorter, List.length_cons]
  refine of_chain holds.moveToFront (represents.indexed.reorder ?_) ?_ represents.capacity
    represents.positive ?_ ?_
  · rw [listed]
    exact List.perm_middle.symm.map _
  · simp [others]
  · exact length ▸ represents.bounded
  · simp only [length, represents.tally]

theorem get (represents : Represents cache list) (now : Instant) (key : Key) :
    (cache.get now key).1 = (list.get now key).1 ∧
      Represents (cache.get now key).2 (list.get now key).2 := by
  cases found : cache.index[key]? with
  | none =>
      have missing := represents.find?_missing found
      simp only [LruCache.get, UsageList.get, found, missing, true_and]
      exact represents.count Tally.recordMiss fun _ _ => rfl
  | some slot =>
      obtain ⟨before, entry, after, listed, item, stored, others⟩ := represents.split found
      by_cases expired : entry.isExpired now
      · have dead : entry.live? now = none := by simp [Entry.live?, expired]
        simp only [LruCache.get, UsageList.get, found, item, stored, Option.bind_some, dead,
          expired, ↓reduceIte, true_and]
        exact (represents.unlink key).2.count (·.recordExpiration.recordMiss) fun _ _ => rfl
      · have live : entry.live? now = some entry.value := by simp [Entry.live?, expired]
        simp only [LruCache.get, UsageList.get, found, item, stored, Option.bind_some, live,
          expired, Bool.false_eq_true, ↓reduceIte, true_and]
        have moved :=
          represents.toFront found (congrArg _ listed) others (listed ▸ represents.chain)
        exact moved.count Tally.recordHit fun _ _ => rfl

theorem makeRoom (represents : Represents cache list) :
    (cache.makeRoom).1 = decide (list.capacity ≤ list.entries.length) ∧
      (cache.makeRoom).2.capacity = list.capacity ∧
      ∃ kept, (cache.makeRoom).2.order.Represents kept ∧ Indexed (cache.makeRoom).2.index kept ∧
        kept.map (·.2) =
          (if list.entries.length < list.capacity then list.entries else list.entries.dropLast) ∧
        (cache.makeRoom).2.tally =
          if list.entries.length < list.capacity then cache.tally
          else cache.tally.recordEviction := by
  have length := represents.chain.length.trans represents.length
  have capacity := represents.capacity
  have positive := represents.positive
  by_cases room : list.entries.length < list.capacity
  · have full : ¬ list.capacity ≤ list.entries.length := by omega
    simp only [LruCache.makeRoom, length, capacity, room, full, ↓reduceIte, decide_false, true_and]
    exact ⟨_, represents.chain, represents.indexed, represents.entries, trivial⟩
  · have full : list.capacity ≤ list.entries.length := by omega
    have nonempty : cache.order.entries ≠ [] := by
      intro empty
      have none := represents.length
      simp only [empty, List.length_nil] at none
      omega
    obtain ⟨before, ⟨slot, oldest, entry⟩, listed⟩ :=
      (List.eq_nil_or_concat _).resolve_left nonempty
    rw [List.concat_eq_append] at listed
    have popped := (listed ▸ represents.chain).popBack
    have erased := (listed ▸ represents.indexed).erase
    rw [List.append_nil] at erased
    have entries := represents.entries
    simp only [listed, List.map_append, List.map_cons, List.map_nil] at entries
    generalize outcome : cache.order.popBack = result at popped
    obtain ⟨item, order⟩ := result
    obtain ⟨rfl, holds⟩ := popped
    simp only [LruCache.makeRoom, length, capacity, room, full, outcome, ↓reduceIte, decide_true,
      true_and]
    exact ⟨before, holds, erased, by simp [← entries], trivial⟩

theorem insert (represents : Represents cache list) (now : Instant) (key : Key) (value : α)
    (lifetime : Option Duration) :
    (cache.insert now key value lifetime).1 = (list.insert now key value lifetime).1 ∧
      Represents (cache.insert now key value lifetime).2
        (list.insert now key value lifetime).2 := by
  cases found : cache.index[key]? with
  | some slot =>
      obtain ⟨before, entry, after, listed, _, stored, others⟩ := represents.split found
      simp only [LruCache.insert, UsageList.insert, found, stored, Option.isSome_some, ↓reduceIte,
        true_and]
      have replaced := (listed ▸ represents.chain).set (key, Entry.create now value lifetime)
      exact represents.toFront found (by simp [listed]) others replaced
  | none =>
      have missing := represents.find?_missing found
      obtain ⟨evicted, capacity, kept, holds, indexed, entries, tally⟩ := represents.makeRoom
      have unused : cache.makeRoom.2.index[key]? = none := by
        refine indexed.missing fun member => represents.absent found ?_
        have keys : kept.map (·.2.1) = (kept.map (·.2)).map (·.1) := by simp
        rw [keys, entries] at member
        split at member
        · exact member
        · exact (List.dropLast_sublist _).map _ |>.subset member
      have pushed := holds.pushFront (key, Entry.create now value lifetime)
      have added := indexed.insert unused
        (cache.makeRoom.2.order.pushFront (key, Entry.create now value lifetime)).1
        (Entry.create now value lifetime)
      have positive := represents.positive
      have bounded := represents.bounded
      have length : kept.length = (kept.map (·.2)).length := (List.length_map _).symm
      rw [entries] at length
      simp only [LruCache.insert, UsageList.insert, found, missing, Option.isSome_none,
        Bool.false_eq_true, ↓reduceIte]
      by_cases room : list.entries.length < list.capacity
      · simp only [room, ↓reduceIte] at entries tally length ⊢
        refine ⟨by simp [evicted, room], of_chain pushed.2 added ?_ capacity positive ?_ ?_⟩
        · simp [entries]
        · exact Nat.succ_le_of_lt room
        · simp [added.size, length, tally, represents.tally, Tally.withEntries]
      · simp only [room, ↓reduceIte] at entries tally length ⊢
        refine ⟨by simp [evicted]; omega, of_chain pushed.2 added ?_ capacity positive ?_ ?_⟩
        · simp [entries]
        · simp only [List.length_cons, List.length_dropLast]
          omega
        · simp [added.size, length, tally, represents.tally, Tally.withEntries,
            Tally.recordEviction]

theorem peek (represents : Represents cache list) (now : Instant) (key : Key) :
    cache.peek now key = list.peek now key := by
  cases found : cache.index[key]? with
  | none => simp [LruCache.peek, UsageList.peek, found, represents.find?_missing found]
  | some slot =>
      obtain ⟨before, entry, after, _, item, stored, _⟩ := represents.split found
      simp [LruCache.peek, UsageList.peek, found, item, stored]

theorem toList (represents : Represents cache list) : cache.order.toList = list.entries :=
  represents.entries

theorem length_eq (represents : Represents cache list) : cache.length = list.entries.length :=
  represents.indexed.size.trans represents.length

theorem purgeKeys (represents : Represents cache list) (keys : List Key) :
    Represents
      (keys.foldl
        (fun cache key =>
          let dropped := (cache.unlink key).2
          { dropped with tally := dropped.tally.recordExpiration })
        cache)
      { list with
        entries := list.entries.filter fun entry => !keys.contains entry.1
        tally := { list.tally with
          expirations := list.tally.expirations + UInt64.ofNat keys.length } } := by
  induction keys generalizing cache list with
  | nil =>
      simpa using represents
  | cons key rest ih =>
      have dropped := (represents.unlink key).2.count (·.recordExpiration) fun _ _ => rfl
      have purged := ih dropped
      have entries : (list.others key).filter (fun entry => !rest.contains entry.1) =
          list.entries.filter fun entry => !(key :: rest).contains entry.1 := by
        rw [UsageList.others, List.filter_filter]
        refine List.filter_congr fun entry _ => ?_
        rw [List.contains_cons, Bool.not_or, Bool.and_comm]
        rfl
      have count : list.tally.expirations + 1 + UInt64.ofNat rest.length =
          list.tally.expirations + UInt64.ofNat (rest.length + 1) := by
        rw [UInt64.ofNat_add, UInt64.add_assoc, UInt64.add_comm 1]
        rfl
      simp only [UsageList.delete, Tally.recordExpiration, entries, count] at purged
      exact purged

theorem purge (represents : Represents cache list) (now : Instant) :
    (cache.purge now).1 = (list.purge now).1 ∧
      Represents (cache.purge now).2 (list.purge now).2 := by
  have expired : cache.expiredKeys now =
      (list.entries.filter fun entry => entry.2.isExpired now).map (·.1) := by
    rw [LruCache.expiredKeys, represents.toList]
  have length : (cache.expiredKeys now).length = list.entries.countP (·.2.isExpired now) := by
    rw [expired, List.length_map, List.countP_eq_length_filter]
  have once : list.entries.filter (fun entry => !(cache.expiredKeys now).contains entry.1) =
      list.entries.filter fun entry => !entry.2.isExpired now := by
    refine List.filter_congr fun entry member => ?_
    congr 1
    rw [Bool.eq_iff_iff, List.contains_iff_mem, expired, List.mem_map]
    constructor
    · rintro ⟨other, kept, same⟩
      rw [List.mem_filter] at kept
      have equal := List.inj_on_of_nodup_map represents.distinct kept.1 member same
      exact equal ▸ kept.2
    · intro late
      exact ⟨entry, List.mem_filter.mpr ⟨member, late⟩, rfl⟩
  have purged := represents.purgeKeys (cache.expiredKeys now)
  rw [once, length] at purged
  exact ⟨length, purged⟩

theorem clear (represents : Represents cache list) : Represents cache.clear list.clear :=
  of_chain Recency.empty_represents ⟨by simp [LruCache.clear], List.nodup_nil, rfl⟩ rfl
    represents.capacity represents.positive (Nat.zero_le _)
    (by simp [LruCache.clear, UsageList.clear, represents.tally, Tally.withEntries])

theorem stats (represents : Represents cache list) : cache.stats = list.stats := by
  rw [LruCache.stats, UsageList.stats, represents.length_eq, represents.tally]
  rfl

theorem answer (represents : Represents cache list) (now : Instant) (call : CacheCall α) :
    (LruCache.answer now call cache).1 = (UsageList.answer now call list).1 ∧
      Represents (LruCache.answer now call cache).2 (UsageList.answer now call list).2 := by
  cases call with
  | add key value =>
      have inserted := represents.insert now key value none
      exact ⟨congrArg CacheAnswer.evicted inserted.1, inserted.2⟩
  | addWithLifetime key value lifetime =>
      have inserted := represents.insert now key value (some lifetime)
      exact ⟨congrArg CacheAnswer.evicted inserted.1, inserted.2⟩
  | get key =>
      have read := represents.get now key
      exact ⟨congrArg CacheAnswer.value read.1, read.2⟩
  | peek key => exact ⟨congrArg CacheAnswer.value (represents.peek now key), represents⟩
  | contains key =>
      have present := congrArg (CacheAnswer.present (α := α) ·.isSome) (represents.peek now key)
      exact ⟨present, represents⟩
  | remove key =>
      have removed := represents.unlink key
      have value : (cache.remove now key).1 = list.peek now key := by
        simp only [LruCache.remove, UsageList.peek, removed.1]
      exact ⟨congrArg CacheAnswer.value value, removed.2⟩
  | delete key => exact ⟨rfl, (represents.unlink key).2⟩
  | purge =>
      have purged := represents.purge now
      exact ⟨congrArg CacheAnswer.count purged.1, purged.2⟩
  | keys =>
      have keys : cache.keys = list.entries.map (·.1) := by rw [LruCache.keys, represents.toList]
      exact ⟨congrArg CacheAnswer.keys keys, represents⟩
  | length => exact ⟨congrArg CacheAnswer.count represents.length_eq, represents⟩
  | clear => exact ⟨rfl, represents.clear⟩
  | stats => exact ⟨congrArg CacheAnswer.stats represents.stats, represents⟩

theorem answerCalls (represents : Represents cache list) (calls : List (Instant × CacheCall α)) :
    (answerCalls LruCache.answer calls cache).1 = (answerCalls UsageList.answer calls list).1 ∧
      Represents (CachedStore.answerCalls LruCache.answer calls cache).2
        (CachedStore.answerCalls UsageList.answer calls list).2 := by
  induction calls generalizing cache list with
  | nil => exact ⟨rfl, represents⟩
  | cons call rest ih =>
      have first := represents.answer call.1 call.2
      have others := ih first.2
      exact ⟨congrArg₂ List.cons first.1 others.1, others.2⟩

end Represents

theorem create_represents (capacity : Nat) (positive : 0 < capacity) :
    ∃ fresh : LruCache α, LruCache.create capacity = .ok fresh ∧
      Represents fresh (UsageList.create capacity) := by
  refine ⟨⟨capacity, .empty, .empty, .zero⟩, ?_, ?_⟩
  · simp [LruCache.create, Nat.ne_of_gt positive]
  · exact .of_chain Recency.empty_represents ⟨by simp, List.nodup_nil, rfl⟩ rfl rfl positive
      (Nat.zero_le _) rfl

/-- The index, the chain of nodes and the internal count of entries agree. -/
structure InStep (cache : LruCache α) : Prop where
  index : ∀ key slot, cache.index[key]? = some slot ↔
    ∃ entry, (slot, key, entry) ∈ cache.order.entries
  chain : ∀ slot item, (slot, item) ∈ cache.order.entries ↔ cache.order.get? slot = some item
  length : cache.order.length = cache.order.entries.length
  size : cache.index.size = cache.order.length
  total : cache.tally.totalEntries = UInt64.ofNat cache.order.length

theorem Represents.inStep {cache : LruCache α} {list : UsageList α}
    (represents : Represents cache list) : InStep cache where
  index := represents.indexed.slots
  chain := fun _ _ => represents.chain.get?_eq_some.symm
  length := represents.chain.length
  size := represents.indexed.size.trans represents.chain.length.symm
  total := by
    rw [represents.tally, represents.chain.length, represents.length]
    rfl

theorem capacity_answer (now : Instant) (call : CacheCall α) (list : UsageList α) :
    (UsageList.answer now call list).2.capacity = list.capacity := by
  have inserted : ∀ key value lifetime,
      (list.insert now key value lifetime).2.capacity = list.capacity := by
    intro key value lifetime
    unfold UsageList.insert
    split_ifs <;> rfl
  cases call with
  | add key value => exact inserted key value none
  | addWithLifetime key value lifetime => exact inserted key value (some lifetime)
  | get key =>
      change (list.get now key).2.capacity = list.capacity
      unfold UsageList.get
      split <;> [rfl; (split_ifs <;> rfl)]
  | _ => rfl

theorem capacity_answerCalls (calls : List (Instant × CacheCall α)) (list : UsageList α) :
    (answerCalls UsageList.answer calls list).2.capacity = list.capacity := by
  induction calls generalizing list with
  | nil => rfl
  | cons call rest ih =>
      exact (ih _).trans (capacity_answer call.1 call.2 list)

/-- From a fresh cache, any calls at any instants get the answers of the plain list. -/
theorem answerCalls_create (capacity : Nat) (positive : 0 < capacity)
    (calls : List (Instant × CacheCall α)) :
    ∃ fresh, LruCache.create capacity = .ok fresh ∧
      (answerCalls LruCache.answer calls fresh).1 =
        (answerCalls UsageList.answer calls (UsageList.create capacity)).1 ∧
      (answerCalls LruCache.answer calls fresh).2.order.toList =
        (answerCalls UsageList.answer calls (UsageList.create capacity)).2.entries ∧
      (answerCalls UsageList.answer calls (UsageList.create capacity)).2.Valid ∧
      (answerCalls UsageList.answer calls (UsageList.create capacity)).2.capacity = capacity ∧
      (answerCalls LruCache.answer calls fresh).2.InStep := by
  obtain ⟨fresh, created, represents⟩ := create_represents (α := α) capacity positive
  have answered := represents.answerCalls calls
  have valid : (answerCalls UsageList.answer calls (UsageList.create capacity)).2.Valid :=
    ⟨answered.2.distinct, answered.2.bounded⟩
  exact ⟨fresh, created, answered.1, answered.2.toList, valid, capacity_answerCalls calls _,
    answered.2.inStep⟩

def sampleCalls : List (Instant × CacheCall Nat) :=
  [(⟨0⟩, .addWithLifetime "a" 1 ⟨5⟩), (⟨0⟩, .add "b" 2), (⟨1⟩, .get "a"), (⟨2⟩, .add "c" 3),
    (⟨5⟩, .keys), (⟨5⟩, .get "a"), (⟨5⟩, .keys)]

theorem answerCalls_create_sample :
    (answerCalls UsageList.answer sampleCalls (UsageList.create 2)).1 =
      [.evicted false, .evicted false, .value (some 1), .evicted true, .keys ["c", "a"],
        .value none, .keys ["c"]] ∧
    ∃ fresh, LruCache.create 2 = .ok fresh ∧
      (answerCalls LruCache.answer sampleCalls fresh).1 =
        (answerCalls UsageList.answer sampleCalls (UsageList.create 2)).1 := by
  refine ⟨by rfl, ?_⟩
  obtain ⟨fresh, created, answers, _⟩ := answerCalls_create 2 (by decide) sampleCalls
  exact ⟨fresh, created, answers⟩

end LruCache

end CachedStore
