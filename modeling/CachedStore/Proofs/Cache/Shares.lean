import CachedStore.Proofs.Cache.Sharding
import CachedStore.Settings

/-!
How a capacity is shared out. A shard gets the capacity divided and rounded up as long as capacity
and shards together make a word. From there on their sum overflows, so that no cache can be made of
sizes which settings accept.
-/

namespace CachedStore

/-! Dividing and rounding up -/

def fairShare (capacity shards : Nat) : Nat := (capacity + shards - 1) / shards

section

variable {capacity shards : Nat}

theorem fairShare_pos (wanted : 0 < capacity) (split : 0 < shards) :
    0 < fairShare capacity shards :=
  Nat.div_pos (by omega) split

theorem le_mul_fairShare (split : 0 < shards) : capacity ≤ shards * fairShare capacity shards := by
  have whole := Nat.div_add_mod (capacity + shards - 1) shards
  have rest := Nat.mod_lt (capacity + shards - 1) split
  unfold fairShare
  omega

theorem mul_fairShare_lt (split : 0 < shards) :
    shards * fairShare capacity shards < capacity + shards := by
  have whole := Nat.mul_div_le (capacity + shards - 1) shards
  unfold fairShare
  omega

end

namespace ShardedCache

section

variable {capacity shards : UInt64}

theorem toNat_shareOf (fits : capacity.toNat + shards.toNat < 2 ^ 64) :
    (shareOf capacity shards).toNat = fairShare capacity.toNat shards.toNat := by
  have bound : fairShare capacity.toNat shards.toNat ≤ capacity.toNat + shards.toNat - 1 :=
    Nat.div_le_self _ _
  have word : fairShare capacity.toNat shards.toNat < 2 ^ 64 := by omega
  exact UInt64.toNat_ofNat_of_lt' word

theorem not_zero (wanted : 0 < capacity.toNat) (split : 0 < shards.toNat) :
    ¬(capacity = 0 ∨ shards = 0) := by
  rintro (rfl | rfl)
  · exact absurd wanted (Nat.lt_irrefl 0)
  · exact absurd split (Nat.lt_irrefl 0)

end

variable {α : Type}

theorem toNat_capacity_of_sum_lt {cache : ShardedCache α}
    (fits : (cache.shards.toList.map (·.capacity)).sum < 2 ^ 64) :
    cache.capacity.toNat = (cache.shards.toList.map (·.capacity)).sum := by
  suffices general : ∀ shards : List (LruCache α), (shards.map (·.capacity)).sum < 2 ^ 64 →
      ((shards.map fun shard => UInt64.ofNat shard.capacity).sum).toNat =
        (shards.map (·.capacity)).sum from general _ fits
  intro shards
  induction shards with
  | nil => intro _; rfl
  | cons shard rest ih =>
      intro fits
      rw [List.map_cons, List.sum_cons] at fits ⊢
      rw [List.map_cons, List.sum_cons, UInt64.toNat_add, ih (by omega),
        UInt64.toNat_ofNat']
      omega

/-- Equal shares for all shards, which hold what was asked for and less than one more each. -/
structure SharesOut (capacity shards : Nat) (cache : ShardedCache α) : Prop where
  size : cache.shards.size = shards
  equal : ∀ shard ∈ cache.shards, shard.capacity = fairShare capacity shards
  positive : ∀ shard ∈ cache.shards, 1 ≤ shard.capacity
  covers : capacity ≤ (cache.shards.toList.map (·.capacity)).sum
  close : (cache.shards.toList.map (·.capacity)).sum < capacity + shards
  total : cache.capacity.toNat = (cache.shards.toList.map (·.capacity)).sum

theorem SharesOut.of_replicate {capacity shards : Nat} {cache : ShardedCache α}
    {one : LruCache α} (replicated : cache.shards = Array.replicate shards one)
    (share : one.capacity = fairShare capacity shards) (wanted : 0 < capacity) (split : 0 < shards)
    (fits : capacity + shards < 2 ^ 64) : SharesOut capacity shards cache := by
  have sum : (cache.shards.toList.map (·.capacity)).sum = shards * fairShare capacity shards := by
    simp [replicated, share]
  have equal : ∀ shard ∈ cache.shards, shard.capacity = fairShare capacity shards := by
    intro shard member
    rw [replicated] at member
    rw [Array.eq_of_mem_replicate member, share]
  have close : shards * fairShare capacity shards < capacity + shards := mul_fairShare_lt split
  refine ⟨by simp [replicated], equal, ?_, sum ▸ le_mul_fairShare split, sum ▸ close, ?_⟩
  · intro shard member
    rw [equal shard member]
    exact fairShare_pos wanted split
  · exact toNat_capacity_of_sum_lt (by omega)

section

variable {capacity shards : UInt64}

theorem create_sharesOut (wanted : 0 < capacity.toNat) (split : 0 < shards.toNat)
    (fits : capacity.toNat + shards.toNat < 2 ^ 64) :
    ∃ fresh : ShardedCache α, ShardedCache.create capacity shards = .ok fresh ∧
      SharesOut capacity.toNat shards.toNat fresh := by
  have share := toNat_shareOf fits
  have positive := fairShare_pos wanted split
  refine ⟨⟨Array.replicate shards.toNat ⟨(shareOf capacity shards).toNat, .empty, .empty, .zero⟩,
    by simpa using split⟩, ?_, .of_replicate rfl share wanted split fits⟩
  have nonzero : (shareOf capacity shards).toNat ≠ 0 := by omega
  simp only [ShardedCache.create, LruCache.create, if_neg (not_zero wanted split),
    if_neg (Nat.not_le_of_lt fits), if_neg nonzero, dif_pos split]

theorem create_eq_overflow (wanted : 0 < capacity.toNat) (split : 0 < shards.toNat)
    (exceeds : 2 ^ 64 ≤ capacity.toNat + shards.toNat) :
    (ShardedCache.create capacity shards : Except Obstacle (ShardedCache α)) =
      .error .overflow := by
  simp only [ShardedCache.create, if_neg (not_zero wanted split), if_pos exceeds]

end

end ShardedCache

namespace Settings

theorem validate_eq_ok_iff {settings : Settings} :
    settings.validate = .ok () ↔ settings.cacheCapacity ≠ 0 ∧ settings.cacheShards ≠ 0 ∧
      settings.queryTimeout ≠ 0 := by
  unfold validate
  split_ifs <;> simp_all

theorem cache_eq_ok_iff {α : Type} {settings : Settings} (wanted : 0 < settings.cacheCapacity.toNat)
    (split : 0 < settings.cacheShards.toNat) :
    (∃ cache : ReadCache α, settings.cache = .ok cache) ↔
      settings.cacheShards = 1 ∨
        settings.cacheCapacity.toNat + settings.cacheShards.toNat < 2 ^ 64 := by
  by_cases several : 1 < settings.cacheShards
  · have apart : settings.cacheShards ≠ 1 := by
      intro single
      exact absurd several (single ▸ UInt64.lt_irrefl 1)
    simp only [cache, if_pos several, ReadCache.create, apart, false_or]
    constructor
    · rintro ⟨cache, built⟩
      by_contra exceeds
      rw [ShardedCache.create_eq_overflow wanted split (Nat.le_of_not_lt exceeds)] at built
      cases built
    · intro fits
      obtain ⟨fresh, created, _⟩ := ShardedCache.create_sharesOut (α := α) wanted split fits
      exact ⟨.sharded fresh, by rw [created]; rfl⟩
  · have single : settings.cacheShards = 1 := by
      rw [UInt64.lt_iff_toNat_lt, UInt64.toNat_one] at several
      exact UInt64.toNat_inj.mp (by rw [UInt64.toNat_one]; omega)
    have nonzero : settings.cacheCapacity.toNat ≠ 0 := by omega
    simp only [cache, ReadCache.create, LruCache.create, if_neg nonzero, single,
      true_or, iff_true]
    exact ⟨_, rfl⟩

end Settings

/--
Sizes other than zero are accepted. If capacity and shards together make a word, the cache can be
made and its shards share the capacity out. If they do not, their sum overflows.
-/
theorem ShardedCache.create_shares {α : Type} (capacity shards : UInt64) (wanted : 1 ≤ capacity)
    (split : 1 ≤ shards) :
    (capacity.toNat + shards.toNat < 2 ^ 64 →
      ∃ fresh : ShardedCache α, ShardedCache.create capacity shards = .ok fresh ∧
        SharesOut capacity.toNat shards.toNat fresh) ∧
    (2 ^ 64 ≤ capacity.toNat + shards.toNat →
      (ShardedCache.create capacity shards : Except Obstacle (ShardedCache α)) =
        .error .overflow) ∧
    ∀ settings : Settings, settings.cacheCapacity = capacity → settings.cacheShards = shards →
      (settings.validate = .ok () ↔ settings.queryTimeout ≠ 0) ∧
      ((∃ cache : ReadCache α, settings.cache = .ok cache) ↔
        shards = 1 ∨ capacity.toNat + shards.toNat < 2 ^ 64) := by
  rw [UInt64.le_iff_toNat_le, UInt64.toNat_one] at wanted split
  refine ⟨create_sharesOut wanted split, create_eq_overflow wanted split, ?_⟩
  rintro settings rfl rfl
  refine ⟨?_, Settings.cache_eq_ok_iff wanted split⟩
  have nonzero := not_or.mp (not_zero wanted split)
  rw [Settings.validate_eq_ok_iff]
  exact ⟨fun valid => valid.2.2, fun timed => ⟨nonzero.1, nonzero.2, timed⟩⟩

/-- Seven entries over three shards, and the largest capacity that two shards can be made for. -/
theorem ShardedCache.create_shares_seven :
    (∃ fresh : ShardedCache Nat, ShardedCache.create 7 3 = .ok fresh ∧ SharesOut 7 3 fresh ∧
      fresh.capacity = 9) ∧
    (∃ fresh : ShardedCache Nat, ShardedCache.create 18446744073709551613 2 = .ok fresh ∧
      SharesOut 18446744073709551613 2 fresh) ∧
    (ShardedCache.create 18446744073709551614 2 : Except Obstacle (ShardedCache Nat)) =
      .error .overflow := by
  obtain ⟨shares, _⟩ := create_shares (α := Nat) 7 3 (by decide) (by decide)
  obtain ⟨most, _⟩ := create_shares (α := Nat) 18446744073709551613 2 (by decide) (by decide)
  obtain ⟨_, beyond, _⟩ := create_shares (α := Nat) 18446744073709551614 2 (by decide) (by decide)
  obtain ⟨fresh, created, shared⟩ := shares (by decide)
  refine ⟨⟨fresh, created, shared, ?_⟩, most (by decide), beyond (by decide)⟩
  obtain rfl := Except.ok.inj created
  rfl

/-- Settings that are accepted, though the sum of the sizes overflows; the shares would not. -/
theorem ShardedCache.create_overflows_accepted :
    let settings :=
      { Settings.standard with cacheCapacity := 18446744073709551614, cacheShards := 3 }
    settings.validate = .ok () ∧
    (ShardedCache.create 18446744073709551614 3 : Except Obstacle (ShardedCache Nat)) =
      .error .overflow ∧
    (settings.cache : Except Obstacle (ReadCache Nat)) = .error .overflow ∧
    3 * fairShare 18446744073709551614 3 = 2 ^ 64 - 1 := ⟨rfl, rfl, rfl, rfl⟩

end CachedStore
