import CachedStore.Proofs.Cache.Contents

/-!
A cache in shards is as many caches as it has shards: each is fed the calls on the keys that are at
home there and the calls that concern all, and does not see the others.
-/

namespace CachedStore

inductive ShardedCall (α : Type) where
  | add (key : Key) (value : α)
  | addWithLifetime (key : Key) (value : α) (lifetime : Duration)
  | get (key : Key)
  | contains (key : Key)
  | delete (key : Key)
  | purge
  | length
  | clear
  | stats

def CacheCall.key? {α : Type} : CacheCall α → Option Key
  | add key _ => some key
  | addWithLifetime key _ _ => some key
  | get key => some key
  | peek key => some key
  | contains key => some key
  | remove key => some key
  | delete key => some key
  | purge => none
  | keys => none
  | length => none
  | clear => none
  | stats => none

/-! Keys -/

theorem UsageList.mem_entries_of_answer {α : Type} {list : UsageList α} {now : Instant}
    {call : CacheCall α} {item : Key × Entry α}
    (member : item ∈ (UsageList.answer now call list).2.entries) :
    item.1 ∈ list.entries.map (·.1) ∨ call.key? = some item.1 := by
  have others : ∀ key, item ∈ list.others key → item.1 ∈ list.entries.map (·.1) :=
    fun key kept => List.mem_map_of_mem (List.mem_of_mem_filter kept)
  have inserted : ∀ key value lifetime, item ∈ (list.insert now key value lifetime).2.entries →
      item.1 ∈ list.entries.map (·.1) ∨ some key = some item.1 := by
    intro key value lifetime present
    unfold UsageList.insert at present
    split_ifs at present
    all_goals rcases List.mem_cons.mp present with rfl | old
    · exact Or.inr rfl
    · exact Or.inl (others key old)
    · exact Or.inr rfl
    · exact Or.inl (List.mem_map_of_mem old)
    · exact Or.inr rfl
    · exact Or.inl (List.mem_map_of_mem (List.dropLast_subset _ old))
  cases call with
  | add key value => exact inserted key value none member
  | addWithLifetime key value lifetime => exact inserted key value (some lifetime) member
  | get key =>
      change item ∈ (list.get now key).2.entries at member
      unfold UsageList.get at member
      split at member
      · exact Or.inl (List.mem_map_of_mem member)
      · split at member
        · exact Or.inl (others key member)
        · rcases List.mem_cons.mp member with rfl | old
          · exact Or.inr rfl
          · exact Or.inl (others key old)
  | remove key => exact Or.inl (others key member)
  | delete key => exact Or.inl (others key member)
  | purge => exact Or.inl (List.mem_map_of_mem (List.mem_of_mem_filter member))
  | clear => cases member
  | peek | contains | keys | length | stats => exact Or.inl (List.mem_map_of_mem member)

namespace LruCache

variable {α : Type} {cache : LruCache α}

theorem Sound.answer (sound : cache.Sound) (now : Instant) (call : CacheCall α) :
    (LruCache.answer now call cache).2.Sound := by
  obtain ⟨list, represents⟩ := sound
  exact ⟨_, (represents.answer now call).2⟩

theorem Sound.mem_keys_of_answer (sound : cache.Sound) {now : Instant} {call : CacheCall α}
    {key : Key} (member : key ∈ (LruCache.answer now call cache).2.keys) :
    key ∈ cache.keys ∨ call.key? = some key := by
  obtain ⟨list, represents⟩ := sound
  rw [(represents.answer now call).2.keys] at member
  obtain ⟨item, present, rfl⟩ := List.mem_map.mp member
  rw [represents.keys]
  exact UsageList.mem_entries_of_answer present

end LruCache

def ShardedCache.home (count : Nat) (key : Key) : Nat :=
  (Fingerprint.hash64 (Utf8.encode key.toList ++ [0xff])).toNat % count

namespace ShardedCall

open ShardedCache (home)

variable {α : Type}

def single : ShardedCall α → CacheCall α
  | add key value => .add key value
  | addWithLifetime key value lifetime => .addWithLifetime key value lifetime
  | get key => .get key
  | contains key => .contains key
  | delete key => .delete key
  | purge => .purge
  | length => .length
  | clear => .clear
  | stats => .stats

def isAt (count shard : Nat) (call : ShardedCall α) : Bool :=
  call.single.key?.map (home count) = some shard

def changesAll : ShardedCall α → Bool
  | purge => true
  | clear => true
  | _ => false

theorem changesAll_of_key {call : ShardedCall α} {key : Key}
    (keyed : call.single.key? = some key) : call.changesAll = false := by
  cases call with
  | purge | clear => cases keyed
  | _ => rfl

/-- The calls of a history that one shard gets to see. -/
def fed (count shard : Nat) (calls : List (Instant × ShardedCall α)) :
    List (Instant × ShardedCall α) :=
  calls.filter fun (_, call) => call.isAt count shard || call.changesAll

/-- The answers of a history that are about the keys of one shard. -/
def answersOn (count shard : Nat) (calls : List (Instant × ShardedCall α))
    (answers : List (CacheAnswer α)) : List (CacheAnswer α) :=
  ((calls.zip answers).filter fun (call, _) => call.2.isAt count shard).map (·.2)

variable {count shard : Nat} {calls : List (Instant × ShardedCall α)}

theorem fed_cons (now : Instant) (call : ShardedCall α) :
    fed count shard ((now, call) :: calls) =
      if call.isAt count shard || call.changesAll then (now, call) :: fed count shard calls
      else fed count shard calls := List.filter_cons

theorem answersOn_cons (now : Instant) (call : ShardedCall α) (answer : CacheAnswer α)
    (answers : List (CacheAnswer α)) :
    answersOn count shard ((now, call) :: calls) (answer :: answers) =
      if call.isAt count shard then answer :: answersOn count shard calls answers
      else answersOn count shard calls answers := by
  simp only [answersOn, List.zip_cons_cons, List.filter_cons]
  split <;> rfl

end ShardedCall

def LruCache.answerSharded {α : Type} (calls : List (Instant × ShardedCall α))
    (cache : LruCache α) : List (CacheAnswer α) × LruCache α :=
  answerCalls LruCache.answer (calls.map fun (now, call) => (now, call.single)) cache

theorem LruCache.answerSharded_cons {α : Type} (now : Instant) (call : ShardedCall α)
    (rest : List (Instant × ShardedCall α)) (cache : LruCache α) :
    cache.answerSharded ((now, call) :: rest) =
      let first := LruCache.answer now call.single cache
      let others := first.2.answerSharded rest
      (first.1 :: others.1, others.2) := rfl

namespace ShardedCache

variable {α : Type}

def answer (now : Instant) (call : ShardedCall α) (cache : ShardedCache α) :
    CacheAnswer α × ShardedCache α :=
  match call with
  | .add key value => (cache.insert now key value none).map .evicted id
  | .addWithLifetime key value lifetime =>
    (cache.insert now key value (some lifetime)).map .evicted id
  | .get key => (cache.get now key).map .value id
  | .contains key => (.present (cache.contains now key), cache)
  | .delete key => (.done, cache.delete key)
  | .purge => (cache.purge now).map .count id
  | .length => (.count cache.length, cache)
  | .clear => (.done, cache.clear)
  | .stats => (.stats cache.stats, cache)

def answerCalls : List (Instant × ShardedCall α) → ShardedCache α →
    List (CacheAnswer α) × ShardedCache α
  | [], cache => ([], cache)
  | (now, call) :: rest, cache =>
    let (first, cache) := answer now call cache
    let (others, cache) := answerCalls rest cache
    (first :: others, cache)

/-- What a shard is after a history, if it is a cache of its own. -/
def part (count : Nat) (one : LruCache α) (calls : List (Instant × ShardedCall α))
    (shard : Nat) : LruCache α :=
  (one.answerSharded (ShardedCall.fed count shard calls)).2

variable {cache : ShardedCache α} {shard : Nat}

/-! One call -/

theorem getElem?_onOwner {β : Type} (key : Key) (operation : LruCache α → β × LruCache α)
    (shard : Nat) :
    (cache.onOwner key operation).2.shards[shard]? =
      cache.shards[shard]?.map fun held =>
        if home cache.shards.size key = shard then (operation held).2 else held := by
  change (cache.shards.set (cache.owner key) (operation (cache.shardOf key)).2)[shard]? = _
  rw [Array.getElem?_set]
  by_cases same : (cache.owner key).val = shard
  · have held : cache.shards[shard]? = some (cache.shardOf key) := by
      subst same
      exact Array.getElem?_eq_getElem (cache.owner key).isLt
    have here : home cache.shards.size key = shard := same
    simp [same, here, held]
  · have elsewhere : ¬home cache.shards.size key = shard := same
    simp [same, elsewhere]

theorem onOwner_of_unchanged {β : Type} (key : Key) (read : LruCache α → β) :
    cache.onOwner key (fun held => (read held, held)) = (read (cache.shardOf key), cache) := by
  have same : cache.shards.set (cache.owner key) (cache.shardOf key) = cache.shards :=
    Array.set_getElem_self (cache.owner key).isLt
  simp only [onOwner, same]

theorem answer_of_key {now : Instant} {call : ShardedCall α} {key : Key}
    (keyed : call.single.key? = some key) :
    cache.answer now call = cache.onOwner key (LruCache.answer now call.single) := by
  cases call with
  | add other value =>
      obtain rfl := Option.some.inj keyed
      rfl
  | addWithLifetime other value lifetime =>
      obtain rfl := Option.some.inj keyed
      rfl
  | get other =>
      obtain rfl := Option.some.inj keyed
      rfl
  | contains other =>
      obtain rfl := Option.some.inj keyed
      exact (onOwner_of_unchanged other fun held =>
        CacheAnswer.present (held.contains now other)).symm
  | delete other =>
      obtain rfl := Option.some.inj keyed
      rfl
  | purge | length | clear | stats => cases keyed

theorem getElem?_answer (now : Instant) (call : ShardedCall α) (shard : Nat) :
    (cache.answer now call).2.shards[shard]? =
      cache.shards[shard]?.map fun held =>
        if call.isAt cache.shards.size shard || call.changesAll then
          (LruCache.answer now call.single held).2
        else held := by
  cases keyed : call.single.key? with
  | some key =>
      simp [answer_of_key keyed, getElem?_onOwner, ShardedCall.isAt, keyed,
        ShardedCall.changesAll_of_key keyed]
  | none =>
      cases call with
      | purge => exact Array.getElem?_map
      | clear => exact Array.getElem?_map
      | length => exact Option.map_id.symm ▸ rfl
      | stats => exact Option.map_id.symm ▸ rfl
      | add _ _ | addWithLifetime _ _ _ | get _ | contains _ | delete _ => cases keyed

theorem size_answer (now : Instant) (call : ShardedCall α) :
    (cache.answer now call).2.shards.size = cache.shards.size := by
  have kept : ∀ shard : Nat, (cache.answer now call).2.shards[shard]? = none ↔
      cache.shards[shard]? = none := by
    intro shard
    rw [getElem?_answer, Option.map_eq_none_iff]
  simp only [Array.getElem?_eq_none_iff] at kept
  exact Nat.le_antisymm ((kept _).mpr (Nat.le_refl _)) ((kept _).mp (Nat.le_refl _))

theorem fst_answer {now : Instant} {call : ShardedCall α} {held : LruCache α}
    (found : cache.shards[shard]? = some held)
    (here : call.isAt cache.shards.size shard = true) :
    (cache.answer now call).1 = (LruCache.answer now call.single held).1 := by
  obtain ⟨key, keyed, owner⟩ := Option.map_eq_some_iff.mp (of_decide_eq_true here)
  have same : cache.shardOf key = held := by
    subst owner
    exact Option.some.inj ((Array.getElem?_eq_getElem (cache.owner key).isLt).symm.trans found)
  rw [answer_of_key keyed, onOwner, same]

/-! Histories -/

theorem size_answerCalls (calls : List (Instant × ShardedCall α)) :
    (answerCalls calls cache).2.shards.size = cache.shards.size := by
  induction calls generalizing cache with
  | nil => rfl
  | cons call rest ih =>
      exact ih.trans (size_answer call.1 call.2)

theorem getElem?_answerCalls (calls : List (Instant × ShardedCall α)) (shard : Nat) :
    (answerCalls calls cache).2.shards[shard]? =
      cache.shards[shard]?.map fun held => part cache.shards.size held calls shard := by
  induction calls generalizing cache with
  | nil =>
      exact Option.map_id.symm ▸ rfl
  | cons call rest ih =>
      obtain ⟨now, call⟩ := call
      have later : (answerCalls rest (cache.answer now call).2).2.shards[shard]? = _ := ih
      rw [size_answer, getElem?_answer, Option.map_map] at later
      refine later.trans (Option.map_congr fun held _ => ?_)
      simp only [Function.comp_apply, part, ShardedCall.fed_cons]
      split <;> rfl

theorem answersOn_answerCalls {held : LruCache α} (calls : List (Instant × ShardedCall α))
    (found : cache.shards[shard]? = some held) :
    ShardedCall.answersOn cache.shards.size shard calls (answerCalls calls cache).1 =
      let fed := ShardedCall.fed cache.shards.size shard calls
      ShardedCall.answersOn cache.shards.size shard fed (held.answerSharded fed).1 := by
  induction calls generalizing cache held with
  | nil => rfl
  | cons call rest ih =>
      obtain ⟨now, call⟩ := call
      have next : (cache.answer now call).2.shards[shard]? = _ := getElem?_answer now call shard
      rw [found, Option.map_some] at next
      have others := ih next
      rw [size_answer] at others
      simp only [answerCalls, ShardedCall.answersOn_cons, ShardedCall.fed_cons]
      by_cases here : call.isAt cache.shards.size shard = true
      · simp only [here, Bool.true_or, if_true, LruCache.answerSharded_cons,
          ShardedCall.answersOn_cons, fst_answer found here] at others ⊢
        rw [others]
      · by_cases all : call.changesAll = true
        · simp only [here, all, Bool.or_true, if_true, LruCache.answerSharded_cons,
            ShardedCall.answersOn_cons] at others ⊢
          exact others
        · simp only [here, all, Bool.or_self, Bool.false_eq_true, if_false] at others ⊢
          exact others

theorem home_of_mem_keys {count : Nat} {one : LruCache α} (sound : one.Sound)
    (own : ∀ key ∈ one.keys, home count key = shard) (calls : List (Instant × ShardedCall α)) :
    ∀ key ∈ (part count one calls shard).keys, home count key = shard := by
  induction calls generalizing one with
  | nil => exact own
  | cons call rest ih =>
      obtain ⟨now, call⟩ := call
      rw [part, ShardedCall.fed_cons]
      split
      · rename_i goes
        refine ih (sound.answer now call.single) fun key member => ?_
        rcases sound.mem_keys_of_answer member with old | keyed
        · exact own key old
        · rcases Bool.or_eq_true_iff.mp goes with here | all
          · rw [ShardedCall.isAt, keyed, Option.map_some, decide_eq_true_eq] at here
            exact Option.some.inj here
          · rw [ShardedCall.changesAll_of_key keyed] at all
            cases all
      · exact ih sound own

theorem shards_answerCalls {one : LruCache α}
    (same : ∀ shard < cache.shards.size, cache.shards[shard]? = some one)
    (calls : List (Instant × ShardedCall α)) :
    (answerCalls calls cache).2.shards.toList =
      (List.range cache.shards.size).map (part cache.shards.size one calls) := by
  refine List.ext_getElem? fun shard => ?_
  rw [Array.getElem?_toList, getElem?_answerCalls, List.getElem?_map]
  by_cases bound : shard < cache.shards.size
  · rw [same shard bound, List.getElem?_range bound]
    rfl
  · have outside := Nat.le_of_not_lt bound
    simp [outside]

theorem stats_eq_sum {field : Tally → UInt64}
    (counted : field ∈ [Tally.hits, Tally.misses, Tally.evictions, Tally.expirations,
      Tally.totalEntries]) :
    field cache.stats = (cache.shards.toList.map fun held => field held.stats).sum := by
  have zero : field .zero = 0 := by
    simp only [List.mem_cons, List.not_mem_nil, or_false] at counted
    rcases counted with rfl | rfl | rfl | rfl | rfl <;> rfl
  have merge : ∀ first second : Tally,
      field (first.merge second) = field first + field second := by
    simp only [List.mem_cons, List.not_mem_nil, or_false] at counted
    intro first second
    rcases counted with rfl | rfl | rfl | rfl | rfl <;> rfl
  suffices general : ∀ (shards : List (LruCache α)) (start : Tally),
      field (shards.foldl (fun total held => total.merge held.stats) start) =
        field start + (shards.map fun held => field held.stats).sum by
    rw [stats, general, zero, UInt64.zero_add]
  intro shards
  induction shards with
  | nil => simp
  | cons held rest ih =>
      intro start
      rw [List.foldl_cons, ih, merge, List.map_cons, List.sum_cons, UInt64.add_assoc]

/-! One shard -/

theorem isAt_alone {call : ShardedCall α} {key : Key} (keyed : call.single.key? = some key) :
    call.isAt 1 0 = true := by
  simp [ShardedCall.isAt, keyed, home, Nat.mod_one]

theorem answer_alone {one : LruCache α} (single : cache.shards = #[one]) (now : Instant)
    (call : ShardedCall α) :
    (cache.answer now call).1 = (LruCache.answer now call.single one).1 ∧
      (cache.answer now call).2.shards = #[(LruCache.answer now call.single one).2] := by
  have size : cache.shards.size = 1 := by simp [single]
  have found : cache.shards[0]? = some one := by simp [single]
  cases keyed : call.single.key? with
  | some key =>
      have here : call.isAt cache.shards.size 0 = true := size.symm ▸ isAt_alone keyed
      refine ⟨fst_answer found here, Array.ext_getElem? fun shard => ?_⟩
      rw [getElem?_answer, single]
      cases shard with
      | zero => simp [isAt_alone keyed]
      | succ other => simp
  | none =>
      have total : cache.stats = one.stats := by
        simp [stats, single, Tally.merge, Tally.zero]
      cases call with
      | purge => simp [answer, purge, onEach, LruCache.answer, ShardedCall.single, single]
      | length => simp [answer, length, LruCache.answer, ShardedCall.single, single]
      | clear => simp [answer, clear, onEach, LruCache.answer, ShardedCall.single, single]
      | stats => simp [answer, LruCache.answer, ShardedCall.single, single, total]
      | _ => cases keyed

theorem answerCalls_alone {one : LruCache α} (single : cache.shards = #[one])
    (calls : List (Instant × ShardedCall α)) :
    (answerCalls calls cache).1 = (one.answerSharded calls).1 := by
  induction calls generalizing cache one with
  | nil => rfl
  | cons call rest ih =>
      obtain ⟨first, after⟩ := answer_alone single call.1 call.2
      exact congrArg₂ List.cons first (ih after)

/-- As many caches as there are shards, and nothing else. -/
structure Independent (count : Nat) (one : LruCache α) (fresh : ShardedCache α) : Prop where
  shards : ∀ calls, (answerCalls calls fresh).2.shards.toList =
    (List.range count).map (part count one calls)
  homes : ∀ calls, ∀ shard < count, ∀ key ∈ (part count one calls shard).keys,
    home count key = shard
  answers : ∀ calls, ∀ shard < count,
    ShardedCall.answersOn count shard calls (answerCalls calls fresh).1 =
      let fed := ShardedCall.fed count shard calls
      ShardedCall.answersOn count shard fed (one.answerSharded fed).1
  lengths : ∀ calls, (answerCalls calls fresh).2.length =
    ((List.range count).map fun shard => (part count one calls shard).length).sum
  purges : ∀ calls now, ((answerCalls calls fresh).2.purge now).1 =
    ((List.range count).map fun shard => ((part count one calls shard).purge now).1).sum
  stats : ∀ calls, ∀ field ∈ [Tally.hits, Tally.misses, Tally.evictions, Tally.expirations,
      Tally.totalEntries],
    field (answerCalls calls fresh).2.stats =
      ((List.range count).map fun shard => field (part count one calls shard).stats).sum
  /-- Histories that one shard cannot tell apart get the same answers there. -/
  apart : ∀ calls others, ∀ shard < count,
    ShardedCall.fed count shard calls = ShardedCall.fed count shard others →
    ShardedCall.answersOn count shard calls (answerCalls calls fresh).1 =
      ShardedCall.answersOn count shard others (answerCalls others fresh).1
  /-- To insert a key changes no shard but its own. -/
  evictions : ∀ calls now key value lifetime, ∀ shard < count, shard ≠ home count key →
    ((answerCalls calls fresh).2.insert now key value lifetime).2.shards[shard]? =
      (answerCalls calls fresh).2.shards[shard]?

theorem Independent.of_same {count : Nat} {one : LruCache α} {fresh : ShardedCache α}
    (size : fresh.shards.size = count)
    (same : ∀ shard < fresh.shards.size, fresh.shards[shard]? = some one)
    (sound : one.Sound) (empty : one.keys = []) : Independent count one fresh := by
  subst size
  have shards := shards_answerCalls same
  have answers := fun calls (shard : Nat) bound =>
    answersOn_answerCalls calls (same shard bound)
  refine ⟨shards, ?_, answers, ?_, ?_, ?_, ?_, ?_⟩
  · intro calls shard _
    exact home_of_mem_keys sound (by simp [empty]) calls
  · intro calls
    simp only [ShardedCache.length, shards, List.map_map, Function.comp_def]
  · intro calls now
    simp only [ShardedCache.purge, shards, List.map_map, Function.comp_def]
  · intro calls field counted
    rw [stats_eq_sum counted, shards, List.map_map, Function.comp_def]
  · intro calls others shard bound alike
    rw [answers calls shard bound, answers others shard bound, alike]
  · intro calls now key value lifetime shard bound away
    change ((answerCalls calls fresh).2.onOwner key _).2.shards[shard]? = _
    have elsewhere : ¬home fresh.shards.size key = shard := fun here => away here.symm
    simp [getElem?_onOwner, size_answerCalls, elsewhere]

/-- A cache that can be built is independent caches, and with one shard it is a single cache. -/
theorem create_independent {capacity shards : UInt64} {fresh : ShardedCache α}
    (created : ShardedCache.create capacity shards = .ok fresh) :
    ∃ one, LruCache.create (shareOf capacity shards).toNat = .ok one ∧
      Independent shards.toNat one fresh ∧
      (shards = 1 → LruCache.create capacity.toNat = .ok one ∧
        ∀ calls, (answerCalls calls fresh).1 = (one.answerSharded calls).1) := by
  obtain ⟨one, made, replicated⟩ := create_eq_ok created
  have size : fresh.shards.size = shards.toNat := by simp [replicated]
  have same : ∀ shard < fresh.shards.size, fresh.shards[shard]? = some one := by
    intro shard bound
    rw [replicated, Array.getElem?_replicate, if_pos (size ▸ bound)]
  have empty : one.keys = [] := by
    unfold LruCache.create at made
    split at made
    · cases made
    · obtain rfl := Except.ok.inj made
      rfl
  refine ⟨one, made, .of_same size same (LruCache.create_sound made).1 empty, ?_⟩
  rintro rfl
  rw [shareOf_one] at made
  exact ⟨made, answerCalls_alone replicated⟩

/-- One shard overflows while the other one does not. -/
def crowding : List (Instant × ShardedCall Nat) :=
  [(⟨0⟩, .add "b" 0), (⟨1⟩, .add "a" 1), (⟨2⟩, .addWithLifetime "c" 2 ⟨5⟩), (⟨3⟩, .add "e" 3),
    (⟨4⟩, .contains "a"), (⟨5⟩, .get "b"), (⟨9⟩, .purge), (⟨9⟩, .length)]

theorem create_independent_crowding :
    ∃ (fresh : ShardedCache Nat) (one : LruCache Nat),
      ShardedCache.create 4 2 = .ok fresh ∧ LruCache.create 2 = .ok one ∧
      Independent 2 one fresh ∧
      (answerCalls crowding fresh).1 = [.evicted false, .evicted false, .evicted false,
        .evicted true, .present false, .value (some 0), .count 1, .count 2] ∧
      (one.answerSharded (ShardedCall.fed 2 0 crowding)).1 =
        [.evicted false, .value (some 0), .count 0] := by
  obtain ⟨fresh, created⟩ : ∃ fresh : ShardedCache Nat, ShardedCache.create 4 2 = .ok fresh :=
    ⟨_, rfl⟩
  obtain ⟨one, made, independent, _⟩ := create_independent created
  have given : LruCache.create 2 = .ok one := made
  obtain rfl := Except.ok.inj created
  obtain rfl := Except.ok.inj given
  exact ⟨_, _, rfl, rfl, independent, by decide +kernel, by decide +kernel⟩

end ShardedCache

end CachedStore
