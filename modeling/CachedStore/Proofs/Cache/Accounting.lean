import CachedStore.Proofs.Cache.Contents

/-!
The books of a cache. Its statistics are the numbers of what callers have seen, and they balance:
every entry that ever came in is still there or has left through one counted door.
-/

namespace CachedStore

structure CacheStep (α : Type) where
  before : LruCache α
  now : Instant
  call : CacheCall α

namespace CacheStep

variable {α : Type}

def answer (step : CacheStep α) : CacheAnswer α :=
  (LruCache.answer step.now step.call step.before).1

def after (step : CacheStep α) : LruCache α := (LruCache.answer step.now step.call step.before).2

def isHit (step : CacheStep α) : Bool :=
  match step.call, step.answer with
  | .get _, .value (some _) => true
  | _, _ => false

def isMiss (step : CacheStep α) : Bool :=
  match step.call, step.answer with
  | .get _, .value none => true
  | _, _ => false

def evicts (step : CacheStep α) : Bool :=
  match step.answer with
  | .evicted evicted => evicted
  | _ => false

def addsNew (step : CacheStep α) : Bool :=
  match step.call with
  | .add key _ | .addWithLifetime key _ _ => (step.before.stored? key).isNone
  | _ => false

def dropsExpired (step : CacheStep α) : Bool :=
  match step.call with
  | .get key =>
    (step.before.stored? key).any (·.isExpired step.now) && (step.after.stored? key).isNone
  | _ => false

def purged (step : CacheStep α) : Nat :=
  match step.call, step.answer with
  | .purge, .count count => count
  | _, _ => 0

def removes (step : CacheStep α) : Bool :=
  match step.call with
  | .remove key | .delete key =>
    (step.before.stored? key).isSome && (step.after.stored? key).isNone
  | _ => false

def cleared (step : CacheStep α) : Nat :=
  match step.call with
  | .clear => step.before.length - step.after.length
  | _ => 0

/-- The statistics after a step, but for the number of entries. -/
def count (step : CacheStep α) (tally : Tally) : Tally :=
  { tally with
    hits := tally.hits + UInt64.ofNat step.isHit.toNat
    misses := tally.misses + UInt64.ofNat step.isMiss.toNat
    evictions := tally.evictions + UInt64.ofNat step.evicts.toNat
    expirations := tally.expirations + UInt64.ofNat (step.dropsExpired.toNat + step.purged) }

variable {step : CacheStep α}

theorem count_of_no_lookup (hits : step.isHit = false) (misses : step.isMiss = false)
    (drops : step.dropsExpired.toNat + step.purged = 0) (tally : Tally) :
    step.count tally =
      { tally with evictions := tally.evictions + UInt64.ofNat step.evicts.toNat } := by
  simp [count, hits, misses, drops]

theorem count_of_idle (hits : step.isHit = false) (misses : step.isMiss = false)
    (evicts : step.evicts = false) (drops : step.dropsExpired.toNat + step.purged = 0)
    (tally : Tally) : step.count tally = tally := by
  simp [count_of_no_lookup hits misses drops, evicts]

end CacheStep

namespace LruCache

variable {α : Type}

def steps : List (Instant × CacheCall α) → LruCache α → List (CacheStep α)
  | [], _ => []
  | (now, call) :: rest, cache =>
    ⟨cache, now, call⟩ :: steps rest (LruCache.answer now call cache).2

theorem length_steps (calls : List (Instant × CacheCall α)) (cache : LruCache α) :
    (cache.steps calls).length = calls.length := by
  induction calls generalizing cache with
  | nil => rfl
  | cons call rest ih => exact congrArg (· + 1) (ih _)

theorem answers_steps (calls : List (Instant × CacheCall α)) (cache : LruCache α) :
    (cache.steps calls).map (·.answer) = (answerCalls LruCache.answer calls cache).1 := by
  induction calls generalizing cache with
  | nil => rfl
  | cons call rest ih => exact congrArg (List.cons _) (ih _)

/-- The books of some steps. The counts are words and wrap, the entries are numbers. -/
structure Accounted (before : LruCache α) (steps : List (CacheStep α)) (after : LruCache α) :
    Prop where
  hits : after.stats.hits = before.stats.hits + UInt64.ofNat (steps.countP (·.isHit))
  misses : after.stats.misses = before.stats.misses + UInt64.ofNat (steps.countP (·.isMiss))
  evictions : after.stats.evictions =
    before.stats.evictions + UInt64.ofNat (steps.countP (·.evicts))
  expirations : after.stats.expirations = before.stats.expirations +
    UInt64.ofNat (steps.countP (·.dropsExpired) + (steps.map (·.purged)).sum)
  entries : before.length + steps.countP (·.addsNew) =
    after.length + steps.countP (·.evicts) +
      (steps.countP (·.dropsExpired) + (steps.map (·.purged)).sum) +
      steps.countP (·.removes) + (steps.map (·.cleared)).sum

theorem Accounted.nil (cache : LruCache α) : Accounted cache [] cache :=
  ⟨by simp, by simp, by simp, by simp, by simp⟩

theorem Accounted.append {first second third : LruCache α} {steps others : List (CacheStep α)}
    (start : Accounted first steps second) (rest : Accounted second others third) :
    Accounted first (steps ++ others) third where
  hits := by
    rw [rest.hits, start.hits, List.countP_append, UInt64.ofNat_add, UInt64.add_assoc]
  misses := by
    rw [rest.misses, start.misses, List.countP_append, UInt64.ofNat_add, UInt64.add_assoc]
  evictions := by
    rw [rest.evictions, start.evictions, List.countP_append, UInt64.ofNat_add, UInt64.add_assoc]
  expirations := by
    rw [rest.expirations, start.expirations, UInt64.add_assoc, ← UInt64.ofNat_add]
    congr 2
    rw [List.countP_append, List.map_append, List.sum_append]
    omega
  entries := by
    have first := start.entries
    have second := rest.entries
    simp only [List.countP_append, List.map_append, List.sum_append]
    omega

namespace Represents

variable {cache : LruCache α} {list : UsageList α}

theorem length_delete (represents : cache.Represents list) (key : Key) :
    (list.delete key).entries.length + (list.find? key).isSome.toNat = list.entries.length := by
  cases found : cache.index[key]? with
  | none =>
      have others : list.others key = list.entries := filter_absent (represents.absent found)
      simp [UsageList.delete, others, represents.find?_missing found]
  | some slot =>
      obtain ⟨_, entry, _, _, _, stored, _⟩ := represents.split found
      rw [represents.length_others found, stored]
      rfl

theorem insert_accounts (represents : cache.Represents list) (now : Instant) (key : Key)
    (value : α) (lifetime : Option Duration) :
    let inserted := list.insert now key value lifetime
    inserted.2.tally = { list.tally with
      evictions := list.tally.evictions + UInt64.ofNat inserted.1.toNat } ∧
    list.entries.length + (list.find? key).isNone.toNat =
      inserted.2.entries.length + inserted.1.toNat := by
  have shorter := represents.length_delete key
  have positive := represents.positive
  unfold UsageList.insert
  cases stored : list.find? key with
  | some entry =>
      rw [stored] at shorter
      simp only [Option.isSome_some, Option.isNone_some, ↓reduceIte, Bool.toNat_false,
        Bool.toNat_true, List.length_cons, UsageList.delete] at shorter ⊢
      exact ⟨by simp, by omega⟩
  | none =>
      by_cases room : list.entries.length < list.capacity
      · simp [room]
      · simp only [Option.isSome_none, Option.isNone_none, Bool.false_eq_true, room, ↓reduceIte,
          Bool.toNat_true, List.length_cons, List.length_dropLast]
        exact ⟨rfl, by omega⟩

theorem accounted_of {next : LruCache α} {kept : UsageList α} {step : CacheStep α}
    (represents : cache.Represents list) (after : next.Represents kept)
    (tally : kept.tally = step.count list.tally)
    (entries : list.entries.length + step.addsNew.toNat =
      kept.entries.length + step.evicts.toNat + (step.dropsExpired.toNat + step.purged) +
        step.removes.toNat + step.cleared) : Accounted cache [step] next := by
  have single : ∀ holds : CacheStep α → Bool, [step].countP holds = (holds step).toNat := by
    intro holds
    rw [List.countP_singleton]
    cases holds step <;> rfl
  constructor
  all_goals simp only [after.stats, represents.stats, UsageList.stats, Tally.withEntries, tally,
    CacheStep.count, single, List.map_cons, List.map_nil, List.sum_cons, List.sum_nil,
    Nat.add_zero]
  rw [after.length_eq, represents.length_eq]
  exact entries

theorem accounted_insert (represents : cache.Represents list) {step : CacheStep α} {key : Key}
    {value : α} {lifetime : Option Duration}
    (evicts : step.evicts = (cache.insert step.now key value lifetime).1)
    (adds : step.addsNew = (cache.stored? key).isNone)
    (hits : step.isHit = false) (misses : step.isMiss = false)
    (drops : step.dropsExpired.toNat + step.purged = 0)
    (leaves : step.removes.toNat + step.cleared = 0) :
    Accounted cache [step] (cache.insert step.now key value lifetime).2 := by
  have inserted := represents.insert step.now key value lifetime
  obtain ⟨counts, entries⟩ := represents.insert_accounts step.now key value lifetime
  rw [inserted.1] at evicts
  rw [represents.stored?_eq] at adds
  refine represents.accounted_of inserted.2 ?_ ?_
  · rw [CacheStep.count_of_no_lookup hits misses drops, evicts, counts]
  · rw [evicts, adds]
    omega

theorem accounted_get (represents : cache.Represents list) (now : Instant) (key : Key) :
    Accounted cache [⟨cache, now, .get key⟩] (cache.get now key).2 := by
  have read := represents.get now key
  have shorter := represents.length_delete key
  have answer : (CacheStep.mk cache now (.get key)).answer = .value (list.get now key).1 :=
    congrArg CacheAnswer.value read.1
  -- That an expired entry was dropped shows in what is stored afterwards.
  have after : (CacheStep.mk cache now (.get key)).after.stored? key =
      (list.get now key).2.find? key := read.2.stored?_eq key
  have before := represents.stored?_eq key
  refine represents.accounted_of read.2 ?_ ?_
  all_goals
    simp only [CacheStep.count, CacheStep.isHit, CacheStep.isMiss, CacheStep.evicts,
      CacheStep.dropsExpired, CacheStep.purged, CacheStep.addsNew, CacheStep.removes,
      CacheStep.cleared, answer, after, before]
    unfold UsageList.get
    cases stored : list.find? key with
    | none => simp [Tally.recordMiss]
    | some entry =>
        have whole : list.entries.length = (list.others key).length + 1 := by
          rw [← shorter, stored]
          rfl
        cases expired : entry.isExpired now with
        | true => simp [expired, UsageList.find?, list.lookup_others_self, whole,
            Tally.recordExpiration, Tally.recordMiss]
        | false => simp [expired, whole, Tally.recordHit]

theorem accounted_unlink (represents : cache.Represents list) {step : CacheStep α} {key : Key}
    (removes : step.removes =
      ((cache.stored? key).isSome && ((cache.unlink key).2.stored? key).isNone))
    (tally : ∀ before, step.count before = before)
    (others : step.addsNew.toNat + step.evicts.toNat +
      (step.dropsExpired.toNat + step.purged) + step.cleared = 0) :
    Accounted cache [step] (cache.unlink key).2 := by
  have unlinked := (represents.unlink key).2
  have shorter := represents.length_delete key
  have gone : (list.delete key).find? key = none := list.lookup_others_self
  rw [represents.stored?_eq, unlinked.stored?_eq, gone, Option.isNone_none, Bool.and_true]
    at removes
  refine represents.accounted_of unlinked (tally _).symm ?_
  rw [removes]
  omega

theorem accounted_purge (represents : cache.Represents list) (now : Instant) :
    Accounted cache [⟨cache, now, .purge⟩] (cache.purge now).2 := by
  have purged := represents.purge now
  have count : (CacheStep.mk cache now .purge).purged = list.entries.countP (·.2.isExpired now) :=
    purged.1
  refine represents.accounted_of purged.2 ?_ ?_
  · simp only [CacheStep.count, count]
    simp [UsageList.purge, CacheStep.isHit, CacheStep.isMiss, CacheStep.evicts,
      CacheStep.dropsExpired, CacheStep.answer, LruCache.answer]
  · have kept : (list.purge now).2.entries.length =
        list.entries.countP fun entry => !entry.2.isExpired now :=
      List.countP_eq_length_filter.symm
    have parts : list.entries.length = list.entries.countP (·.2.isExpired now) +
        list.entries.countP fun entry => !entry.2.isExpired now := by
      simpa using List.length_eq_countP_add_countP fun entry : Key × Entry α =>
        entry.2.isExpired now
    rw [count, kept, parts]
    change _ + 0 = _ + 0 + (0 + _) + 0 + 0
    omega

theorem accounted_clear (represents : cache.Represents list) (now : Instant) :
    Accounted cache [⟨cache, now, .clear⟩] cache.clear := by
  refine represents.accounted_of represents.clear ?_ ?_
  · exact (CacheStep.count_of_idle rfl rfl rfl rfl _).symm
  · have dropped : (CacheStep.mk cache now .clear).cleared = list.entries.length :=
      represents.length_eq
    rw [dropped]
    exact Nat.add_comm _ 0

theorem accounted (represents : cache.Represents list) (now : Instant) (call : CacheCall α) :
    Accounted cache [⟨cache, now, call⟩] (LruCache.answer now call cache).2 := by
  cases call with
  | add key value => exact represents.accounted_insert rfl rfl rfl rfl rfl rfl
  | addWithLifetime key value lifetime =>
      exact represents.accounted_insert rfl rfl rfl rfl rfl rfl
  | get key => exact represents.accounted_get now key
  | remove key =>
      exact represents.accounted_unlink rfl (CacheStep.count_of_idle rfl rfl rfl rfl) rfl
  | delete key =>
      exact represents.accounted_unlink rfl (CacheStep.count_of_idle rfl rfl rfl rfl) rfl
  | purge => exact represents.accounted_purge now
  | clear => exact represents.accounted_clear now
  | peek | contains | keys | length | stats =>
      exact represents.accounted_of represents (CacheStep.count_of_idle rfl rfl rfl rfl _).symm rfl

theorem accounted_steps (represents : cache.Represents list)
    (calls : List (Instant × CacheCall α)) :
    Accounted cache (cache.steps calls)
      (CachedStore.answerCalls LruCache.answer calls cache).2 := by
  induction calls generalizing cache list with
  | nil => exact .nil cache
  | cons call rest ih =>
      have first := represents.accounted call.1 call.2
      exact first.append (ih (represents.answer call.1 call.2).2)

end Represents

/-- The books of a whole run: what the statistics say, and where the entries are. -/
structure Balanced (capacity : Nat) (steps : List (CacheStep α)) (final : LruCache α) : Prop where
  hits : final.stats.hits.toNat = steps.countP (·.isHit)
  misses : final.stats.misses.toNat = steps.countP (·.isMiss)
  evictions : final.stats.evictions.toNat = steps.countP (·.evicts)
  expirations : final.stats.expirations.toNat =
    steps.countP (·.dropsExpired) + (steps.map (·.purged)).sum
  total : final.stats.totalEntries.toNat = final.length
  bounded : final.length ≤ capacity
  entries : steps.countP (·.addsNew) =
    final.length + final.stats.evictions.toNat + final.stats.expirations.toNat +
      steps.countP (·.removes) + (steps.map (·.cleared)).sum

theorem Accounted.balanced {capacity : Nat} {fresh final : LruCache α}
    {steps : List (CacheStep α)} (accounted : Accounted fresh steps final)
    (clean : fresh.stats = .zero) (empty : fresh.length = 0) (bounded : final.length ≤ capacity)
    (few : steps.length < 2 ^ 64) : Balanced capacity steps final := by
  have entries := accounted.entries
  rw [empty, Nat.zero_add] at entries
  have added : steps.countP (·.addsNew) ≤ steps.length := List.countP_le_length
  have count : ∀ number : Nat, number ≤ steps.length →
      (0 + UInt64.ofNat number).toNat = number := by
    intro number fits
    rw [UInt64.zero_add, UInt64.toNat_ofNat', Nat.mod_eq_of_lt (by omega)]
  have hits : final.stats.hits.toNat = steps.countP (·.isHit) := by
    rw [accounted.hits, clean]
    exact count _ List.countP_le_length
  have misses : final.stats.misses.toNat = steps.countP (·.isMiss) := by
    rw [accounted.misses, clean]
    exact count _ List.countP_le_length
  have evictions : final.stats.evictions.toNat = steps.countP (·.evicts) := by
    rw [accounted.evictions, clean]
    exact count _ (by omega)
  have expirations : final.stats.expirations.toNat =
      steps.countP (·.dropsExpired) + (steps.map (·.purged)).sum := by
    rw [accounted.expirations, clean]
    exact count _ (by omega)
  have total : final.stats.totalEntries.toNat = final.length := by
    change (UInt64.ofNat final.length).toNat = final.length
    rw [UInt64.toNat_ofNat', Nat.mod_eq_of_lt (by omega)]
  refine ⟨hits, misses, evictions, expirations, total, bounded, ?_⟩
  rw [evictions, expirations, entries]

/--
From a fresh cache, after any calls at any instants, as many as a word can count, the statistics are
the numbers of what the calls have shown, and all entries are accounted for.
-/
theorem steps_balance (capacity : Nat) (positive : 0 < capacity)
    (calls : List (Instant × CacheCall α)) (few : calls.length < 2 ^ 64) :
    ∃ fresh, LruCache.create capacity = .ok fresh ∧
      (fresh.steps calls).map (·.answer) = (answerCalls LruCache.answer calls fresh).1 ∧
      Balanced capacity (fresh.steps calls) (answerCalls LruCache.answer calls fresh).2 := by
  obtain ⟨fresh, created, represents⟩ := create_represents (α := α) capacity positive
  have final := (represents.answerCalls calls).2
  have bounded : (answerCalls LruCache.answer calls fresh).2.length ≤ capacity := by
    have bound := final.bounded
    rw [capacity_answerCalls] at bound
    rw [final.length_eq]
    exact bound
  refine ⟨fresh, created, answers_steps calls fresh, ?_⟩
  exact (represents.accounted_steps calls).balanced represents.stats represents.length_eq bounded
    (length_steps calls fresh ▸ few)

/-- Entries leave by every door: overwritten, evicted, looked up late, purged, removed, cleared. -/
def doors : List (Instant × CacheCall Nat) :=
  [(⟨0⟩, .addWithLifetime "a" 1 ⟨2⟩), (⟨3⟩, .add "a" 2), (⟨3⟩, .addWithLifetime "b" 3 ⟨2⟩),
    (⟨4⟩, .get "a"), (⟨5⟩, .add "c" 4), (⟨5⟩, .addWithLifetime "d" 5 ⟨1⟩), (⟨6⟩, .get "d"),
    (⟨6⟩, .addWithLifetime "e" 6 ⟨1⟩), (⟨7⟩, .purge), (⟨8⟩, .addWithLifetime "f" 7 ⟨1⟩),
    (⟨9⟩, .remove "f"), (⟨9⟩, .remove "f"), (⟨9⟩, .clear), (⟨9⟩, .get "c"), (⟨9⟩, .add "g" 8)]

theorem steps_balance_doors :
    ∃ fresh, LruCache.create 2 = .ok fresh ∧
      Balanced 2 (fresh.steps doors) (answerCalls LruCache.answer doors fresh).2 ∧
      (answerCalls LruCache.answer doors fresh).2.stats = ⟨1, 2, 2, 2, 1⟩ ∧
      (fresh.steps doors).countP (·.addsNew) = 7 ∧
      (fresh.steps doors).countP (·.removes) = 1 ∧
      ((fresh.steps doors).map (·.cleared)).sum = 1 := by
  obtain ⟨fresh, created, _, balanced⟩ := steps_balance 2 (by decide) doors (by decide)
  obtain rfl := Except.ok.inj created
  exact ⟨_, rfl, balanced, by decide +kernel, by decide +kernel, by decide +kernel,
    by decide +kernel⟩

end LruCache

end CachedStore
