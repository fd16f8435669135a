import CachedStore.Proofs.Cache.Contents

/-!
Which entries are live. All look-ups of a key agree on it, however they treat an expired entry, and
so none of them can tell whether the expired entries have been purged before.
-/

namespace CachedStore

/-- Calls about one key that store nothing: those that read it and those that drop it. -/
def CacheCall.isLookup {α : Type} : CacheCall α → Bool
  | get _ | peek _ | contains _ | remove _ | delete _ => true
  | _ => false

namespace UsageList

variable {α : Type}

def survivors (list : UsageList α) (now : Instant) : List (Key × Entry α) :=
  list.entries.filter fun item => !item.2.isExpired now

theorem lookup_survivors {entries : List (Key × Entry α)} (now : Instant) (key : Key)
    (distinct : (entries.map (·.1)).Nodup) :
    (entries.filter fun item => !item.2.isExpired now).lookup key =
      (entries.lookup key).filter (!·.isExpired now) := by
  induction entries with
  | nil => rfl
  | cons item rest ih =>
      obtain ⟨first, entry⟩ := item
      rw [List.map_cons, List.nodup_cons] at distinct
      have others := ih distinct.2
      by_cases same : key = first
      · subst same
        have once := LruCache.lookup_eq_none.mpr distinct.1
        cases expired : entry.isExpired now <;> simp [expired, others, once, Option.filter_some]
      · have skipped : (key == first) = false := by simpa using same
        cases expired : entry.isExpired now <;> simp [expired, others, List.lookup_cons, skipped]

structure Swept (since : Instant) (list purged : UsageList α) : Prop where
  distinct : (list.entries.map (·.1)).Nodup
  entries : purged.entries = list.survivors since

namespace Swept

variable {since now : Instant} {list purged : UsageList α}

theorem find?_eq (swept : Swept since list purged) (key : Key) :
    purged.find? key = (list.find? key).filter (!·.isExpired since) := by
  rw [find?, swept.entries]
  exact lookup_survivors since key swept.distinct

theorem others (swept : Swept since list purged) (key : Key) :
    purged.others key = (list.delete key).survivors since := by
  rw [UsageList.others, swept.entries, survivors, survivors, List.filter_filter]
  simp only [delete, UsageList.others, List.filter_filter, Bool.and_comm]

theorem peek (swept : Swept since list purged) (later : since ≤ now) (key : Key) :
    purged.peek now key = list.peek now key := by
  unfold UsageList.peek
  rw [swept.find?_eq]
  cases list.find? key with
  | none => rfl
  | some entry =>
      cases expired : entry.isExpired since with
      | false => simp [expired, Option.filter_some]
      | true => simp [expired, Option.filter_some, Entry.live?_of_expired expired later]

theorem get (swept : Swept since list purged) (later : since ≤ now) (key : Key) :
    (purged.get now key).2.entries = (list.get now key).2.survivors since := by
  have others := swept.others key
  have found := swept.find?_eq key
  unfold UsageList.get
  cases stored : list.find? key with
  | none =>
      rw [stored] at found
      simp only [found, Option.filter_none]
      exact swept.entries
  | some entry =>
      rw [stored] at found
      cases expired : entry.isExpired since with
      | true =>
          -- The purge has dropped what this look-up drops only now.
          have missing : purged.find? key = none := by simp [found, expired, Option.filter_some]
          have same : purged.others key = purged.entries :=
            LruCache.filter_absent (LruCache.lookup_eq_none.mp missing)
          simp only [missing, Entry.isExpired_later expired later, ↓reduceIte]
          rw [← same]
          exact others
      | false =>
          have kept : purged.find? key = some entry := by simp [found, expired, Option.filter_some]
          simp only [kept]
          cases late : entry.isExpired now with
          | true => exact others
          | false =>
              simp only [Bool.false_eq_true, ↓reduceIte, others]
              simp [survivors, delete, expired]

theorem answer (swept : Swept since list purged) (later : since ≤ now) {call : CacheCall α}
    (lookup : call.isLookup = true) :
    (UsageList.answer now call purged).1 = (UsageList.answer now call list).1 ∧
      (UsageList.answer now call purged).2.entries =
        (UsageList.answer now call list).2.survivors since := by
  cases call with
  | get key =>
      have value : (purged.get now key).1 = (list.get now key).1 := by
        rw [get_fst, get_fst]
        exact swept.peek later key
      exact ⟨congrArg CacheAnswer.value value, swept.get later key⟩
  | peek key => exact ⟨congrArg CacheAnswer.value (swept.peek later key), swept.entries⟩
  | contains key =>
      have present := congrArg Option.isSome (swept.peek later key)
      exact ⟨congrArg CacheAnswer.present present, swept.entries⟩
  | remove key => exact ⟨congrArg CacheAnswer.value (swept.peek later key), swept.others key⟩
  | delete key => exact ⟨rfl, swept.others key⟩
  | _ => cases lookup

end Swept

end UsageList

namespace LruCache

variable {α : Type} {cache : LruCache α} {list : UsageList α}

/-- The representation of the run without the purge carries the keys being distinct. -/
theorem Represents.answerCalls_swept (represents : cache.Represents list) {since : Instant}
    {purged : UsageList α} (entries : purged.entries = list.survivors since)
    {lookups : List (Instant × CacheCall α)}
    (later : ∀ call ∈ lookups, since ≤ call.1 ∧ call.2.isLookup = true) :
    (CachedStore.answerCalls UsageList.answer lookups purged).1 =
        (CachedStore.answerCalls UsageList.answer lookups list).1 ∧
      (CachedStore.answerCalls UsageList.answer lookups purged).2.entries =
        (CachedStore.answerCalls UsageList.answer lookups list).2.survivors since := by
  induction lookups generalizing cache list purged with
  | nil => exact ⟨rfl, entries⟩
  | cons call rest ih =>
      obtain ⟨order, lookup⟩ := later call List.mem_cons_self
      have swept : UsageList.Swept since list purged := ⟨represents.distinct, entries⟩
      obtain ⟨first, kept⟩ := swept.answer order lookup
      obtain ⟨others, left⟩ := ih (represents.answer call.1 call.2).2 kept
        fun other member => later other (List.mem_cons_of_mem _ member)
      exact ⟨congrArg₂ List.cons first others, left⟩

theorem Represents.lookups_agree (represents : cache.Represents list) (now : Instant) (key : Key) :
    cache.contains now key = (cache.peek now key).isSome ∧
      (cache.get now key).1 = cache.peek now key ∧
      (cache.remove now key).1 = cache.peek now key := by
  refine ⟨rfl, ?_, ?_⟩
  · rw [(represents.get now key).1, represents.peek, list.get_fst]
    rfl
  · have removed : (cache.remove now key).1 = (list.find? key).bind (·.live? now) :=
      congrArg (·.bind (·.live? now)) (represents.unlink key).1
    rw [removed, represents.peek]
    rfl

theorem Represents.answerCalls_purge (represents : cache.Represents list) {now : Instant}
    {lookups : List (Instant × CacheCall α)}
    (later : ∀ call ∈ lookups, now ≤ call.1 ∧ call.2.isLookup = true) :
    (CachedStore.answerCalls LruCache.answer lookups (cache.purge now).2).1 =
        (CachedStore.answerCalls LruCache.answer lookups cache).1 ∧
      (CachedStore.answerCalls LruCache.answer lookups (cache.purge now).2).2.order.toList =
        (CachedStore.answerCalls LruCache.answer lookups cache).2.order.toList.filter fun item =>
          !item.2.isExpired now := by
  have purged := (represents.purge now).2.answerCalls lookups
  have kept := represents.answerCalls lookups
  have start : (list.purge now).2.entries = list.survivors now := rfl
  obtain ⟨answers, entries⟩ := represents.answerCalls_swept start later
  rw [purged.1, kept.1, purged.2.toList, kept.2.toList]
  exact ⟨answers, entries⟩

/--
After any calls on a fresh cache, at any instant, all look-ups of a key agree. A purge at that
instant changes no answer of the look-ups from there on, and leaves the others in their order.
-/
theorem purge_unnoticed (capacity : Nat) (positive : 0 < capacity)
    (calls : List (Instant × CacheCall α)) (now : Instant) :
    ∃ fresh, LruCache.create capacity = .ok fresh ∧
      let cache := (answerCalls LruCache.answer calls fresh).2
      (∀ key, cache.contains now key = (cache.peek now key).isSome ∧
        (cache.get now key).1 = cache.peek now key ∧
        (cache.remove now key).1 = cache.peek now key) ∧
      ∀ lookups : List (Instant × CacheCall α),
        (∀ call ∈ lookups, now ≤ call.1 ∧ call.2.isLookup = true) →
        (answerCalls LruCache.answer lookups (cache.purge now).2).1 =
          (answerCalls LruCache.answer lookups cache).1 ∧
        (answerCalls LruCache.answer lookups (cache.purge now).2).2.order.toList =
          (answerCalls LruCache.answer lookups cache).2.order.toList.filter fun item =>
            !item.2.isExpired now := by
  obtain ⟨fresh, created, represents⟩ := create_represents (α := α) capacity positive
  have reached := (represents.answerCalls calls).2
  exact ⟨fresh, created, reached.lookups_agree now, fun _ later => reached.answerCalls_purge later⟩

def expiring : List (Instant × CacheCall Nat) :=
  [(⟨0⟩, .addWithLifetime "a" 1 ⟨5⟩), (⟨0⟩, .addWithLifetime "b" 2 ⟨7⟩), (⟨1⟩, .add "c" 3),
    (⟨2⟩, .addWithLifetime "d" 4 ⟨3⟩), (⟨3⟩, .get "b")]

def lateLookups : List (Instant × CacheCall Nat) :=
  [(⟨5⟩, .get "a"), (⟨5⟩, .contains "b"), (⟨6⟩, .remove "d"), (⟨6⟩, .get "c"), (⟨7⟩, .peek "b"),
    (⟨7⟩, .delete "d")]

theorem purge_unnoticed_late :
    ∃ fresh, LruCache.create 4 = .ok fresh ∧
      let cache := (answerCalls LruCache.answer expiring fresh).2
      (cache.purge ⟨5⟩).1 = 2 ∧ (cache.purge ⟨5⟩).2.keys = ["b", "c"] ∧
      (cache.get ⟨5⟩ "a").1 = cache.peek ⟨5⟩ "a" ∧
      (answerCalls LruCache.answer lateLookups (cache.purge ⟨5⟩).2).1 =
        (answerCalls LruCache.answer lateLookups cache).1 ∧
      (answerCalls LruCache.answer lateLookups cache).1 =
        [.value none, .present true, .value none, .value (some 3), .value none, .done] := by
  obtain ⟨fresh, created, agree, unnoticed⟩ := purge_unnoticed 4 (by decide) expiring ⟨5⟩
  obtain rfl := Except.ok.inj created
  refine ⟨_, rfl, by decide +kernel, by decide +kernel, (agree "a").2.1, ?_, by decide +kernel⟩
  exact (unnoticed lateLookups (by decide)).1

end LruCache

end CachedStore
