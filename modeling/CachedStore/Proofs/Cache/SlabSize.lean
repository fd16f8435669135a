import Mathlib.Data.List.Induction
import Mathlib.Order.Bounds.Basic
import CachedStore.Proofs.Cache.LruRefinement
import CachedStore.Proofs.Cache.RecencyRefinement

/-!
How large a slab gets. Every node is live or free to be used again, so that a list needs as many
nodes as it ever held items at once, and a cache no more than its capacity.
-/

namespace CachedStore

namespace Recency

variable {α : Type} {list : Recency α} {entries : List (Nat × α)}

def liveSlots (list : Recency α) : List Nat := (List.range list.nodes.size).filter list.isLive

def deadSlots (list : Recency α) : List Nat :=
  (List.range list.nodes.size).filter fun slot => !list.isLive slot

/-- The slots that are free are those that are not live, each of them once. -/
structure Compact (list : Recency α) : Prop where
  total : list.nodes.size = list.liveSlots.length + list.free.length
  free : list.free.Perm list.deadSlots
  once : list.free.Nodup

theorem Represents.isLive_iff (holds : Represents list entries) (slot : Nat) :
    list.isLive slot = true ↔ slot ∈ entries.map (·.1) := by
  constructor
  · intro live
    refine Classical.byContradiction fun absent => ?_
    simp [isLive, holds.dead slot absent] at live
  · intro member
    obtain ⟨⟨other, item⟩, belongs, rfl⟩ := List.mem_map.mp member
    simp [isLive, holds.get?_eq_some.mpr belongs]

theorem Represents.liveSlots_perm (holds : Represents list entries) :
    list.liveSlots.Perm (entries.map (·.1)) := by
  have once : list.liveSlots.Nodup := List.nodup_range.filter _
  refine (List.perm_ext_iff_of_nodup once holds.distinct).mpr fun slot => ?_
  rw [liveSlots, List.mem_filter, List.mem_range, holds.isLive_iff]
  exact and_iff_right_of_imp holds.linked.slot_lt

theorem Represents.length_liveSlots (holds : Represents list entries) :
    list.liveSlots.length = list.length := by
  rw [holds.liveSlots_perm.length_eq, List.length_map, holds.length]

theorem Represents.free_perm (holds : Represents list entries) : list.free.Perm list.deadSlots := by
  have once : list.deadSlots.Nodup := List.nodup_range.filter _
  refine (List.perm_ext_iff_of_nodup holds.freeOnce once).mpr fun slot => ?_
  rw [holds.free, deadSlots, List.mem_filter, List.mem_range, ← holds.isLive_iff,
    Bool.not_eq_true, Bool.not_eq_true']

theorem Represents.compact (holds : Represents list entries) : Compact list where
  total := by
    have parts := (List.range list.nodes.size).length_eq_length_filter_add list.isLive
    rw [List.length_range] at parts
    rw [holds.free_perm.length_eq]
    exact parts
  free := holds.free_perm
  once := holds.freeOnce

/-! How the number of nodes changes -/

@[simp] theorem size_moveToFront (list : Recency α) (slot : Nat) :
    (list.moveToFront slot).nodes.size = list.nodes.size := by
  unfold moveToFront
  split <;> simp

@[simp] theorem size_remove (list : Recency α) (slot : Nat) :
    (list.remove slot).2.nodes.size = list.nodes.size := by
  unfold remove
  split <;> simp

@[simp] theorem size_popBack (list : Recency α) :
    list.popBack.2.nodes.size = list.nodes.size := by
  unfold popBack
  split <;> simp

@[simp] theorem size_set (list : Recency α) (slot : Nat) (item : α) :
    (list.set slot item).nodes.size = list.nodes.size := by
  unfold set
  split <;> simp

theorem Represents.size_pushFront (holds : Represents list entries) (item : α) :
    (list.pushFront item).2.nodes.size =
      max list.nodes.size (list.pushFront item).2.length := by
  have total := holds.compact.total
  rw [holds.length_liveSlots] at total
  have length : (list.pushFront item).2.length = list.length + 1 := by
    rw [(holds.pushFront item).2.length, List.length_cons, holds.length]
  rw [length]
  cases unused : list.free with
  | nil =>
      simp only [Recency.pushFront, unused, size_linkFront, Array.size_push]
      simp only [unused, List.length_nil] at total
      omega
  | cons slot rest =>
      simp only [Recency.pushFront, unused, size_linkFront, Array.size_modify]
      simp only [unused, List.length_cons] at total
      omega

theorem Represents.size_answer (holds : Represents list entries) {call : RecencyCall α}
    (keeps : call ≠ .clear) :
    (Recency.answer call list).2.nodes.size =
      max list.nodes.size (Recency.answer call list).2.liveSlots.length := by
  obtain ⟨_, _, later⟩ := holds.answer call
  have within := later.compact.total
  have unchanged (same : (Recency.answer call list).2.nodes.size = list.nodes.size) :
      (Recency.answer call list).2.nodes.size =
        max list.nodes.size (Recency.answer call list).2.liveSlots.length := by omega
  cases call with
  | clear => exact absurd rfl keeps
  | pushFront item =>
      rw [later.length_liveSlots]
      exact holds.size_pushFront item
  | moveToFront slot => exact unchanged (list.size_moveToFront slot)
  | remove slot => exact unchanged (list.size_remove slot)
  | popBack => exact unchanged list.size_popBack
  | set slot item => exact unchanged (list.size_set slot item)
  | peekBack | get | items | length => exact unchanged rfl

/-! Runs of calls -/

/-- How many nodes were live at the moments since the list was last cleared. -/
def liveCounts (calls : List (RecencyCall α)) : Set Nat :=
  { count | ∃ earlier later, earlier ++ later = calls ∧ .clear ∉ later ∧
    (after earlier).liveSlots.length = count }

theorem mem_liveCounts_concat {calls : List (RecencyCall α)} {call : RecencyCall α} {count : Nat} :
    count ∈ liveCounts (calls ++ [call]) ↔
      (after (calls ++ [call])).liveSlots.length = count ∨
        call ≠ .clear ∧ count ∈ liveCounts calls := by
  constructor
  · rintro ⟨earlier, later, split, unclear, counted⟩
    rcases List.eq_nil_or_concat later with rfl | ⟨between, last, rfl⟩
    · rw [List.append_nil] at split
      exact Or.inl (split ▸ counted)
    · rw [List.concat_eq_append] at split unclear
      rw [← List.append_assoc] at split
      obtain ⟨before, same⟩ := List.append_inj' split rfl
      obtain rfl := List.singleton_inj.mp same
      rw [List.mem_append, not_or, List.mem_singleton] at unclear
      exact Or.inr ⟨Ne.symm unclear.2, earlier, between, before, unclear.1, counted⟩
  · rintro (counted | ⟨keeps, earlier, later, rfl, unclear, counted⟩)
    · exact ⟨calls ++ [call], [], by simp, List.not_mem_nil, counted⟩
    · refine ⟨earlier, later ++ [call], by simp, ?_, counted⟩
      simpa using ⟨unclear, Ne.symm keeps⟩

theorem size_isGreatest (calls : List (RecencyCall α)) :
    IsGreatest (liveCounts calls) (after calls).nodes.size := by
  -- From the end, as the last call decides which moments count.
  induction calls using List.reverseRecOn with
  | nil =>
      refine ⟨⟨[], [], rfl, List.not_mem_nil, rfl⟩, ?_⟩
      rintro count ⟨earlier, later, split, _, rfl⟩
      obtain rfl := (List.append_eq_nil_iff.mp split).1
      exact Nat.le_refl 0
  | append_singleton calls call ih =>
      by_cases clears : call = .clear
      · have alone : liveCounts (calls ++ [call]) = {0} := by
          ext count
          simp [mem_liveCounts_concat, clears, after_concat, Recency.answer, liveSlots, empty,
            eq_comm]
        rw [alone, after_concat, clears]
        exact isGreatest_singleton
      · have more : liveCounts (calls ++ [call]) =
            insert (after (calls ++ [call])).liveSlots.length (liveCounts calls) := by
          ext count
          simp [mem_liveCounts_concat, clears, eq_comm]
        rw [more, after_concat, (after_represents calls).size_answer clears, max_comm]
        exact ih.insert _

end Recency

namespace LruCache

variable {α : Type} {cache : LruCache α} {list : UsageList α}

theorem size_unlink (cache : LruCache α) (key : Key) :
    (cache.unlink key).2.order.nodes.size = cache.order.nodes.size := by
  unfold unlink
  split
  · rfl
  · exact cache.order.size_remove _

theorem size_purge (cache : LruCache α) (now : Instant) :
    (cache.purge now).2.order.nodes.size = cache.order.nodes.size := by
  simp only [purge]
  generalize cache.expiredKeys now = keys
  induction keys generalizing cache with
  | nil => rfl
  | cons key rest ih => exact (ih _).trans (cache.size_unlink key)

theorem size_makeRoom (cache : LruCache α) :
    cache.makeRoom.2.order.nodes.size = cache.order.nodes.size := by
  have popped := cache.order.size_popBack
  unfold makeRoom
  split
  · rfl
  · split <;> simp_all

theorem size_get (cache : LruCache α) (now : Instant) (key : Key) :
    (cache.get now key).2.order.nodes.size = cache.order.nodes.size := by
  unfold get
  split
  · rfl
  · split
    · exact cache.order.size_moveToFront _
    · exact cache.size_unlink key

theorem Represents.size_insert (represents : cache.Represents list) (now : Instant) (key : Key)
    (value : α) (lifetime : Option Duration) :
    (cache.insert now key value lifetime).2.order.nodes.size ≤
      max cache.order.nodes.size (cache.insert now key value lifetime).2.order.length := by
  cases found : cache.index[key]? with
  | some slot =>
      simp [LruCache.insert, found]
  | none =>
      obtain ⟨_, _, kept, holds, _⟩ := represents.makeRoom
      have pushed := holds.size_pushFront (key, Entry.create now value lifetime)
      rw [cache.size_makeRoom] at pushed
      simp only [LruCache.insert, found]
      exact Nat.le_of_eq pushed

theorem Represents.order_length_le (represents : cache.Represents list) :
    cache.order.length ≤ list.capacity := by
  rw [represents.chain.length, represents.length]
  exact represents.bounded

theorem Represents.size_answer (represents : cache.Represents list)
    (fits : cache.order.nodes.size ≤ list.capacity) (now : Instant) (call : CacheCall α) :
    (LruCache.answer now call cache).2.order.nodes.size ≤ list.capacity := by
  have later := (represents.answer now call).2.order_length_le
  rw [capacity_answer] at later
  cases call with
  | add key value =>
      exact (represents.size_insert now key value none).trans (max_le fits later)
  | addWithLifetime key value lifetime =>
      exact (represents.size_insert now key value (some lifetime)).trans (max_le fits later)
  | get key => exact (cache.size_get now key).trans_le fits
  | remove key => exact (cache.size_unlink key).trans_le fits
  | delete key => exact (cache.size_unlink key).trans_le fits
  | purge => exact (cache.size_purge now).trans_le fits
  | clear => exact Nat.zero_le _
  | peek | contains | keys | length | stats => exact fits

theorem Represents.size_answerCalls (represents : cache.Represents list)
    (fits : cache.order.nodes.size ≤ list.capacity) (calls : List (Instant × CacheCall α)) :
    (CachedStore.answerCalls LruCache.answer calls cache).2.order.nodes.size ≤ list.capacity := by
  induction calls generalizing cache list with
  | nil => exact fits
  | cons call rest ih =>
      have first := represents.size_answer fits call.1 call.2
      have others := ih (represents.answer call.1 call.2).2
      rw [capacity_answer] at others
      exact others first

end LruCache

/--
After any calls, the nodes are the live ones and the free ones, and there are as many of them as
were ever live at once since the list was last cleared. So however many keys have passed through a
cache, it has no more nodes than its capacity.
-/
theorem Recency.slots_not_lost {α β : Type} (calls : List (RecencyCall α)) :
    (Recency.after calls).Compact ∧
      IsGreatest (Recency.liveCounts calls) (Recency.after calls).nodes.size ∧
      ∀ capacity, 0 < capacity →
        ∃ fresh : LruCache β, LruCache.create capacity = .ok fresh ∧
          ∀ uses : List (Instant × CacheCall β),
            (answerCalls LruCache.answer uses fresh).2.order.Compact ∧
              (answerCalls LruCache.answer uses fresh).2.order.nodes.size ≤ capacity := by
  refine ⟨(Recency.after_represents calls).compact, Recency.size_isGreatest calls, ?_⟩
  intro capacity positive
  obtain ⟨fresh, created, represents⟩ := LruCache.create_represents (α := β) capacity positive
  refine ⟨fresh, created, fun uses => ?_⟩
  have vacant : fresh.order.nodes.size ≤ capacity := by
    rw [LruCache.create, if_neg (Nat.ne_of_gt positive)] at created
    obtain rfl := Except.ok.inj created
    exact Nat.zero_le _
  exact ⟨(represents.answerCalls uses).2.chain.compact,
    represents.size_answerCalls vacant uses⟩

def churn : List (RecencyCall Nat) :=
  [.pushFront 1, .pushFront 2, .pushFront 3, .clear, .pushFront 4, .pushFront 5, .remove 0,
    .pushFront 6, .popBack, .popBack, .remove 7, .pushFront 7, .remove 0, .pushFront 8,
    .pushFront 9]

/-- Forty keys; some are evicted, some expire and are looked up or purged, and some are deleted. -/
def passing : List (Instant × CacheCall Nat) :=
  (List.range 40).flatMap fun number =>
    let key := toString number
    [(⟨number⟩, .addWithLifetime key number ⟨number % 5⟩),
      match number % 4 with
      | 0 => (⟨number + 1⟩, .get key)
      | 1 => (⟨number⟩, .delete key)
      | 2 => (⟨number + 1⟩, .purge)
      | _ => (⟨number⟩, .keys)]

theorem Recency.slots_not_lost_churn :
    (Recency.after churn).Compact ∧ IsGreatest (Recency.liveCounts churn) 2 ∧ 0 < 3 ∧
      ∃ fresh : LruCache Nat, LruCache.create 3 = .ok fresh ∧
        (answerCalls LruCache.answer passing fresh).2.order.nodes.size ≤ 3 := by
  obtain ⟨compact, greatest, bounded⟩ := Recency.slots_not_lost churn
  obtain ⟨fresh, created, fits⟩ := bounded 3 (by decide)
  have size : (Recency.after churn).nodes.size = 2 := by decide +kernel
  exact ⟨compact, size ▸ greatest, by decide, fresh, created, (fits passing).2⟩

end CachedStore
