import Mathlib.Data.Finset.Card
import Mathlib.Data.List.Nodup
import CachedStore.Proofs.CallSequence
import CachedStore.Proofs.Repository.Tracking

/-!
The plain form of a key index: a finite set of keys, each with the record it is tracked for or with
none, and the number of invalidations so far. Whatever calls come, the index is its plain form.
-/

namespace CachedStore

inductive IndexCall where
  | epoch
  | remember (epoch : UInt64) (key : Key) (owner : Option RecordId)
  | take (owner : Option RecordId)
  | takeAll
  | pruneOver (limit : Nat) (live : Key → Bool)
  | length
  | isEmpty

/-- The keys of an answer are in no order, but counted. -/
inductive IndexAnswer where
  | epoch (epoch : UInt64)
  | accepted (accepted : Bool)
  | keys (keys : Multiset Key)
  | count (count : Nat)
  | empty (empty : Bool)
deriving DecidableEq

def IndexCall.invalidates : IndexCall → Bool
  | .take _ | .takeAll => true
  | _ => false

def KeyIndex.answer (call : IndexCall) (index : KeyIndex) : IndexAnswer × KeyIndex :=
  match call with
  | .epoch => (.epoch index.epoch, index)
  | .remember epoch key owner => (index.remember epoch key owner).map .accepted id
  | .take owner => (index.take owner).map (fun keys : List Key => .keys keys) id
  | .takeAll => index.takeAll.map (fun keys : List Key => .keys keys) id
  | .pruneOver limit live => (index.pruneOver limit live).map .count id
  | .length => (.count index.tracked, index)
  | .isEmpty => (.empty index.isEmpty, index)

structure TrackedPairs where
  pairs : Finset TrackedPair
  invalidations : Nat

namespace TrackedPairs

def empty : TrackedPairs := ⟨∅, 0⟩

def epoch (tracked : TrackedPairs) : UInt64 := UInt64.ofNat tracked.invalidations

def touched (tracked : TrackedPairs) (owner : Option RecordId) : Finset TrackedPair :=
  tracked.pairs.filter fun pair => pair.2 = none ∨ pair.2 = owner

def remember (tracked : TrackedPairs) (epoch : UInt64) (key : Key) (owner : Option RecordId) :
    Bool × TrackedPairs :=
  if epoch = tracked.epoch then (true, { tracked with pairs := insert (key, owner) tracked.pairs })
  else (false, tracked)

/-- Each pair that is taken out gives its key once. -/
def takeOut (tracked : TrackedPairs) (taken : Finset TrackedPair) :
    Multiset Key × TrackedPairs :=
  (taken.val.map Prod.fst, ⟨tracked.pairs \ taken, tracked.invalidations + 1⟩)

def pruneOver (tracked : TrackedPairs) (limit : Nat) (live : Key → Bool) : Nat × TrackedPairs :=
  if tracked.pairs.card ≤ limit then (0, tracked)
  else
    ((tracked.pairs.filter fun pair => live pair.1 = false).card,
      { tracked with pairs := tracked.pairs.filter fun pair => live pair.1 = true })

def answer (call : IndexCall) (tracked : TrackedPairs) : IndexAnswer × TrackedPairs :=
  match call with
  | .epoch => (.epoch tracked.epoch, tracked)
  | .remember epoch key owner => (tracked.remember epoch key owner).map .accepted id
  | .take owner => (tracked.takeOut (tracked.touched owner)).map .keys id
  | .takeAll => (tracked.takeOut tracked.pairs).map .keys id
  | .pruneOver limit live => (tracked.pruneOver limit live).map .count id
  | .length => (.count tracked.pairs.card, tracked)
  | .isEmpty => (.empty (tracked.pairs = ∅), tracked)

end TrackedPairs

namespace KeyIndex

variable {index : KeyIndex} {key : Key} {owner : Option RecordId}

def pairs (index : KeyIndex) : Finset TrackedPair := index.pairList.toFinset

theorem mem_pairs : (key, owner) ∈ index.pairs ↔ index.Tracks key owner := by
  rw [pairs, List.mem_toFinset, mem_pairList]

theorem toList_nodup (keys : Std.TreeSet Key) : keys.toList.Nodup :=
  keys.distinct_toList.imp fun apart same => apart (by simp [same])

theorem tagged_nodup (keys : Std.TreeSet Key) (owner : Option RecordId) :
    (keys.toList.map fun key => (key, owner)).Nodup :=
  (toList_nodup keys).map fun _ _ same => (Prod.mk.inj same).1

theorem pairList_nodup (index : KeyIndex) : index.pairList.Nodup := by
  refine List.nodup_append.mpr ⟨tagged_nodup _ _, List.nodup_flatMap.mpr ⟨?_, ?_⟩, ?_⟩
  · exact fun entry _ => tagged_nodup entry.2 _
  · refine index.byId.distinct_keys_toList.imp fun {first second} apart pair left right => ?_
    obtain ⟨_, _, rfl⟩ := List.mem_map.mp left
    obtain ⟨_, _, same⟩ := List.mem_map.mp right
    have equal : second.1 = first.1 := Option.some.inj (Prod.mk.inj same).2
    exact apart (by simp [equal])
  · intro listed left identified right same
    obtain ⟨_, _, rfl⟩ := List.mem_map.mp left
    obtain ⟨_, _, right⟩ := List.mem_flatMap.mp right
    obtain ⟨_, _, rfl⟩ := List.mem_map.mp right
    cases (Prod.mk.inj same).2

theorem card_pairs (index : KeyIndex) : index.pairs.card = index.tracked := by
  rw [pairs, List.toFinset_card_of_nodup index.pairList_nodup, length_pairList]

theorem isEmpty_iff (index : KeyIndex) : index.isEmpty = true ↔ index.pairs = ∅ := by
  rw [isEmpty, ← card_pairs, beq_iff_eq, Finset.card_eq_zero]

theorem keys_of_pairs {listed : List TrackedPair} {taken : Finset TrackedPair}
    (once : listed.Nodup) (same : ∀ pair, pair ∈ listed ↔ pair ∈ taken) :
    taken.val.map Prod.fst = (listed.map Prod.fst : List Key) := by
  have whole : taken = ⟨(listed : Multiset TrackedPair), once⟩ := by
    ext pair
    exact (same pair).symm
  rw [whole, Multiset.map_coe]

theorem keys_take (index : KeyIndex) (owner : Option RecordId) :
    ((index.take owner).1 : Multiset Key) =
      (index.pairs.filter fun pair => pair.2 = none ∨ pair.2 = owner).val.map Prod.fst := by
  cases owner with
  | none =>
      rw [keys_of_pairs (tagged_nodup index.lists none), keys_tagged]
      · simp [take]
      · rintro ⟨key, id⟩
        rw [Finset.mem_filter, mem_pairs]
        cases id <;> simp [Tracks]
  | some owner =>
      have apart : (index.lists.toList.map (·, (none : Option RecordId))).Disjoint
          ((index.keysOf owner).toList.map (·, some owner)) := by
        intro pair left right
        obtain ⟨_, _, rfl⟩ := List.mem_map.mp left
        obtain ⟨_, _, same⟩ := List.mem_map.mp right
        cases (Prod.mk.inj same).2
      have once := (tagged_nodup index.lists none).append (tagged_nodup _ (some owner)) apart
      rw [keys_of_pairs once, List.map_append, keys_tagged, keys_tagged]
      · rfl
      · rintro ⟨key, id⟩
        rw [Finset.mem_filter, mem_pairs]
        cases id with
        | none => simp [Tracks]
        | some id =>
            by_cases same : id = owner
            · simp [Tracks, same]
            · simp [Tracks, same, Ne.symm same]

theorem keys_takeAll (index : KeyIndex) :
    (index.takeAll.1 : Multiset Key) = index.pairs.val.map Prod.fst := by
  rw [← keys_pairList]
  exact (keys_of_pairs index.pairList_nodup fun pair => List.mem_toFinset.symm).symm

/-! What the calls make of the pairs -/

theorem pairs_remember (index : KeyIndex) (key : Key) (owner : Option RecordId) :
    (index.remember index.epoch key owner).2.pairs = insert (key, owner) index.pairs := by
  ext ⟨other, id⟩
  rw [mem_pairs, Finset.mem_insert, mem_pairs, tracks_remember_iff, Prod.mk.injEq]

theorem pairs_take (index : KeyIndex) (owner : Option RecordId) :
    (index.take owner).2.pairs =
      index.pairs \ index.pairs.filter fun pair => pair.2 = none ∨ pair.2 = owner := by
  ext ⟨key, id⟩
  rw [mem_pairs, Finset.mem_sdiff, Finset.mem_filter, mem_pairs, tracks_take_iff]
  tauto

theorem pairs_pruneOver {index : KeyIndex} {limit : Nat} (exceeded : limit < index.tracked)
    (live : Key → Bool) :
    (index.pruneOver limit live).2.pairs = index.pairs.filter fun pair => live pair.1 = true := by
  ext ⟨key, owner⟩
  rw [mem_pairs, Finset.mem_filter, mem_pairs, tracks_pruneOver_iff exceeded]

/-! No record is left without keys -/

def Filled (index : KeyIndex) : Prop :=
  ∀ (id : RecordId) (keys : Std.TreeSet Key), index.byId[id]? = some keys → keys.isEmpty = false

theorem filled_empty : empty.Filled := by
  intro id keys found
  simp [empty] at found

theorem Filled.remember (filled : index.Filled) (epoch : UInt64) (key : Key)
    (owner : Option RecordId) : (index.remember epoch key owner).2.Filled := by
  intro id keys found
  unfold KeyIndex.remember at found
  split_ifs at found with overlapped
  · exact filled id keys found
  · cases owner with
    | none => exact filled id keys found
    | some owner =>
        rw [Std.TreeMap.getElem?_insert] at found
        split_ifs at found
        · obtain rfl := Option.some.inj found
          exact Std.TreeSet.isEmpty_insert
        · exact filled id keys found

theorem Filled.take (filled : index.Filled) (owner : Option RecordId) :
    (index.take owner).2.Filled := by
  intro id keys found
  cases owner with
  | none => exact filled id keys found
  | some owner =>
      simp only [KeyIndex.take, Std.TreeMap.getElem?_erase] at found
      split_ifs at found
      exact filled id keys found

theorem Filled.pruneOver (filled : index.Filled) (limit : Nat) (live : Key → Bool) :
    (index.pruneOver limit live).2.Filled := by
  unfold KeyIndex.pruneOver
  split_ifs
  · exact filled
  · intro id keys found
    simp only [Std.TreeMap.getElem?_filterMap', Option.bind_eq_some_iff, liveKeys] at found
    obtain ⟨before, _, kept⟩ := found
    split_ifs at kept with vacant
    obtain rfl := Option.some.inj kept
    simpa using vacant

structure Represents (index : KeyIndex) (tracked : TrackedPairs) : Prop where
  pairs : index.pairs = tracked.pairs
  epoch : index.epoch = tracked.epoch
  filled : index.Filled

namespace Represents

variable {tracked : TrackedPairs}

theorem empty : KeyIndex.empty.Represents .empty := ⟨rfl, rfl, filled_empty⟩

theorem remember (represents : index.Represents tracked) (epoch : UInt64) (key : Key)
    (owner : Option RecordId) :
    (index.remember epoch key owner).1 = (tracked.remember epoch key owner).1 ∧
      (index.remember epoch key owner).2.Represents (tracked.remember epoch key owner).2 := by
  have filled := represents.filled.remember epoch key owner
  by_cases current : epoch = index.epoch
  · subst current
    obtain ⟨accepted, kept, _⟩ := index.remember_current key owner
    have pairs := index.pairs_remember key owner
    rw [TrackedPairs.remember, if_pos represents.epoch]
    exact ⟨accepted, pairs.trans (congrArg _ represents.pairs), kept.trans represents.epoch, filled⟩
  · have late : epoch ≠ tracked.epoch := represents.epoch ▸ current
    rw [remember_overlapped (Ne.symm current), TrackedPairs.remember, if_neg late]
    exact ⟨rfl, represents⟩

theorem epoch_succ (represents : index.Represents tracked) :
    index.epoch + 1 = UInt64.ofNat (tracked.invalidations + 1) := by
  rw [UInt64.ofNat_add, represents.epoch]
  rfl

theorem take (represents : index.Represents tracked) (owner : Option RecordId) :
    ((index.take owner).1 : Multiset Key) = (tracked.takeOut (tracked.touched owner)).1 ∧
      (index.take owner).2.Represents (tracked.takeOut (tracked.touched owner)).2 := by
  have keys := index.keys_take owner
  have pairs := index.pairs_take owner
  rw [represents.pairs] at keys pairs
  exact ⟨keys, pairs, represents.epoch_succ, represents.filled.take owner⟩

theorem takeAll (represents : index.Represents tracked) :
    (index.takeAll.1 : Multiset Key) = (tracked.takeOut tracked.pairs).1 ∧
      index.takeAll.2.Represents (tracked.takeOut tracked.pairs).2 := by
  have keys := index.keys_takeAll
  rw [represents.pairs] at keys
  refine ⟨keys, ?_, represents.epoch_succ, filled_empty⟩
  exact (Finset.sdiff_self _).symm

theorem pruneOver (represents : index.Represents tracked) (limit : Nat) (live : Key → Bool) :
    (index.pruneOver limit live).1 = (tracked.pruneOver limit live).1 ∧
      (index.pruneOver limit live).2.Represents (tracked.pruneOver limit live).2 := by
  have size : index.tracked = tracked.pairs.card := represents.pairs ▸ index.card_pairs.symm
  by_cases few : index.tracked ≤ limit
  · rw [KeyIndex.pruneOver, TrackedPairs.pruneOver, if_pos few, if_pos (size ▸ few)]
    exact ⟨rfl, represents⟩
  · have exceeded := Nat.lt_of_not_le few
    have pairs := pairs_pruneOver exceeded live
    have filled := represents.filled.pruneOver limit live
    have epoch := index.epoch_pruneOver limit live
    have count : (index.pruneOver limit live).1 =
        index.tracked - (index.pruneOver limit live).2.tracked := by
      rw [KeyIndex.pruneOver, if_neg few]
    rw [← card_pairs, ← card_pairs, pairs, represents.pairs] at count
    rw [represents.pairs] at pairs
    have parts :=
      tracked.pairs.card_filter_add_card_filter_not fun pair => live pair.1 = true
    simp only [Bool.not_eq_true] at parts
    rw [TrackedPairs.pruneOver, if_neg (size ▸ few)]
    refine ⟨?_, pairs, epoch.trans represents.epoch, filled⟩
    rw [count]
    omega

theorem isEmpty_eq (represents : index.Represents tracked) :
    index.isEmpty = decide (tracked.pairs = ∅) := by
  rw [← represents.pairs, Bool.eq_iff_iff, isEmpty_iff, decide_eq_true_iff]

theorem answer (represents : index.Represents tracked) (call : IndexCall) :
    (KeyIndex.answer call index).1 = (TrackedPairs.answer call tracked).1 ∧
      (KeyIndex.answer call index).2.Represents (TrackedPairs.answer call tracked).2 := by
  cases call with
  | epoch => exact ⟨congrArg IndexAnswer.epoch represents.epoch, represents⟩
  | remember epoch key owner =>
      have remembered := represents.remember epoch key owner
      exact ⟨congrArg IndexAnswer.accepted remembered.1, remembered.2⟩
  | take owner =>
      have taken := represents.take owner
      exact ⟨congrArg IndexAnswer.keys taken.1, taken.2⟩
  | takeAll =>
      have taken := represents.takeAll
      exact ⟨congrArg IndexAnswer.keys taken.1, taken.2⟩
  | pruneOver limit live =>
      have pruned := represents.pruneOver limit live
      exact ⟨congrArg IndexAnswer.count pruned.1, pruned.2⟩
  | length =>
      have size : index.tracked = tracked.pairs.card := represents.pairs ▸ index.card_pairs.symm
      exact ⟨congrArg IndexAnswer.count size, represents⟩
  | isEmpty => exact ⟨congrArg IndexAnswer.empty represents.isEmpty_eq, represents⟩

end Represents

end KeyIndex

theorem TrackedPairs.invalidations_answer (call : IndexCall) (tracked : TrackedPairs) :
    (TrackedPairs.answer call tracked).2.invalidations =
      tracked.invalidations + call.invalidates.toNat := by
  cases call with
  | remember epoch key owner =>
      simp only [answer, remember]
      split_ifs <;> rfl
  | pruneOver limit live =>
      simp only [answer, pruneOver]
      split_ifs <;> rfl
  | _ => rfl

theorem TrackedPairs.invalidations_answerEach (calls : List IndexCall) (tracked : TrackedPairs) :
    (answerEach TrackedPairs.answer calls tracked).2.invalidations =
      tracked.invalidations + calls.countP (·.invalidates) := by
  induction calls generalizing tracked with
  | nil => rfl
  | cons call rest ih =>
      have others := ih (TrackedPairs.answer call tracked).2
      rw [invalidations_answer] at others
      rw [List.countP_cons]
      refine others.trans ?_
      cases call.invalidates with
      | false => simp
      | true =>
          simp
          omega

/--
Whatever calls come, the index answers as the set of its pairs does and holds these pairs; its
epoch is the number of invalidations, as far as a word counts, and no record is left without keys.
-/
theorem KeyIndex.answerEach_as_pairs (calls : List IndexCall) :
    let outcome := answerEach KeyIndex.answer calls .empty
    let plain := answerEach TrackedPairs.answer calls .empty
    outcome.1 = plain.1 ∧ outcome.2.pairs = plain.2.pairs ∧
      outcome.2.epoch.toNat = calls.countP (·.invalidates) % 2 ^ 64 ∧ outcome.2.Filled := by
  obtain ⟨answers, represents⟩ :=
    answerEach_simulates (fun call _ _ represents => represents.answer call) calls
      KeyIndex.Represents.empty
  have invalidations := TrackedPairs.invalidations_answerEach calls .empty
  refine ⟨answers, represents.pairs, ?_, represents.filled⟩
  rw [represents.epoch, TrackedPairs.epoch, UInt64.toNat_ofNat', invalidations]
  simp [TrackedPairs.empty]

end CachedStore
