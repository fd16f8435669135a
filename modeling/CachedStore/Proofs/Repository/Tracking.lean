import Mathlib.Tactic.SplitIfs
import CachedStore.Repository.KeyIndex

/-!
What the index tracks: which keys for which record, and which keys as lists.
-/

namespace CachedStore

/-- A key, and the record that it is tracked for; as a list, it is tracked for none. -/
abbrev TrackedPair := Key × Option RecordId

namespace KeyIndex

def Tracks (index : KeyIndex) (key : Key) : Option RecordId → Prop
  | none => key ∈ index.lists
  | some id => key ∈ index.keysOf id

variable {index : KeyIndex} {key other : Key} {id owner : Option RecordId}

theorem mem_keysOf_insert (index : KeyIndex) (id other : RecordId) (keys : Std.TreeSet Key) :
    ({ index with byId := index.byId.insert id keys } : KeyIndex).keysOf other =
      if id = other then keys else index.keysOf other := by
  simp only [keysOf, Std.TreeMap.getElem?_insert, Std.LawfulEqCmp.compare_eq_iff_eq]
  split_ifs <;> rfl

theorem tracks_remember_iff :
    (index.remember index.epoch key owner).2.Tracks other id ↔
      (other = key ∧ id = owner) ∨ index.Tracks other id := by
  have inserted : ∀ keys : Std.TreeSet Key,
      other ∈ keys.insert key ↔ other = key ∨ other ∈ keys := by
    intro keys
    rw [Std.TreeSet.mem_insert, Std.LawfulEqCmp.compare_eq_iff_eq, eq_comm]
  cases owner with
  | none => cases id <;> simp [remember, Tracks, inserted, keysOf]
  | some owner =>
      cases id with
      | none => simp [remember, Tracks]
      | some id =>
          simp only [remember, ne_eq, not_true_eq_false, ↓reduceIte, Tracks, mem_keysOf_insert,
            Option.some.injEq]
          split_ifs with same
          · subst same
            simp [inserted]
          · simp [Ne.symm same]

theorem remember_current (index : KeyIndex) (key : Key) (id : Option RecordId) :
    (index.remember index.epoch key id).1 = true ∧
      (index.remember index.epoch key id).2.epoch = index.epoch ∧
      (index.remember index.epoch key id).2.Tracks key id ∧
      ∀ other owner, index.Tracks other owner →
        (index.remember index.epoch key id).2.Tracks other owner := by
  refine ⟨?_, ?_, tracks_remember_iff.mpr (Or.inl ⟨rfl, rfl⟩),
    fun _ _ tracked => tracks_remember_iff.mpr (Or.inr tracked)⟩
  all_goals cases id <;> simp [remember]

theorem remember_overlapped {epoch : UInt64} (overlapped : index.epoch ≠ epoch) (key : Key)
    (id : Option RecordId) : index.remember epoch key id = (false, index) := by
  simp [remember, overlapped]

theorem take_covers (tracked : index.Tracks key owner) (affected : owner = none ∨ owner = id) :
    key ∈ (index.take id).1 := by
  simp only [take, List.mem_append, Std.TreeSet.mem_toList]
  cases owner with
  | none => exact Or.inl tracked
  | some owner =>
      obtain rfl := affected.resolve_left (by simp)
      exact Or.inr (Std.TreeSet.mem_toList.mpr tracked)

theorem tracks_take_iff :
    (index.take owner).2.Tracks key id ↔ index.Tracks key id ∧ id ≠ none ∧ id ≠ owner := by
  cases id with
  | none => simp [take, Tracks]
  | some id =>
      cases owner with
      | none => simp [take, Tracks, keysOf]
      | some owner =>
          by_cases same : owner = id
          · subst same
            simp [take, Tracks, keysOf]
          · simp [take, Tracks, keysOf, Std.TreeMap.getElem?_erase,
              Std.LawfulEqCmp.compare_eq_iff_eq, same, Ne.symm same]

theorem tracks_take {owner : RecordId} (tracked : index.Tracks key (some owner))
    (apart : id ≠ some owner) : (index.take id).2.Tracks key (some owner) :=
  tracks_take_iff.mpr ⟨tracked, nofun, apart.symm⟩

theorem mem_filter_iff {keys : Std.TreeSet Key} {live : Key → Bool} :
    key ∈ keys.filter live ↔ key ∈ keys ∧ live key = true := by
  rw [Std.TreeSet.mem_filter]
  simp

theorem mem_liveKeys_iff {keys : Std.TreeSet Key} {live : Key → Bool} :
    key ∈ (liveKeys live keys).getD .empty ↔ key ∈ keys ∧ live key = true := by
  rw [← mem_filter_iff, liveKeys]
  split_ifs with vacant
  · exact iff_of_false (by simp) (Std.TreeSet.isEmpty_iff_forall_not_mem.mp vacant key)
  · rfl

theorem tracks_pruneOver_iff {limit : Nat} (exceeded : limit < index.tracked)
    {live : Key → Bool} :
    (index.pruneOver limit live).2.Tracks key owner ↔
      index.Tracks key owner ∧ live key = true := by
  rw [pruneOver, if_neg (Nat.not_le_of_lt exceeded)]
  cases owner with
  | none => exact mem_filter_iff
  | some id =>
      simp only [Tracks, keysOf, Std.TreeMap.getElem?_filterMap']
      cases found : index.byId[id]? with
      | none => simp
      | some keys => exact mem_liveKeys_iff

theorem tracks_pruneOver (tracked : index.Tracks key owner) (limit : Nat) {live : Key → Bool}
    (alive : live key = true) : (index.pruneOver limit live).2.Tracks key owner := by
  by_cases few : index.tracked ≤ limit
  · rw [pruneOver, if_pos few]
    exact tracked
  · exact (tracks_pruneOver_iff (Nat.lt_of_not_le few)).mpr ⟨tracked, alive⟩

theorem epoch_pruneOver (index : KeyIndex) (limit : Nat) (live : Key → Bool) :
    (index.pruneOver limit live).2.epoch = index.epoch := by
  unfold pruneOver
  split_ifs <;> rfl

theorem epoch_take (index : KeyIndex) (id : Option RecordId) :
    (index.take id).2.epoch = index.epoch + 1 := rfl

theorem epoch_moves (epoch : UInt64) : epoch + 1 ≠ epoch := by
  intro same
  have counted := congrArg UInt64.toNat same
  rw [UInt64.toNat_add, UInt64.toNat_one] at counted
  have bound := epoch.toNat_lt
  omega

/-! All that is tracked, in a list -/

def pairList (index : KeyIndex) : List TrackedPair :=
  index.lists.toList.map (·, none) ++
    index.byId.toList.flatMap fun (id, keys) => keys.toList.map (·, some id)

theorem mem_pairList : (key, owner) ∈ index.pairList ↔ index.Tracks key owner := by
  simp only [pairList, List.mem_append, List.mem_map, List.mem_flatMap, Std.TreeSet.mem_toList,
    Prod.mk.injEq]
  cases owner with
  | none => simp [Tracks]
  | some id =>
      simp only [Tracks, keysOf]
      constructor
      · rintro (⟨_, _, _, impossible⟩ | ⟨⟨other, keys⟩, stored, found, member, rfl, same⟩)
        · cases impossible
        · obtain rfl := Option.some.inj same
          have present := Std.TreeMap.mem_toList_iff_getElem?_eq_some.mp stored
          simpa [present] using member
      · intro tracked
        cases found : index.byId[id]? with
        | none => simp [found] at tracked
        | some keys =>
            have member : key ∈ keys := by simpa [found] using tracked
            exact Or.inr ⟨(id, keys), Std.TreeMap.mem_toList_iff_getElem?_eq_some.mpr found, key,
              member, rfl, rfl⟩

theorem length_pairList (index : KeyIndex) : index.pairList.length = index.tracked := by
  simp only [pairList, tracked, List.length_append, List.length_map, List.length_flatMap,
    Std.TreeSet.length_toList]

theorem keys_tagged (keys : Std.TreeSet Key) (owner : Option RecordId) :
    (keys.toList.map fun key => (key, owner)).map Prod.fst = keys.toList := by
  simp [List.map_map, Function.comp_def]

theorem keys_pairList (index : KeyIndex) : index.pairList.map Prod.fst = index.takeAll.1 := by
  simp only [pairList, takeAll, List.map_append, List.map_flatMap, keys_tagged]

end KeyIndex

end CachedStore
