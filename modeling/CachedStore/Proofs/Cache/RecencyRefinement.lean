import CachedStore.Proofs.Cache.RecencyChain
import CachedStore.Proofs.Cache.SlotList

/-!
A recency list is its plain form: whatever slots it is given, every call answers as it does on the
list of slots and items, and makes the same change to it.
-/

namespace CachedStore

namespace Recency

open SlotList

variable {α : Type} {list : Recency α} {entries : List (Nat × α)}

theorem Represents.split (holds : Represents list entries) {slot : Nat} {item : α}
    (found : list.get? slot = some item) :
    ∃ before after, entries = before ++ (slot, item) :: after ∧
      slot ∉ before.map (·.1) ∧ slot ∉ after.map (·.1) := by
  obtain ⟨before, after, rfl⟩ := List.append_of_mem (holds.get?_eq_some.mp found)
  exact ⟨before, after, rfl, holds.once⟩

theorem Represents.absent (holds : Represents list entries) {slot : Nat}
    (missing : list.get? slot = none) :
    slot ∉ entries.map (·.1) := by
  intro member
  obtain ⟨⟨other, item⟩, belongs, rfl⟩ := List.mem_map.mp member
  simp [holds.get?_eq_some.mpr belongs] at missing

theorem Represents.lookup_eq (holds : Represents list entries) (slot : Nat) :
    entries.lookup slot = list.get? slot := by
  cases found : list.get? slot with
  | none => exact lookup_absent (holds.absent found)
  | some item =>
      obtain ⟨before, after, rfl, outside⟩ := holds.split found
      exact lookup_middle outside

/-! Calls with any slot, live or not -/

theorem Represents.touched (holds : Represents list entries) (slot : Nat) :
    Represents (list.moveToFront slot) (touch entries slot) := by
  cases found : list.get? slot with
  | none =>
      have unmoved : list.moveToFront slot = list := by
        simp [Recency.moveToFront, isLive, found]
      rw [unmoved, touch_absent (holds.absent found)]
      exact holds
  | some item =>
      obtain ⟨before, after, rfl, outside⟩ := holds.split found
      rw [touch_middle outside]
      exact holds.moveToFront

theorem Represents.removed (holds : Represents list entries) (slot : Nat) :
    (list.remove slot).1 = list.get? slot ∧
      Represents (list.remove slot).2 (without entries slot) := by
  cases found : list.get? slot with
  | none =>
      simp only [Recency.remove, found, true_and]
      rw [without_absent (holds.absent found)]
      exact holds
  | some item =>
      obtain ⟨before, after, rfl, outside⟩ := holds.split found
      rw [without_middle outside]
      exact holds.remove

theorem Represents.written (holds : Represents list entries) (slot : Nat) (item : α) :
    Represents (list.set slot item) (write entries slot item) := by
  cases found : list.get? slot with
  | none =>
      have unwritten : list.set slot item = list := by simp [Recency.set, isLive, found]
      rw [unwritten, write_absent (holds.absent found)]
      exact holds
  | some old =>
      obtain ⟨before, after, rfl, outside⟩ := holds.split found
      rw [write_middle outside]
      exact holds.set item

theorem Represents.popped (holds : Represents list entries) :
    list.popBack.1 = entries.getLast?.map (·.2) ∧ Represents list.popBack.2 entries.dropLast := by
  rcases List.eq_nil_or_concat entries with rfl | ⟨before, ⟨slot, item⟩, rfl⟩
  · have back : list.back = none := holds.back
    simp only [Recency.popBack, back]
    exact ⟨rfl, holds⟩
  · rw [List.concat_eq_append] at holds ⊢
    simpa using holds.popBack

theorem Represents.peekBack_eq (holds : Represents list entries) :
    list.peekBack = entries.getLast?.map (·.2) := by
  rcases List.eq_nil_or_concat entries with rfl | ⟨before, ⟨slot, item⟩, rfl⟩
  · have back : list.back = none := holds.back
    simp [Recency.peekBack, back]
  · rw [List.concat_eq_append] at holds ⊢
    have back : list.back = some slot := by simp [holds.back, lastSlot_append, lastSlot]
    simp [Recency.peekBack, back, holds.get?_eq]

theorem Represents.answer (holds : Represents list entries) (call : RecencyCall α) :
    ∃ after, Answers call entries (Recency.answer call list).1 after ∧
      Represents (Recency.answer call list).2 after := by
  cases call with
  | pushFront item =>
      obtain ⟨unused, pushed⟩ := holds.pushFront item
      exact ⟨_, ⟨_, unused, rfl, rfl⟩, pushed⟩
  | moveToFront slot => exact ⟨_, ⟨rfl, rfl⟩, holds.touched slot⟩
  | remove slot =>
      obtain ⟨item, removed⟩ := holds.removed slot
      rw [← holds.lookup_eq] at item
      exact ⟨_, ⟨congrArg RecencyAnswer.item item, rfl⟩, removed⟩
  | popBack =>
      obtain ⟨item, popped⟩ := holds.popped
      exact ⟨_, ⟨congrArg RecencyAnswer.item item, rfl⟩, popped⟩
  | peekBack => exact ⟨_, ⟨congrArg RecencyAnswer.item holds.peekBack_eq, rfl⟩, holds⟩
  | get slot => exact ⟨_, ⟨congrArg RecencyAnswer.item (holds.lookup_eq slot).symm, rfl⟩, holds⟩
  | set slot item =>
      exact ⟨_, ⟨congrArg RecencyAnswer.item (holds.lookup_eq slot).symm, rfl⟩,
        holds.written slot item⟩
  | items =>
      have items : list.toList = entries.map (·.2) := by rw [toList, holds.entries_eq]
      exact ⟨_, ⟨congrArg RecencyAnswer.items items, rfl⟩, holds⟩
  | length => exact ⟨_, ⟨congrArg RecencyAnswer.count holds.length, rfl⟩, holds⟩
  | clear => exact ⟨_, ⟨rfl, rfl⟩, empty_represents⟩

theorem Represents.answerEach (holds : Represents list entries) (calls : List (RecencyCall α)) :
    AnswersEach calls entries (answerEach Recency.answer calls list).1
        (CachedStore.answerEach Recency.answer calls list).2.entries ∧
      Represents (CachedStore.answerEach Recency.answer calls list).2
        (CachedStore.answerEach Recency.answer calls list).2.entries := by
  induction calls generalizing list entries with
  | nil =>
      rw [CachedStore.answerEach, holds.entries_eq]
      exact ⟨.nil entries, holds⟩
  | cons call rest ih =>
      obtain ⟨between, first, later⟩ := holds.answer call
      obtain ⟨others, last⟩ := ih later
      exact ⟨.cons first others, last⟩

def after (calls : List (RecencyCall α)) : Recency α := (answerEach Recency.answer calls .empty).2

theorem after_concat (calls : List (RecencyCall α)) (call : RecencyCall α) :
    after (calls ++ [call]) = (Recency.answer call (after calls)).2 :=
  answerEach_append _ _ _ _

theorem after_represents (calls : List (RecencyCall α)) :
    Represents (after calls) (after calls).entries :=
  (empty_represents.answerEach calls).2

end Recency

end CachedStore
