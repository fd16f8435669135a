import CachedStore.Cache.Recency
import CachedStore.Proofs.CallSequence

/-!
The plain form of a recency list: slots and items, the most recently used first, and what each call
answers and makes of them.
-/

namespace CachedStore

inductive RecencyCall (α : Type) where
  | pushFront (item : α)
  | moveToFront (slot : Nat)
  | remove (slot : Nat)
  | popBack
  | peekBack
  | get (slot : Nat)
  | set (slot : Nat) (item : α)
  | items
  | length
  | clear
deriving DecidableEq

inductive RecencyAnswer (α : Type) where
  | done
  | slot (slot : Nat)
  | item (item : Option α)
  | items (items : List α)
  | count (count : Nat)
deriving DecidableEq

/-- Writing to a slot answers with the item that was there before. -/
def Recency.answer {α : Type} (call : RecencyCall α) (list : Recency α) :
    RecencyAnswer α × Recency α :=
  match call with
  | .pushFront item => (list.pushFront item).map .slot id
  | .moveToFront slot => (.done, list.moveToFront slot)
  | .remove slot => (list.remove slot).map .item id
  | .popBack => list.popBack.map .item id
  | .peekBack => (.item list.peekBack, list)
  | .get slot => (.item (list.get? slot), list)
  | .set slot item => (.item (list.get? slot), list.set slot item)
  | .items => (.items list.toList, list)
  | .length => (.count list.length, list)
  | .clear => (.done, .empty)

namespace SlotList

variable {α : Type}

def without (entries : List (Nat × α)) (slot : Nat) : List (Nat × α) :=
  entries.filter fun entry => entry.1 != slot

def touch (entries : List (Nat × α)) (slot : Nat) : List (Nat × α) :=
  match entries.lookup slot with
  | some item => (slot, item) :: without entries slot
  | none => entries

def write (entries : List (Nat × α)) (slot : Nat) (item : α) : List (Nat × α) :=
  entries.map fun entry => if entry.1 = slot then (slot, item) else entry

/-- What a call on a list answers, and the list after it. A new item may get any unused slot. -/
def Answers (call : RecencyCall α) (before : List (Nat × α)) (answer : RecencyAnswer α)
    (after : List (Nat × α)) : Prop :=
  match call with
  | .pushFront item =>
    ∃ slot, slot ∉ before.map (·.1) ∧ answer = .slot slot ∧ after = (slot, item) :: before
  | .moveToFront slot => answer = .done ∧ after = touch before slot
  | .remove slot => answer = .item (before.lookup slot) ∧ after = without before slot
  | .popBack => answer = .item (before.getLast?.map (·.2)) ∧ after = before.dropLast
  | .peekBack => answer = .item (before.getLast?.map (·.2)) ∧ after = before
  | .get slot => answer = .item (before.lookup slot) ∧ after = before
  | .set slot item => answer = .item (before.lookup slot) ∧ after = write before slot item
  | .items => answer = .items (before.map (·.2)) ∧ after = before
  | .length => answer = .count before.length ∧ after = before
  | .clear => answer = .done ∧ after = []

inductive AnswersEach : List (RecencyCall α) → List (Nat × α) → List (RecencyAnswer α) →
    List (Nat × α) → Prop
  | nil (entries : List (Nat × α)) : AnswersEach [] entries [] entries
  | cons {call : RecencyCall α} {rest : List (RecencyCall α)} {answer : RecencyAnswer α}
      {answers : List (RecencyAnswer α)} {before between after : List (Nat × α)}
      (first : Answers call before answer between)
      (others : AnswersEach rest between answers after) :
      AnswersEach (call :: rest) before (answer :: answers) after

/-! A slot in the middle, and a slot that is not there -/

section

variable {before after entries : List (Nat × α)} {slot : Nat}

theorem without_absent (absent : slot ∉ entries.map (·.1)) : without entries slot = entries := by
  refine List.filter_eq_self.mpr fun entry member => ?_
  simpa using fun same : entry.1 = slot => absent (same ▸ List.mem_map_of_mem member)

theorem write_absent (absent : slot ∉ entries.map (·.1)) (item : α) :
    write entries slot item = entries := by
  refine List.map_congr_left (fun entry member => ?_) |>.trans (List.map_id entries)
  exact if_neg fun same : entry.1 = slot => absent (same ▸ List.mem_map_of_mem member)

theorem lookup_absent (absent : slot ∉ entries.map (·.1)) : entries.lookup slot = none := by
  refine List.lookup_eq_none_iff.mpr fun entry member => ?_
  simpa using fun same : slot = entry.1 => absent (same ▸ List.mem_map_of_mem member)

theorem touch_absent (absent : slot ∉ entries.map (·.1)) : touch entries slot = entries := by
  simp only [touch, lookup_absent absent]

variable {item : α} (outside : slot ∉ before.map (·.1) ∧ slot ∉ after.map (·.1))
include outside

theorem without_middle : without (before ++ (slot, item) :: after) slot = before ++ after := by
  have dropped : without ((slot, item) :: after) slot = without after slot := by simp [without]
  rw [without, List.filter_append, ← without, ← without, dropped, without_absent outside.1,
    without_absent outside.2]

theorem write_middle (value : α) :
    write (before ++ (slot, item) :: after) slot value = before ++ (slot, value) :: after := by
  have written : write ((slot, item) :: after) slot value =
      (slot, value) :: write after slot value := by simp [write]
  rw [write, List.map_append, ← write, ← write, written, write_absent outside.1 value,
    write_absent outside.2 value]

theorem lookup_middle : (before ++ (slot, item) :: after).lookup slot = some item := by
  simp [List.lookup_append, lookup_absent outside.1]

theorem touch_middle :
    touch (before ++ (slot, item) :: after) slot = (slot, item) :: (before ++ after) := by
  simp only [touch, lookup_middle outside, without_middle outside]

end

end SlotList

end CachedStore
