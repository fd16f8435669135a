import Mathlib.Data.List.Sigma
import CachedStore.Record.Query

/-!
Sorting rows by a column. If the comparison is an order among the rows that are sorted, they come
out in that order, and rows that compare equal keep their places.
-/

namespace CachedStore

/-! Stable sorting -/

section Sorting

variable {α : Type} {le : α → α → Bool} {before : α → α → Prop} {items : List α}

/-- Any two of the items are in order one way or the other, and the order passes on. -/
structure OrdersAmong (le : α → α → Bool) (items : List α) : Prop where
  total : ∀ a ∈ items, ∀ b ∈ items, (le a b || le b a) = true
  trans : ∀ a ∈ items, ∀ b ∈ items, ∀ c ∈ items, le a b = true → le b c = true → le a c = true

theorem pairwise_mergeSort_stable (trans : ∀ a b c, le a b = true → le b c = true → le a c = true)
    (total : ∀ a b, (le a b || le b a) = true) (placed : items.Pairwise before) :
    (items.mergeSort le).Pairwise fun a b => le a b = true ∧ (le b a = true → before a b) := by
  -- The items are sorted with their places, by which those that are equal to the order differ.
  have sorted := List.pairwise_mergeSort (List.zipIdxLE_trans trans) (List.zipIdxLE_total total)
    items.zipIdx
  have permuted := List.mergeSort_perm items.zipIdx (List.zipIdxLE le)
  have distinct : (items.zipIdx.mergeSort (List.zipIdxLE le)).Pairwise fun a b => a.2 ≠ b.2 :=
    (permuted.pairwise_iff fun differ => Ne.symm differ).mpr
      (List.pairwise_map.mp (List.nodup_zipIdx_map_snd items))
  rw [← List.mergeSort_zipIdx, List.pairwise_map]
  refine (sorted.and distinct).imp_of_mem fun {a b} first second order => ?_
  obtain ⟨inside, shown⟩ := List.mem_zipIdx' (permuted.mem_iff.mp first)
  obtain ⟨within, given⟩ := List.mem_zipIdx' (permuted.mem_iff.mp second)
  obtain ⟨ordered, differ⟩ := order
  simp only [List.zipIdxLE] at ordered
  split at ordered
  · refine ⟨by assumption, fun back => ?_⟩
    rw [if_pos back, decide_eq_true_eq] at ordered
    rw [shown, given]
    exact List.pairwise_iff_getElem.mp placed _ _ inside within (Nat.lt_of_le_of_ne ordered differ)
  · cases ordered

theorem OrdersAmong.pairwise_mergeSort (orders : OrdersAmong le items)
    (placed : items.Pairwise before) :
    (items.mergeSort le).Pairwise fun a b => le a b = true ∧ (le b a = true → before a b) := by
  have attached :
      (items.attach.mergeSort fun a b => le a.1 b.1).map (·.1) = items.mergeSort le := by
    rw [List.map_mergeSort (s := le) fun _ _ _ _ => rfl, List.attach_map_subtype_val]
  have among : items.attach.Pairwise fun a b => before a.1 b.1 := by
    rw [← List.pairwise_map, List.attach_map_subtype_val]
    exact placed
  rw [← attached, List.pairwise_map]
  refine pairwise_mergeSort_stable ?_ ?_ among
  · exact fun a b c => orders.trans a.1 a.2 b.1 b.2 c.1 c.2
  · exact fun a b => orders.total a.1 a.2 b.1 b.2

theorem OrdersAmong.of_map {β : Type} {write : β → α} {items : List β}
    (orders : OrdersAmong le (items.map write)) :
    OrdersAmong (fun a b => le (write a) (write b)) items where
  total _ first _ second :=
    orders.total _ (List.mem_map_of_mem first) _ (List.mem_map_of_mem second)
  trans _ first _ second _ third :=
    orders.trans _ (List.mem_map_of_mem first) _ (List.mem_map_of_mem second) _
      (List.mem_map_of_mem third)

end Sorting

/-! Values that compare as an order -/

theorem compareValues_swap (a b : Json) : compareValues a b = (compareValues b a).swap := by
  cases a <;> cases b <;>
    simp only [compareValues, Ordering.swap_lt, Ordering.swap_eq, Ordering.swap_gt] <;>
    rw [Std.OrientedOrd.eq_swap]

namespace Json

def IsTextOrNull (value : Json) : Prop := value = .null ∨ ∃ text, value = .string text

def IsNumberOrNull (value : Json) : Prop := value = .null ∨ ∃ number, value = .number number

def position? : Json → Option Int
  | number value => some value.toDouble.position
  | _ => none

end Json

open Json (IsTextOrNull IsNumberOrNull position?)

theorem compareValues_texts {a b : Json} (first : a.IsTextOrNull) (second : b.IsTextOrNull) :
    compareValues a b = compare a.text? b.text? := by
  rcases first with rfl | ⟨text, rfl⟩ <;> rcases second with rfl | ⟨other, rfl⟩ <;> rfl

theorem compareValues_numbers {a b : Json} (first : a.IsNumberOrNull)
    (second : b.IsNumberOrNull) : compareValues a b = compare a.position? b.position? := by
  rcases first with rfl | ⟨number, rfl⟩ <;> rcases second with rfl | ⟨other, rfl⟩ <;> rfl

/-- Values that are alike enough for their comparison to pass on. -/
def Comparable (shows : Json → Prop) : Prop :=
  (∀ value, shows value → value.IsTextOrNull) ∨ ∀ value, shows value → value.IsNumberOrNull

theorem Comparable.mono {shows others : Json → Prop} (alike : Comparable others)
    (weaker : ∀ value, shows value → others value) : Comparable shows :=
  alike.imp (fun texts value shown => texts value (weaker value shown))
    fun numbers value shown => numbers value (weaker value shown)

theorem Comparable.isLE_trans {shows : Json → Prop} (alike : Comparable shows) {a b c : Json}
    (first : shows a) (second : shows b) (third : shows c)
    (order : (compareValues a b).isLE = true) (onward : (compareValues b c).isLE = true) :
    (compareValues a c).isLE = true := by
  rcases alike with texts | numbers
  · have first := texts a first
    have second := texts b second
    have third := texts c third
    rw [compareValues_texts first second] at order
    rw [compareValues_texts second third] at onward
    rw [compareValues_texts first third]
    exact Std.TransCmp.isLE_trans order onward
  · have first := numbers a first
    have second := numbers b second
    have third := numbers c third
    rw [compareValues_numbers first second] at order
    rw [compareValues_numbers second third] at onward
    rw [compareValues_numbers first third]
    exact Std.TransCmp.isLE_trans order onward

def directed (descending : Bool) (ordering : Ordering) : Ordering :=
  if descending then ordering.swap else ordering

namespace SortOrder

variable {order : SortOrder} {rows : List Row}

theorem compareRows_eq (order : SortOrder) (a b : Row) :
    order.compareRows a b =
      directed order.descending (compareValues (a.get order.column) (b.get order.column)) := rfl

theorem compareRows_swap (order : SortOrder) (a b : Row) :
    order.compareRows a b = (order.compareRows b a).swap := by
  simp only [compareRows, compareValues_swap (a.get order.column)]
  split <;> simp

theorem bne_gt_eq_isLE (ordering : Ordering) : (ordering != .gt) = ordering.isLE := by
  cases ordering <;> rfl

theorem ordersAmong (alike : Comparable fun value => ∃ row ∈ rows, row.get order.column = value) :
    OrdersAmong (fun a b => order.compareRows a b != .gt) rows where
  total a _ b _ := by
    rw [compareRows_swap order a b]
    cases order.compareRows b a <;> rfl
  trans a first b second c third := by
    have shown : ∀ {row : Row}, row ∈ rows →
        ∃ other ∈ rows, other.get order.column = row.get order.column :=
      fun {row} member => ⟨row, member, rfl⟩
    simp only [bne_gt_eq_isLE, compareRows]
    split
    · rw [← compareValues_swap, ← compareValues_swap, ← compareValues_swap]
      exact fun ab bc => alike.isLE_trans (shown third) (shown second) (shown first) bc ab
    · exact alike.isLE_trans (shown first) (shown second) (shown third)

end SortOrder

end CachedStore
