import CachedStore.Proofs.Number.ShortestText
import CachedStore.Proofs.Record.Ordering
import CachedStore.Proofs.Text.Comparison

/-!
Values of all types are in one order. Texts of values of different types begin with different
characters, and those decide: null stands first, then strings, numbers, arrays, booleans and
objects. Within a type numbers are in their order, and all others in that of their texts.
-/

namespace CachedStore

namespace Json

/-- The least and the greatest code of a character that the text of such a value begins with. -/
def firstCodes : Json → Nat × Nat
  | null => (0, 0)
  | string _ => (34, 34)
  | number _ => (45, 57)
  | array _ => (91, 91)
  | bool _ => (102, 116)
  | object _ => (123, 123)

/-- The type of a value, then its place among the numbers, then its text. -/
def sortKey : Json → Nat × ℤ × String
  | null => (0, 0, "")
  | string text => (34, 0, text)
  | number value => (45, value.toDouble.position, "")
  | array items => (91, 0, (array items).text)
  | bool value => (102, if value then 1 else 0, "")
  | object members => (123, 0, (object members).text)

theorem codes_of_beginsNumber {c : Char} (begins : beginsNumber c = true) :
    45 ≤ c.toNat ∧ c.toNat ≤ 57 := by
  simp only [beginsNumber, Char.isDigit, Bool.or_eq_true, beq_iff_eq, Bool.and_eq_true,
    decide_eq_true_eq] at begins
  rcases begins with rfl | ⟨low, high⟩
  · decide
  · constructor
    · exact le_trans (by decide) (UInt32.le_iff_toNat_le.mp low)
    · exact UInt32.le_iff_toNat_le.mp high

theorem exists_mark_append (mark : Char) (inside closing : String) :
    ∃ rest, String.ofList [mark] ++ inside ++ closing = String.ofList (mark :: rest) := by
  refine ⟨inside.toList ++ closing.toList, ?_⟩
  rw [← String.toList_inj]
  simp

theorem text_eq_ofList_cons {value : Json} (present : value ≠ .null) :
    ∃ first rest, value.text = String.ofList (first :: rest) ∧
      value.firstCodes.1 ≤ first.toNat ∧ first.toNat ≤ value.firstCodes.2 := by
  cases value with
  | null => exact absurd rfl present
  | string text => exact ⟨'"', _, by rw [Json.text, quote], Nat.le_refl 34, Nat.le_refl 34⟩
  | number value =>
      obtain ⟨first, rest, written, begins⟩ := value.text_eq_ofList_cons
      exact ⟨first, rest, by rw [Json.text, written], codes_of_beginsNumber begins⟩
  | array items =>
      obtain ⟨rest, written⟩ := exists_mark_append '[' (itemsText items) "]"
      exact ⟨'[', rest, by rw [Json.text, ← written], Nat.le_refl 91, Nat.le_refl 91⟩
  | bool value =>
      cases value with
      | false => exact ⟨'f', _, by rw [Json.text], by decide, by decide⟩
      | true => exact ⟨'t', _, by rw [Json.text], by decide, by decide⟩
  | object members =>
      obtain ⟨rest, written⟩ := exists_mark_append '\x7b' (membersText members) "\x7d"
      exact ⟨'\x7b', rest, by rw [Json.text, ← written], Nat.le_refl 123, Nat.le_refl 123⟩

theorem compare_text_of_apart {a b : Json} (first : a ≠ .null) (second : b ≠ .null)
    (apart : a.firstCodes.2 < b.firstCodes.1) : compare a.text b.text = .lt := by
  obtain ⟨c, rest, written, _, high⟩ := text_eq_ofList_cons first
  obtain ⟨d, others, writtenOther, low, _⟩ := text_eq_ofList_cons second
  have before : c < d := show c.toNat < d.toNat by omega
  rw [written, writtenOther, Text.compare_ofList, List.compare_cons_cons,
    compare_lt_iff_lt.mpr before]
  rfl

theorem compareValues_of_apart {a b : Json} (apart : a.firstCodes.2 < b.firstCodes.1) :
    compareValues a b = .lt := by
  by_cases first : a = .null
  · subst first
    cases b <;> simp_all [compareValues, firstCodes]
  · have second : b ≠ .null := by
      rintro rfl
      exact Nat.not_lt_zero _ apart
    rw [← compare_text_of_apart first second apart]
    cases a <;> cases b <;> simp_all [compareValues, firstCodes]

def compareKeys : Nat × ℤ × String → Nat × ℤ × String → Ordering :=
  compareLex (compareOn fun key => key.1)
    (compareLex (compareOn fun key => key.2.1) (compareOn fun key => key.2.2))

instance : Std.TransCmp compareKeys :=
  inferInstanceAs (Std.TransCmp (compareLex _ (compareLex _ _)))

theorem apart_of_lt {a b : Json} (less : a.sortKey.1 < b.sortKey.1) :
    a.firstCodes.2 < b.firstCodes.1 := by
  cases a <;> cases b <;> simp_all [sortKey, firstCodes]

/-- The order of values is that of their keys. -/
theorem compareValues_eq (a b : Json) :
    compareValues a b = compareKeys a.sortKey b.sortKey := by
  rcases Nat.lt_trichotomy a.sortKey.1 b.sortKey.1 with less | same | more
  · rw [compareValues_of_apart (apart_of_lt less)]
    simp [compareKeys, compareLex, compareOn, compare_lt_iff_lt.mpr less]
  · match a, b, same with
    | null, null, _ => rfl
    | string x, string y, _ => simp [compareKeys, compareLex, compareOn, sortKey, compareValues]
    | number x, number y, _ => simp [compareKeys, compareLex, compareOn, sortKey, compareValues]
    | array x, array y, _ => simp [compareKeys, compareLex, compareOn, sortKey, compareValues]
    | bool x, bool y, _ => cases x <;> cases y <;> rfl
    | object x, object y, _ => simp [compareKeys, compareLex, compareOn, sortKey, compareValues]
  · rw [compareValues_swap, compareValues_of_apart (apart_of_lt more)]
    simp [compareKeys, compareLex, compareOn, compare_gt_iff_gt.mpr more]

end Json

instance : Std.TransCmp compareValues where
  eq_swap := compareValues_swap _ _
  isLE_trans {a b c} first second := by
    rw [Json.compareValues_eq] at first second ⊢
    exact Std.TransCmp.isLE_trans first second

namespace SortOrder

instance (order : SortOrder) : Std.TransCmp order.compareRows where
  eq_swap := order.compareRows_swap _ _
  isLE_trans {a b c} first second := by
    obtain ⟨column, descending⟩ := order
    cases descending with
    | false =>
        change (compareValues (a.get column) (b.get column)).isLE = true at first
        change (compareValues (b.get column) (c.get column)).isLE = true at second
        change (compareValues (a.get column) (c.get column)).isLE = true
        exact Std.TransCmp.isLE_trans first second
    | true =>
        change (compareValues (a.get column) (b.get column)).swap.isLE = true at first
        change (compareValues (b.get column) (c.get column)).swap.isLE = true at second
        change (compareValues (a.get column) (c.get column)).swap.isLE = true
        rw [← compareValues_swap] at first second ⊢
        exact Std.TransCmp.isLE_trans second first

theorem ordersAmong_any (order : SortOrder) (rows : List Row) :
    OrdersAmong (fun a b => order.compareRows a b != .gt) rows where
  total a _ b _ := by
    rw [compareRows_swap order a b]
    cases order.compareRows b a <;> rfl
  trans a _ b _ c _ := by
    simp only [bne_gt_eq_isLE]
    exact Std.TransCmp.isLE_trans

end SortOrder

end CachedStore
