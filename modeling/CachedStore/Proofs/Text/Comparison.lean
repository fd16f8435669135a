import Mathlib.Data.Char
import Mathlib.Order.Compare

/-!
The order of texts. Texts compare as their lists of characters, and the first character in which
two of them differ decides.
-/

namespace CachedStore

namespace Text

theorem compare_eq_compareOfLessAndEq (x y : List Char) :
    compare x y = compareOfLessAndEq x y := by
  induction x generalizing y with
  | nil => cases y <;> rfl
  | cons head rest ih =>
      cases y with
      | nil => rfl
      | cons other others =>
          rw [List.compare_cons_cons, ih]
          simp only [compareOfLessAndEq, List.cons_lt_cons_iff, List.cons.injEq]
          rcases lt_trichotomy head other with order | same | order
          · rw [compare_lt_iff_lt.mpr order, if_pos (Or.inl order)]
            rfl
          · subst same
            simp
          · rw [compare_gt_iff_gt.mpr order]
            simp [order.not_gt, order.ne']

theorem compare_ofList (x y : List Char) :
    compare (String.ofList x) (String.ofList y) = compare x y := by
  rw [compare_eq_compareOfLessAndEq]
  change compareOfLessAndEq (String.ofList x) (String.ofList y) = _
  simp only [compareOfLessAndEq, String.lt_iff, String.toList_ofList, String.ofList_inj]

theorem compare_append_left (first x y : List Char) :
    compare (first ++ x) (first ++ y) = compare x y := by
  induction first with
  | nil => rfl
  | cons head rest ih =>
      rw [List.cons_append, List.cons_append, List.compare_cons_cons, ih,
        Std.compare_self]
      rfl

theorem compare_append_of_apart {x y : List Char} (first : ¬x <+: y) (second : ¬y <+: x)
    (u v : List Char) : compare (x ++ u) (y ++ v) = compare x y := by
  induction x generalizing y with
  | nil => exact absurd (List.nil_prefix) first
  | cons head rest ih =>
      cases y with
      | nil => exact absurd (List.nil_prefix) second
      | cons other others =>
          rw [List.cons_append, List.cons_append, List.compare_cons_cons, List.compare_cons_cons]
          by_cases same : head = other
          · subst same
            rw [List.cons_prefix_cons] at first second
            rw [ih (fun begins => first ⟨rfl, begins⟩) fun begins => second ⟨rfl, begins⟩]
          · have differs : compare head other ≠ .eq := fun equal =>
              same (Std.LawfulEqCmp.eq_of_compare equal)
            cases decided : compare head other with
            | eq => exact absurd decided differs
            | lt => rfl
            | gt => rfl

end Text

end CachedStore
