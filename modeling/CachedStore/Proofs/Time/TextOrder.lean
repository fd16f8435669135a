import Mathlib.Data.Char
import CachedStore.Proofs.Text.Comparison
import CachedStore.Proofs.Time.Chronology
import CachedStore.Proofs.Time.Reading

/-!
The order of the texts of timestamps. Digits of one width are in the order of their values, and so
are the parts of a text up to the second. The fraction shows as few groups of three digits as are
exact. If the groups of one are the first groups of the other, then the `Z` that follows them is
compared to a digit or a point, which it exceeds, although its fraction is the smaller one.
-/

namespace CachedStore

namespace Timestamp

/-! Digits -/

theorem padded_succ {width : Nat} (positive : 0 < width) (value : Nat) :
    padded (width + 1) value = padded width (value / 10) ++ [Nat.digitChar (value % 10)] := by
  by_cases small : value < 10
  · have leading : List.replicate width '0' = List.replicate (width - 1) '0' ++ ['0'] := by
      rw [← List.replicate_succ', Nat.sub_add_cancel positive]
    rw [Nat.div_eq_of_lt small, Nat.mod_eq_of_lt small, padded, padded,
      Nat.toDigits_of_lt_base small]
    simp [leading]
  · have digits : Nat.toDigits 10 value =
        Nat.toDigits 10 (value / 10) ++ [Nat.digitChar (value % 10)] := by
      rw [← Nat.toDigits_of_lt_base (Nat.mod_lt value (by omega)),
        Nat.toDigits_append_toDigits (by omega) (by omega) (by omega), Nat.div_add_mod]
    rw [padded, padded, digits]
    simp

theorem padded_one {value : Nat} (small : value < 10) :
    padded 1 value = [Nat.digitChar value] := by
  rw [padded, Nat.toDigits_of_lt_base small]
  rfl

theorem compare_digitChar : ∀ a < 10, ∀ b < 10,
    compare (Nat.digitChar a) (Nat.digitChar b) = compare a b := by decide

theorem compare_div_mod (base a b : Nat) :
    compare a b = (compare (a / base) (b / base)).then (compare (a % base) (b % base)) := by
  refine compare_eq_then Nat.lt_of_div_lt_div Nat.lt_of_div_lt_div fun same => ?_
  have first := Nat.div_add_mod a base
  have second := Nat.div_add_mod b base
  rw [same] at first
  exact compare_eq_of_mono (fun _ => by omega) (fun _ => by omega) fun _ => by omega

theorem compare_padded {width a b : Nat} (positive : 0 < width) (first : a < 10 ^ width)
    (second : b < 10 ^ width) (u v : List Char) :
    compare (padded width a ++ u) (padded width b ++ v) = (compare a b).then (compare u v) := by
  -- The last digits are split off, as the first ones of what follows the other digits.
  induction width, positive using Nat.le_induction generalizing a b u v with
  | base =>
      rw [padded_one first, padded_one second, List.cons_append, List.cons_append,
        List.compare_cons_cons, compare_digitChar a first b second]
      rfl
  | succ width positive ih =>
      rw [padded_succ positive, padded_succ positive, List.append_assoc, List.append_assoc]
      rw [ih (by omega) (by omega), List.cons_append, List.cons_append,
        List.compare_cons_cons, compare_digitChar _ (by omega) _ (by omega), ← Ordering.then_assoc]
      rw [← compare_div_mod]
      rfl

theorem padded_append {width more : Nat} (positive : 0 < width) (positiveMore : 0 < more)
    (value : Nat) :
    padded (width + more) value =
      padded width (value / 10 ^ more) ++ padded more (value % 10 ^ more) := by
  induction more, positiveMore using Nat.le_induction generalizing value with
  | base =>
      rw [padded_succ positive, padded_one (by omega)]
  | succ more positiveMore ih =>
      rw [← Nat.add_assoc, padded_succ (by omega), ih, padded_succ positiveMore,
        List.append_assoc, Nat.pow_succ', Nat.div_div_eq_div_mul, Nat.mod_mul_right_div_self,
        Nat.mod_mul_right_mod]

/-! Fractions -/

/-- Groups of three digits, up to the last one that is not zero. -/
def groups : (count value : Nat) → List Char
  | 0, _ => []
  | count + 1, value =>
    if value = 0 then []
    else padded 3 (value / 1000 ^ count) ++ groups count (value % 1000 ^ count)

theorem fractionText_eq (nanosecond : Nat) :
    fractionText nanosecond = if nanosecond = 0 then [] else '.' :: groups 3 nanosecond := by
  have six : padded 6 (nanosecond / 1000) =
      padded 3 (nanosecond / 1000 / 1000) ++ padded 3 (nanosecond / 1000 % 1000) :=
    @padded_append 3 3 (by omega) (by omega) _
  have nine : padded 9 nanosecond =
      padded 3 (nanosecond / 1000000) ++ padded 6 (nanosecond % 1000000) :=
    @padded_append 3 6 (by omega) (by omega) _
  have last : padded 6 (nanosecond % 1000000) =
      padded 3 (nanosecond % 1000000 / 1000) ++ padded 3 (nanosecond % 1000000 % 1000) :=
    @padded_append 3 3 (by omega) (by omega) _
  have thousands : nanosecond / 1000 / 1000 = nanosecond / 1000000 := by omega
  have middle : nanosecond / 1000 % 1000 = nanosecond % 1000000 / 1000 := by omega
  by_cases zero : nanosecond = 0
  · rw [fractionText, if_pos zero, if_pos zero]
  · rw [fractionText, if_neg zero, if_neg zero]
    by_cases millis : nanosecond % 1000000 = 0
    · simp [groups, millis, zero]
    · by_cases micros : nanosecond % 1000 = 0
      · have rest : nanosecond % 1000000 % 1000 = 0 := by omega
        simp [groups, millis, micros, zero, six, rest, thousands, middle]
      · simp [groups, millis, micros, zero, nine, last]

theorem compare_of_nil {x : List Char} (filled : x ≠ []) : compare [] x = .lt := by
  cases x with
  | nil => exact absurd rfl filled
  | cons head rest => rfl

theorem compare_optional {write : Nat → List Char} {a b : Nat}
    (shown : ∀ value, write value ≠ [])
    (others : a ≠ 0 → b ≠ 0 → compare (write a) (write b) = compare a b) :
    compare (if a = 0 then [] else write a) (if b = 0 then [] else write b) = compare a b := by
  by_cases left : a = 0
  · by_cases right : b = 0
    · simp [left, right]
    · rw [if_pos left, if_neg right, compare_of_nil (shown b), left]
      exact (compare_lt_iff_lt.mpr (Nat.pos_of_ne_zero right)).symm
  · by_cases right : b = 0
    · rw [if_neg left, if_pos right, right, Std.OrientedOrd.eq_swap, compare_of_nil (shown a)]
      exact (compare_gt_iff_gt.mpr (Nat.pos_of_ne_zero left)).symm
    · rw [if_neg left, if_neg right, others left right]

theorem compare_groups {count a b : Nat} (first : a < 1000 ^ count) (second : b < 1000 ^ count) :
    compare (groups count a) (groups count b) = compare a b := by
  induction count generalizing a b with
  | zero =>
      obtain rfl : a = 0 := by omega
      obtain rfl : b = 0 := by omega
      rfl
  | succ count ih =>
      have unit : 0 < 1000 ^ count := Nat.pow_pos (by omega)
      have bound : ∀ {value}, value < 1000 ^ (count + 1) → value / 1000 ^ count < 10 ^ 3 :=
        fun small => Nat.div_lt_of_lt_mul (by rwa [← Nat.pow_succ])
      let write : Nat → List Char := fun value =>
        padded 3 (value / 1000 ^ count) ++ groups count (value % 1000 ^ count)
      have shown : ∀ value, write value ≠ [] := fun value =>
        List.append_ne_nil_of_left_ne_nil (padded_ne_nil _ _) _
      refine compare_optional shown fun _ _ => ?_
      -- The first group decides, unless it is the same in both.
      rw [compare_padded (by omega) (bound first) (bound second),
        ih (Nat.mod_lt a unit) (Nat.mod_lt b unit), ← compare_div_mod]

theorem compare_fractionText {a b : Nat} (first : a < 1000000000) (second : b < 1000000000) :
    compare (fractionText a) (fractionText b) = compare a b := by
  rw [fractionText_eq, fractionText_eq]
  refine compare_optional (fun value => List.cons_ne_nil '.' (groups 3 value)) fun _ _ => ?_
  rw [List.compare_cons_cons, compare_groups (by omega) (by omega)]
  rfl

theorem lt_zone_of_mem_fractionText {nanosecond : Nat} {c : Char}
    (member : c ∈ fractionText nanosecond) : c < 'Z' := by
  have digit : ∀ {width value}, c ∈ padded width value → c < 'Z' := by
    intro width value shown
    have small := ((isDigit_iff c).mp (isDigit_of_mem_padded shown)).2
    exact Char.lt_def.mpr (UInt32.lt_iff_toNat_lt.mpr (Nat.lt_of_le_of_lt small (by decide)))
  have point : '.' < 'Z' := by decide
  unfold fractionText at member
  split_ifs at member
  · cases member
  all_goals
    rcases List.mem_cons.mp member with rfl | shown
    · exact point
    · exact digit shown

/-! Fractions before the zone -/

/-- One of two fractions shows what the other does, and then more. -/
def Nested (a b : Nat) : Prop :=
  a ≠ b ∧ (fractionText a <+: fractionText b ∨ fractionText b <+: fractionText a)

instance (a b : Nat) : Decidable (Nested a b) := inferInstanceAs (Decidable (_ ∧ _))

theorem compare_zoned_of_prefix {a b : Nat} (first : a < 1000000000) (second : b < 1000000000)
    (differ : a ≠ b) (begins : fractionText a <+: fractionText b) :
    compare (fractionText a ++ ['Z']) (fractionText b ++ ['Z']) = .gt ∧ compare a b = .lt := by
  obtain ⟨rest, whole⟩ := begins
  have fractions := compare_fractionText first second
  rw [← whole] at fractions ⊢
  cases rest with
  | nil =>
      rw [List.append_nil, Std.compare_self] at fractions
      exact absurd (compare_eq_iff_eq.mp fractions.symm) differ
  | cons next others =>
      have member : next ∈ fractionText b := by
        rw [← whole]
        simp
      constructor
      · rw [List.append_assoc, Text.compare_append_left, List.cons_append, List.compare_cons_cons,
          compare_gt_iff_gt.mpr (lt_zone_of_mem_fractionText member)]
        rfl
      · rw [← fractions, ← List.append_nil (fractionText a), List.append_assoc,
          Text.compare_append_left]
        rfl

theorem compare_zoned {a b : Nat} (first : a < 1000000000) (second : b < 1000000000) :
    compare (fractionText a ++ ['Z']) (fractionText b ++ ['Z']) =
      if Nested a b then (compare a b).swap else compare a b := by
  by_cases nested : Nested a b
  · rw [if_pos nested]
    obtain ⟨differ, begins | begins⟩ := nested
    · obtain ⟨zoned, plain⟩ := compare_zoned_of_prefix first second differ begins
      rw [zoned, plain]
      rfl
    · obtain ⟨zoned, plain⟩ := compare_zoned_of_prefix second first differ.symm begins
      rw [Std.OrientedOrd.eq_swap, zoned, ← Std.OrientedOrd.eq_swap, plain]
      rfl
  · rw [if_neg nested]
    by_cases same : a = b
    · rw [same, Std.compare_self, Std.compare_self]
    · rw [Text.compare_append_of_apart (fun begins => nested ⟨same, Or.inl begins⟩)
        fun begins => nested ⟨same, Or.inr begins⟩]
      exact compare_fractionText first second

/-! Texts -/

theorem compare_padded_cons {width a b : Nat} (positive : 0 < width) (first : a < 10 ^ width)
    (second : b < 10 ^ width) (mark : Char) (u v : List Char) :
    compare (padded width a ++ mark :: u) (padded width b ++ mark :: v) =
      (compare a b).then (compare u v) := by
  rw [compare_padded positive first second, List.compare_cons_cons, Std.compare_self]
  rfl

def HasPlainYear (reading : Timestamp) : Prop := 0 ≤ reading.year ∧ reading.year ≤ 9999

instance (reading : Timestamp) : Decidable reading.HasPlainYear :=
  inferInstanceAs (Decidable (_ ∧ _))

theorem day_lt {reading : Timestamp} (valid : reading.IsValid) : reading.day < 100 := by
  have within := valid.2.2.2.2.1
  have few : daysInMonth reading.year reading.month ≤ 31 := by
    unfold daysInMonth
    split_ifs <;> omega
  omega

theorem compare_text {a b : Timestamp} (first : a.IsValid) (second : b.IsValid)
    (plain : a.HasPlainYear) (plainOther : b.HasPlainYear) :
    compare a.text b.text = (compareSeconds a b).then
      (if Nested a.nanosecond b.nanosecond then (compare a.nanosecond b.nanosecond).swap
        else compare a.nanosecond b.nanosecond) := by
  have day := day_lt first
  have dayOther := day_lt second
  obtain ⟨low, high⟩ := plain
  obtain ⟨lowOther, highOther⟩ := plainOther
  obtain ⟨_, _, month, _, _, hour, minute, sec, fraction⟩ := first
  obtain ⟨_, _, monthOther, _, _, hourOther, minuteOther, secOther, fractionOther⟩ := second
  -- Each part is shown in digits of one width, and equal marks stand between the parts.
  have years : compare a.year.toNat b.year.toNat = compare a.year b.year :=
    compare_eq_of_mono (fun _ => by omega) (fun _ => by omega) fun _ => by omega
  rw [text, text, Text.compare_ofList]
  simp only [zonelessText, yearText, low, high, lowOther, highOther, and_self, ↓reduceIte,
    List.append_assoc, List.cons_append]
  rw [compare_padded_cons (by omega) (by omega) (by omega),
    compare_padded_cons (by omega) (by omega) (by omega),
    compare_padded_cons (by omega) (by omega) (by omega),
    compare_padded_cons (by omega) (by omega) (by omega),
    compare_padded_cons (by omega) (by omega) (by omega),
    compare_padded (by omega) (by omega) (by omega), compare_zoned fraction fractionOther, years,
    compareSeconds]
  simp only [Ordering.then_assoc]

/-- Readings of one second, the fraction of one of which begins that of the other. -/
def Misread (a b : Timestamp) : Prop :=
  { a with nanosecond := 0 } = { b with nanosecond := 0 } ∧ Nested a.nanosecond b.nanosecond

instance (a b : Timestamp) : Decidable (Misread a b) := inferInstanceAs (Decidable (_ ∧ _))

theorem compareSeconds_eq_iff (a b : Timestamp) :
    compareSeconds a b = .eq ↔ { a with nanosecond := 0 } = { b with nanosecond := 0 } := by
  simp [compareSeconds, Ordering.then_eq_eq]

theorem compare_text_eq {a b : Timestamp} (first : a.IsValid) (second : b.IsValid)
    (plain : a.HasPlainYear) (plainOther : b.HasPlainYear) :
    compare a.text b.text =
      if Misread a b then (compareInstants a b).swap else compareInstants a b := by
  rw [compare_text first second plain plainOther, compareInstants_eq first second]
  by_cases same : compareSeconds a b = .eq
  · have whole := (compareSeconds_eq_iff a b).mp same
    by_cases nested : Nested a.nanosecond b.nanosecond
    · rw [if_pos nested, if_pos ⟨whole, nested⟩, same]
      rfl
    · rw [if_neg nested, if_neg fun misread : Misread a b => nested misread.2]
  · have apart : ¬Misread a b := fun misread => same ((compareSeconds_eq_iff a b).mpr misread.1)
    rw [if_neg apart]
    cases decided : compareSeconds a b with
    | eq => exact absurd decided same
    | lt => rfl
    | gt => rfl

end Timestamp

end CachedStore
