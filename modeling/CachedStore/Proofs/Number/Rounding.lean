import Mathlib.Data.Nat.Log
import Mathlib.Order.Compare
import CachedStore.Number.Double

/-!
Integers rounded to doubles. Rounding keeps the order of the integers and loses only differences
below one part in `2 ^ 52`, none at all up to `2 ^ 53`.
-/

namespace CachedStore

namespace Double

/-! Rounding a quotient -/

theorem div_le_roundHalfEven (n d : Nat) : n / d ≤ roundHalfEven n d := by
  simp only [roundHalfEven]
  split_ifs <;> omega

theorem roundHalfEven_le (n d : Nat) : roundHalfEven n d ≤ n / d + 1 := by
  simp only [roundHalfEven]
  split_ifs <;> omega

theorem roundHalfEven_mono {n m : Nat} (d : Nat) (order : n ≤ m) :
    roundHalfEven n d ≤ roundHalfEven m d := by
  rcases Nat.lt_or_eq_of_le (Nat.div_le_div_right order : n / d ≤ m / d) with less | same
  · calc
      roundHalfEven n d ≤ n / d + 1 := roundHalfEven_le n d
      _ ≤ m / d := less
      _ ≤ roundHalfEven m d := div_le_roundHalfEven m d
  · have first := Nat.div_add_mod n d
    have second := Nat.div_add_mod m d
    rw [same] at first
    have rests : n % d ≤ m % d := by omega
    simp only [roundHalfEven, same]
    split_ifs <;> omega

theorem roundHalfEven_one (n : Nat) : roundHalfEven n 1 = n := by
  simp [roundHalfEven, Nat.mod_one]

theorem roundHalfEven_near (n : Nat) {d : Nat} (positive : 0 < d) :
    2 * n ≤ 2 * (d * roundHalfEven n d) + d ∧ 2 * (d * roundHalfEven n d) ≤ 2 * n + d := by
  have whole := Nat.div_add_mod n d
  have small := Nat.mod_lt n positive
  have next : d * (n / d + 1) = d * (n / d) + d := Nat.mul_succ d (n / d)
  simp only [roundHalfEven]
  split_ifs <;> omega

/-! The rank of an integer -/

/-- The significand of the double nearest to a positive integer, `2 ^ 53` for a carry. -/
def significandOf (value : Nat) : Nat :=
  if value.log2 ≤ 52 then value * 2 ^ (52 - value.log2)
  else roundHalfEven value (2 ^ (value.log2 - 52))

theorem binaryExponent_one {value : Nat} (positive : value ≠ 0) :
    binaryExponent value 1 = value.log2 := by
  have reached := Nat.log2_self_le positive
  have one : Nat.log2 1 = 0 := rfl
  simp [binaryExponent, one, reached]

theorem nearestRank_one {value : Nat} (positive : value ≠ 0) :
    nearestRank value 1 = (value.log2 + 1022) * 2 ^ 52 + significandOf value := by
  have exponent : max (binaryExponent value 1 - 52) (-1074) = (value.log2 : Int) - 52 := by
    rw [binaryExponent_one positive]
    omega
  have scale : ((value.log2 : Int) - 52 + 1074).toNat = value.log2 + 1022 := by omega
  simp only [nearestRank, if_neg positive, exponent, scale, significandOf]
  by_cases small : value.log2 ≤ 52
  · rw [if_pos small]
    by_cases whole : (0 : Int) ≤ value.log2 - 52
    · have same : value.log2 = 52 := by omega
      simp [same, roundHalfEven_one]
    · have shift : (-((value.log2 : Int) - 52)).toNat = 52 - value.log2 := by omega
      rw [if_neg whole, shift, roundHalfEven_one]
  · have large : (0 : Int) ≤ value.log2 - 52 := by omega
    have shift : ((value.log2 : Int) - 52).toNat = value.log2 - 52 := by omega
    rw [if_neg small, if_pos large, shift, Nat.one_mul]

theorem two_pow_mul_two_pow {k l m : Nat} (sum : k + l = m) : 2 ^ k * 2 ^ l = 2 ^ m := by
  rw [← Nat.pow_add, sum]

theorem significandOf_lt {value : Nat} (small : value.log2 ≤ 52) :
    significandOf value < 2 ^ 53 := by
  rw [significandOf, if_pos small,
    ← two_pow_mul_two_pow (show value.log2 + 1 + (52 - value.log2) = 53 by omega)]
  exact Nat.mul_lt_mul_of_pos_right Nat.lt_log2_self (Nat.two_pow_pos _)

theorem significandOf_bounds {value : Nat} (positive : value ≠ 0) :
    2 ^ 52 ≤ significandOf value ∧ significandOf value ≤ 2 ^ 53 := by
  have low := Nat.log2_self_le positive
  have high := @Nat.lt_log2_self value
  by_cases small : value.log2 ≤ 52
  · refine ⟨?_, (significandOf_lt small).le⟩
    rw [significandOf, if_pos small, ← two_pow_mul_two_pow (Nat.add_sub_cancel' small)]
    exact Nat.mul_le_mul_right _ low
  · have unit : 0 < 2 ^ (value.log2 - 52) := Nat.two_pow_pos _
    have below := two_pow_mul_two_pow (show 52 + (value.log2 - 52) = value.log2 by omega)
    have above := two_pow_mul_two_pow (show 53 + (value.log2 - 52) = value.log2 + 1 by omega)
    have least : 2 ^ 52 ≤ value / 2 ^ (value.log2 - 52) :=
      (Nat.le_div_iff_mul_le unit).mpr (below ▸ low)
    have most : value / 2 ^ (value.log2 - 52) < 2 ^ 53 :=
      (Nat.div_lt_iff_lt_mul unit).mpr (above ▸ high)
    rw [significandOf, if_neg small]
    exact ⟨least.trans (div_le_roundHalfEven _ _), (roundHalfEven_le _ _).trans most⟩

theorem significandOf_mono {n m : Nat} (order : n ≤ m) (same : n.log2 = m.log2) :
    significandOf n ≤ significandOf m := by
  rw [significandOf, significandOf, same]
  split_ifs
  · exact Nat.mul_le_mul_right _ order
  · exact roundHalfEven_mono _ order

theorem significandOf_strict {n m : Nat} (less : n < m) (same : n.log2 = m.log2)
    (small : n.log2 ≤ 52) : significandOf n < significandOf m := by
  rw [significandOf, significandOf, if_pos small, if_pos (same ▸ small), ← same]
  exact Nat.mul_lt_mul_of_pos_right less (Nat.two_pow_pos _)

theorem log2_mono {n m : Nat} (positive : n ≠ 0) (order : n ≤ m) : n.log2 ≤ m.log2 :=
  (Nat.le_log2 (by omega)).mpr ((Nat.log2_self_le positive).trans order)

theorem nearestRank_pos {n : Nat} (positive : n ≠ 0) : 0 < nearestRank n 1 := by
  have significand := (significandOf_bounds positive).1
  rw [nearestRank_one positive]
  omega

theorem nearestRank_lt {n : Nat} (within : n < 2 ^ 64) : nearestRank n 1 < infiniteRank := by
  by_cases positive : n = 0
  · subst positive
    decide
  · have exponent := (Nat.log2_lt positive).mpr within
    have significand := (significandOf_bounds positive).2
    rw [nearestRank_one positive, infiniteRank]
    omega

theorem nearestRank_mono {n m : Nat} (order : n ≤ m) : nearestRank n 1 ≤ nearestRank m 1 := by
  by_cases positive : n = 0
  · subst positive
    exact Nat.zero_le _
  · have later : m ≠ 0 := by omega
    rw [nearestRank_one positive, nearestRank_one later]
    rcases Nat.lt_or_eq_of_le (log2_mono positive order) with less | same
    · have first := (significandOf_bounds positive).2
      have second := (significandOf_bounds later).1
      omega
    · have significands := significandOf_mono order same
      omega

theorem nearestRank_strict {n m : Nat} (less : n < m) (small : n.log2 ≤ 52) :
    nearestRank n 1 < nearestRank m 1 := by
  have later : m ≠ 0 := by omega
  by_cases positive : n = 0
  · subst positive
    exact nearestRank_pos later
  · rw [nearestRank_one positive, nearestRank_one later]
    rcases Nat.lt_or_eq_of_le (log2_mono positive less.le) with apart | equal
    · have first := significandOf_lt small
      have second := (significandOf_bounds later).1
      omega
    · have significands := significandOf_strict less equal small
      omega

theorem far_of_nearestRank_eq {n m : Nat} (less : n < m)
    (same : nearestRank n 1 = nearestRank m 1) : 2 ^ 53 ≤ n ∧ 2 ^ 52 * (m - n) ≤ n := by
  have large : 53 ≤ n.log2 := by
    by_contra small
    exact absurd same (nearestRank_strict less (by omega)).ne
  have positive : n ≠ 0 := by
    rintro rfl
    cases large
  have later : m ≠ 0 := by omega
  have exponents := log2_mono positive less.le
  have first := (significandOf_bounds positive).2
  have second := (significandOf_bounds later).1
  rw [nearestRank_one positive, nearestRank_one later] at same
  have whole := two_pow_mul_two_pow (show 52 + (n.log2 - 52) = n.log2 by omega)
  have least := Nat.log2_self_le positive
  refine ⟨(Nat.pow_le_pow_right (by omega) large).trans least, ?_⟩
  have near := roundHalfEven_near n (Nat.two_pow_pos (n.log2 - 52))
  have nearOther := roundHalfEven_near m (Nat.two_pow_pos (m.log2 - 52))
  rw [significandOf, if_neg (by omega), significandOf, if_neg (by omega)] at same
  rw [significandOf, if_neg (by omega)] at first second
  rcases Nat.lt_or_eq_of_le exponents with apart | equal
  · -- The smaller one is rounded up to the power of two that the larger one is rounded down to.
    have next : m.log2 = n.log2 + 1 := by omega
    have unit : 2 ^ (m.log2 - 52) = 2 * 2 ^ (n.log2 - 52) := by
      rw [next, ← Nat.pow_succ']
      congr 1
      omega
    have carried : roundHalfEven n (2 ^ (n.log2 - 52)) = 2 ^ 53 := by omega
    have begun : roundHalfEven m (2 ^ (m.log2 - 52)) = 2 ^ 52 := by omega
    rw [carried] at near
    rw [begun, unit] at nearOther
    omega
  · have quotients : roundHalfEven m (2 ^ (m.log2 - 52)) =
        roundHalfEven n (2 ^ (n.log2 - 52)) := by omega
    rw [quotients, ← equal] at nearOther
    omega

/-! The double of an integer -/

theorem position_ofInt {value : Int} (within : value.natAbs < 2 ^ 64) :
    (ofInt value).position =
      if value < 0 then -(nearestRank value.natAbs 1 : Int) else nearestRank value.natAbs 1 := by
  have finite := nearestRank_lt within
  have rank : min (nearestRank value.natAbs 1) (infiniteRank - 1) =
      nearestRank value.natAbs 1 := by omega
  simp [position, ofInt, ofRank, rank]

/-- Different integers with one nearest double. -/
def Blurred (a b : Int) : Prop := a ≠ b ∧ (ofInt a).same (ofInt b) = true

instance (a b : Int) : Decidable (Blurred a b) := inferInstanceAs (Decidable (_ ∧ _))

variable {a b : Int} (first : a.natAbs < 2 ^ 64) (second : b.natAbs < 2 ^ 64)

include first second

theorem position_ofInt_mono (order : a ≤ b) : (ofInt a).position ≤ (ofInt b).position := by
  rw [position_ofInt first, position_ofInt second]
  split_ifs with negative other
  · have ranks := @nearestRank_mono b.natAbs a.natAbs (by omega)
    omega
  · omega
  · omega
  · have ranks := @nearestRank_mono a.natAbs b.natAbs (by omega)
    omega

theorem Blurred.far (blurred : Blurred a b) :
    2 ^ 53 ≤ min a.natAbs b.natAbs ∧ 2 ^ 52 * (a - b).natAbs ≤ min a.natAbs b.natAbs := by
  obtain ⟨differ, same⟩ := blurred
  have positions := eq_of_beq same
  rw [position_ofInt first, position_ofInt second] at positions
  have negative : ∀ {value : Int}, value < 0 → 0 < nearestRank value.natAbs 1 :=
    fun less => nearestRank_pos (by omega)
  have alike : nearestRank a.natAbs 1 = nearestRank b.natAbs 1 ∧ (a < 0 ↔ b < 0) := by
    split_ifs at positions with left right right
    · omega
    · have positive := negative left
      omega
    · have positive := negative right
      omega
    · omega
  rcases lt_or_gt_of_ne (show a.natAbs ≠ b.natAbs by omega) with less | less
  · have far := far_of_nearestRank_eq less alike.1
    omega
  · have far := far_of_nearestRank_eq less alike.1.symm
    omega

theorem compare_position_ofInt :
    compare (ofInt a).position (ofInt b).position =
      if Blurred a b then .eq else compare a b := by
  by_cases blurred : Blurred a b
  · rw [if_pos blurred, compare_eq_iff_eq]
    exact eq_of_beq blurred.2
  · have apart : a ≠ b → (ofInt a).position ≠ (ofInt b).position :=
      fun differ same => blurred ⟨differ, beq_iff_eq.mpr same⟩
    rw [if_neg blurred]
    rcases lt_trichotomy a b with less | rfl | less
    · have before := position_ofInt_mono first second less.le
      rw [compare_lt_iff_lt.mpr less, compare_lt_iff_lt]
      exact lt_of_le_of_ne before (apart less.ne)
    · rw [Std.compare_self, Std.compare_self]
    · have behind := position_ofInt_mono second first less.le
      rw [compare_gt_iff_gt.mpr less, compare_gt_iff_gt]
      exact lt_of_le_of_ne behind (apart less.ne').symm

end Double

end CachedStore
