import Mathlib.Algebra.Order.Field.Power
import Mathlib.Data.Rat.Cast.Order
import Mathlib.Tactic.FieldSimp
import Mathlib.Tactic.Linarith
import Mathlib.Tactic.Positivity
import Mathlib.Tactic.NormNum
import CachedStore.Proofs.Number.Rounding

/-!
Quotients next to doubles. Doubles lie at least one part in `2 ^ 53` apart, so that a quotient off
a double by less than half of that is rounded to it.
-/

namespace CachedStore

namespace Double

/-! The magnitude of a rank -/

def magnitude (rank : Nat) : ℚ := significand rank * 2 ^ ((scale rank : ℤ) - 1074)

theorem rank_eq (rank : Nat) : scale rank * 2 ^ 52 + significand rank = rank := by
  unfold scale significand
  split <;> omega

theorem significand_lt (rank : Nat) : significand rank < 2 ^ 53 := by
  unfold significand
  split <;> omega

theorem le_significand_of_scale_pos {rank : Nat} (scaled : 0 < scale rank) :
    2 ^ 52 ≤ significand rank := by
  unfold scale at scaled
  unfold significand
  split <;> omega

theorem fraction_eq_magnitude (rank : Nat) :
    ((fraction rank).1 : ℚ) / (fraction rank).2 = magnitude rank := by
  unfold fraction magnitude
  split
  · rename_i large
    have exponent : (scale rank : ℤ) - 1074 = (scale rank - 1074 : Nat) := by omega
    rw [exponent, zpow_natCast]
    push_cast
    rw [div_one]
  · have exponent : (scale rank : ℤ) - 1074 = -(1074 - scale rank : Nat) := by omega
    rw [exponent, zpow_neg, zpow_natCast]
    push_cast
    rfl

/-! Rounding by a unit -/

theorem roundHalfEven_of_near {n d m : Nat} (positive : 0 < d)
    (near : |(n : ℚ) / d - m| < 1 / 2) : roundHalfEven n d = m := by
  have unit : (0 : ℚ) < d := by exact_mod_cast positive
  rw [abs_lt, lt_sub_iff_add_lt, sub_lt_iff_lt_add, lt_div_iff₀ unit, div_lt_iff₀ unit] at near
  have low : 2 * (d * m) < 2 * n + d := by
    have : (2 * (d * m) : ℚ) < 2 * n + d := by linarith [near.1]
    exact_mod_cast this
  have high : 2 * n < 2 * (d * m) + d := by
    have : (2 * n : ℚ) < 2 * (d * m) + d := by linarith [near.2]
    exact_mod_cast this
  have rounded := roundHalfEven_near n positive
  rcases Nat.lt_trichotomy (roundHalfEven n d) m with less | same | more
  · have step := Nat.mul_le_mul_left d (Nat.succ_le_of_lt less)
    rw [Nat.mul_succ] at step
    omega
  · exact same
  · have step := Nat.mul_le_mul_left d (Nat.succ_le_of_lt more)
    rw [Nat.mul_succ] at step
    omega

theorem div_zpow (base n d : Nat) (exponent : ℤ) :
    (n : ℚ) / d / (base : ℚ) ^ exponent =
      if 0 ≤ exponent then (n : ℚ) / (d * base ^ exponent.toNat : Nat)
      else (n * base ^ (-exponent).toNat : Nat) / (d : ℚ) := by
  split
  · rename_i whole
    obtain ⟨count, rfl⟩ := Int.eq_ofNat_of_zero_le whole
    rw [Int.toNat_natCast, zpow_natCast, div_div]
    push_cast
    rfl
  · rename_i part
    obtain ⟨count, same⟩ := Int.eq_ofNat_of_zero_le (show 0 ≤ -exponent by omega)
    rw [same, Int.toNat_natCast, show exponent = -(count : ℤ) by omega, zpow_neg, zpow_natCast,
      div_inv_eq_mul]
    push_cast
    exact div_mul_eq_mul_div _ _ _

theorem div_two_zpow (n d : Nat) (exponent : ℤ) :
    (n : ℚ) / d / 2 ^ exponent =
      if 0 ≤ exponent then (n : ℚ) / (d * 2 ^ exponent.toNat : Nat)
      else (n * 2 ^ (-exponent).toNat : Nat) / (d : ℚ) :=
  div_zpow 2 n d exponent

theorem binaryExponent_bounds {n d : Nat} (positive : 0 < n) (divisible : 0 < d) :
    (2 : ℚ) ^ binaryExponent n d ≤ n / d ∧ (n : ℚ) / d < 2 ^ (binaryExponent n d + 1) := by
  have unit : (0 : ℚ) < d := by exact_mod_cast divisible
  have two : (2 : ℚ) ≠ 0 := by norm_num
  have low : (2 : ℚ) ^ n.log2 ≤ n := by exact_mod_cast Nat.log2_self_le positive.ne'
  have high : (n : ℚ) < 2 ^ (n.log2 + 1) := by exact_mod_cast Nat.lt_log2_self
  have lowUnit : (2 : ℚ) ^ d.log2 ≤ d := by exact_mod_cast Nat.log2_self_le divisible.ne'
  have highUnit : (d : ℚ) < 2 ^ (d.log2 + 1) := by exact_mod_cast Nat.lt_log2_self
  have least : (2 : ℚ) ^ ((n.log2 : ℤ) - d.log2 - 1) ≤ n / d := by
    rw [le_div_iff₀ unit]
    calc (2 : ℚ) ^ ((n.log2 : ℤ) - d.log2 - 1) * d
        ≤ 2 ^ ((n.log2 : ℤ) - d.log2 - 1) * 2 ^ (d.log2 + 1) := by gcongr
      _ = 2 ^ n.log2 := by
        rw [← zpow_natCast, ← zpow_natCast, ← zpow_add₀ two]
        congr 1
        omega
      _ ≤ n := low
  have most : (n : ℚ) / d < 2 ^ ((n.log2 : ℤ) - d.log2 + 1) := by
    rw [div_lt_iff₀ unit]
    calc (n : ℚ) < 2 ^ (n.log2 + 1) := high
      _ = 2 ^ ((n.log2 : ℤ) - d.log2 + 1) * 2 ^ d.log2 := by
        rw [← zpow_natCast, ← zpow_natCast, ← zpow_add₀ two]
        congr 1
        omega
      _ ≤ 2 ^ ((n.log2 : ℤ) - d.log2 + 1) * d := by gcongr
  have reached : (if 0 ≤ (n.log2 : ℤ) - d.log2 then d * 2 ^ ((n.log2 : ℤ) - d.log2).toNat ≤ n
      else d ≤ n * 2 ^ (-((n.log2 : ℤ) - d.log2)).toNat) ↔
        (2 : ℚ) ^ ((n.log2 : ℤ) - d.log2) ≤ n / d := by
    have power : (0 : ℚ) < 2 ^ ((n.log2 : ℤ) - d.log2) := by positivity
    rw [← one_le_div power, div_two_zpow]
    split
    · rw [one_le_div (by exact_mod_cast Nat.mul_pos divisible (Nat.two_pow_pos _))]
      exact Nat.cast_le.symm
    · rw [one_le_div unit]
      exact Nat.cast_le.symm
  unfold binaryExponent
  simp only [reached]
  split
  · exact ⟨by assumption, most⟩
  · rename_i below
    rw [Int.sub_add_cancel]
    exact ⟨least, not_le.mp below⟩

theorem binaryExponent_bounds_in {n d : Nat} (positive : 0 < n) (divisible : 0 < d) (unit : ℤ) :
    (2 : ℚ) ^ (binaryExponent n d - unit) ≤ n / d / 2 ^ unit ∧
      (n : ℚ) / d / 2 ^ unit < 2 ^ (binaryExponent n d + 1 - unit) := by
  obtain ⟨least, most⟩ := binaryExponent_bounds positive divisible
  have power : (0 : ℚ) < 2 ^ unit := by positivity
  have two : (2 : ℚ) ≠ 0 := by norm_num
  rw [zpow_sub₀ two, zpow_sub₀ two]
  exact ⟨div_le_div_of_nonneg_right least power.le, div_lt_div_of_pos_right most power⟩

/-- The exponent of the unit in which a quotient is rounded. -/
def unitOf (n d : Nat) : ℤ := max (binaryExponent n d - 52) (-1074)

theorem nearestRank_of_steps {n d m : Nat} (positive : 0 < n) (divisible : 0 < d)
    (near : |(n : ℚ) / d / 2 ^ unitOf n d - m| < 1 / 2) :
    nearestRank n d = (unitOf n d + 1074).toNat * 2 ^ 52 + m := by
  rw [div_two_zpow] at near
  simp only [nearestRank, if_neg positive.ne']
  change (unitOf n d + 1074).toNat * 2 ^ 52 + (if 0 ≤ unitOf n d then _ else _) = _
  congr 1
  split
  · rename_i whole
    rw [if_pos whole] at near
    exact roundHalfEven_of_near (Nat.mul_pos divisible (Nat.two_pow_pos _)) near
  · rename_i part
    rw [if_neg part] at near
    exact roundHalfEven_of_near divisible near

section Near

variable {n d rank : Nat} (positive : 0 < n) (divisible : 0 < d)
  (near : 2 ^ 54 * |(n : ℚ) / d - magnitude rank| < magnitude rank)

include near

theorem abs_sub_significand_lt :
    2 ^ 54 * |(n : ℚ) / d / 2 ^ ((scale rank : ℤ) - 1074) - significand rank| <
      significand rank := by
  have power : (0 : ℚ) < 2 ^ ((scale rank : ℤ) - 1074) := by positivity
  rw [magnitude, ← div_lt_iff₀ power, mul_div_assoc, ← abs_of_pos power, ← abs_div,
    abs_of_pos power, sub_div, mul_div_cancel_right₀ _ power.ne'] at near
  exact near

include positive divisible

theorem unitOf_le_of_near : unitOf n d ≤ (scale rank : ℤ) - 1074 := by
  by_contra larger
  have steps := abs_sub_significand_lt near
  have small : (significand rank : ℚ) ≤ 2 ^ 53 - 1 := by
    have bound : significand rank + 1 ≤ 2 ^ 53 := significand_lt rank
    rw [le_sub_iff_add_le]
    exact_mod_cast bound
  have far : (2 : ℚ) ^ (53 : ℤ) ≤ n / d / 2 ^ ((scale rank : ℤ) - 1074) := by
    refine le_trans ?_ (binaryExponent_bounds_in positive divisible _).1
    apply zpow_le_zpow_right₀ (by norm_num)
    unfold unitOf at larger
    omega
  have apart := le_abs_self ((n : ℚ) / d / 2 ^ ((scale rank : ℤ) - 1074) - significand rank)
  norm_num at far
  linarith

theorem unitOf_eq_of_near (smaller : unitOf n d < (scale rank : ℤ) - 1074) :
    unitOf n d = (scale rank : ℤ) - 1075 ∧ significand rank = 2 ^ 52 := by
  have steps := abs_sub_significand_lt near
  have apart := neg_abs_le ((n : ℚ) / d / 2 ^ ((scale rank : ℤ) - 1074) - significand rank)
  have bounds := binaryExponent_bounds_in positive divisible ((scale rank : ℤ) - 1074)
  unfold unitOf at smaller ⊢
  have leading : 2 ^ 52 ≤ significand rank := le_significand_of_scale_pos (by omega)
  have large : (2 : ℚ) ^ 52 ≤ significand rank := by exact_mod_cast leading
  have below : (n : ℚ) / d / 2 ^ ((scale rank : ℤ) - 1074) < 2 ^ (52 : ℤ) := by
    refine lt_of_lt_of_le bounds.2 ?_
    apply zpow_le_zpow_right₀ (by norm_num)
    omega
  norm_num at below
  have least : significand rank = 2 ^ 52 := by
    have next : (significand rank : ℚ) < 2 ^ 52 + 1 := by linarith
    have next : significand rank < 2 ^ 52 + 1 := by exact_mod_cast next
    omega
  have above : (2 : ℚ) ^ (51 : ℤ) < 2 ^ (binaryExponent n d + 1 - ((scale rank : ℤ) - 1074)) := by
    refine lt_of_le_of_lt ?_ bounds.2
    norm_num
    linarith
  have exponent := (zpow_lt_zpow_iff_right₀ (by norm_num)).mp above
  exact ⟨by omega, least⟩

end Near

/-- A quotient closer to a double than one part in `2 ^ 54` is rounded to it. -/
theorem nearestRank_of_near {n d rank : Nat} (divisible : 0 < d)
    (near : 2 ^ 54 * |(n : ℚ) / d - magnitude rank| < magnitude rank) : nearestRank n d = rank := by
  have positive : 0 < n := by
    rcases Nat.eq_zero_or_pos n with rfl | positive
    · rw [Nat.cast_zero, zero_div, zero_sub, abs_neg] at near
      linarith [le_abs_self (magnitude rank), abs_nonneg (magnitude rank)]
    · exact positive
  have parts := rank_eq rank
  have steps := abs_sub_significand_lt near
  rcases Int.lt_or_eq_of_le (unitOf_le_of_near positive divisible near) with smaller | same
  · obtain ⟨half, least⟩ := unitOf_eq_of_near positive divisible near smaller
    obtain ⟨units, count⟩ : ∃ units, scale rank = units + 1 := by
      refine Nat.exists_eq_succ_of_ne_zero fun zero => ?_
      unfold unitOf at smaller
      omega
    have twice : (n : ℚ) / d / 2 ^ unitOf n d = 2 * (n / d / 2 ^ ((scale rank : ℤ) - 1074)) := by
      rw [half, show (scale rank : ℤ) - 1075 = scale rank - 1074 - 1 by omega,
        zpow_sub_one₀ (by norm_num)]
      field_simp
    have close : |(n : ℚ) / d / 2 ^ unitOf n d - (2 ^ 53 : Nat)| < 1 / 2 := by
      have whole : ((2 ^ 53 : Nat) : ℚ) = 2 * (2 ^ 52 : Nat) := by norm_num
      have large : ((2 ^ 52 : Nat) : ℚ) = 2 ^ 52 := by norm_num
      rw [least] at steps
      rw [twice, whole, ← mul_sub, abs_mul, abs_two]
      linarith
    rw [nearestRank_of_steps positive divisible close, half, count,
      show ((units + 1 : Nat) : ℤ) - 1075 + 1074 = units by omega, Int.toNat_natCast]
    rw [count, least] at parts
    linarith
  · rw [nearestRank_of_steps (m := significand rank) positive divisible, same]
    · rw [Int.sub_add_cancel, Int.toNat_natCast, parts]
    · have small : (significand rank : ℚ) < 2 ^ 53 := by exact_mod_cast significand_lt rank
      rw [same]
      linarith

end Double

end CachedStore
