import Mathlib.Data.List.DropRight
import CachedStore.Json.Printer
import CachedStore.Proofs.Number.Nearest

/-!
The shortest text of a double. Among the two decimals of 17 digits next to a double one is so close
that it reads back, so that the search for the shortest one always ends with a decimal that does.
The text of a number begins with a digit or a minus sign.
-/

namespace CachedStore

namespace Double

/-! Grids of decimals -/

theorem le_of_digitCount {value : Nat} (positive : 0 < value) :
    10 ^ (digitCount value - 1) ≤ value := by
  rcases Nat.eq_zero_or_pos (digitCount value - 1) with none | some
  · rw [none]
    omega
  · by_contra less
    have shorter : digitCount value ≤ digitCount value - 1 :=
      (Nat.length_toDigits_le_iff (by omega) some).mpr (Nat.lt_of_not_le less)
    omega

theorem lt_pow_digitCount (value : Nat) : value < 10 ^ digitCount value :=
  (Nat.length_toDigits_le_iff (by omega) Nat.length_toDigits_pos).mp (Nat.le_refl _)

theorem decimalExponent_le {n d : Nat} (positive : 0 < n) (divisible : 0 < d) :
    (10 : ℚ) ^ decimalExponent n d ≤ n / d := by
  have unit : (0 : ℚ) < d := by exact_mod_cast divisible
  rw [le_div_iff₀ unit]
  unfold decimalExponent
  split
  · rename_i large
    have whole := Nat.div_pos large divisible
    have digits : 0 < digitCount (n / d) := Nat.length_toDigits_pos
    have below : 10 ^ (digitCount (n / d) - 1) * d ≤ n :=
      (Nat.mul_le_mul_right d (le_of_digitCount whole)).trans (Nat.div_mul_le_self n d)
    rw [show (digitCount (n / d) : ℤ) - 1 = (digitCount (n / d) - 1 : Nat) by omega, zpow_natCast]
    exact_mod_cast below
  · have above := lt_pow_digitCount ((d - 1) / n)
    rw [Nat.div_lt_iff_lt_mul positive] at above
    have reached : d ≤ 10 ^ digitCount ((d - 1) / n) * n := by omega
    rw [zpow_neg, zpow_natCast, inv_mul_le_iff₀ (by positivity)]
    exact_mod_cast reached

theorem abs_roundHalfEven_sub (n : Nat) {d : Nat} (divisible : 0 < d) :
    2 * |(roundHalfEven n d : ℚ) - n / d| ≤ 1 := by
  have unit : (0 : ℚ) < d := by exact_mod_cast divisible
  obtain ⟨high, low⟩ := roundHalfEven_near n divisible
  have high : (2 * n : ℚ) ≤ 2 * (d * roundHalfEven n d) + d := by exact_mod_cast high
  have low : (2 * (d * roundHalfEven n d) : ℚ) ≤ 2 * n + d := by exact_mod_cast low
  have scaled : (n : ℚ) / d * d = n := div_mul_cancel₀ _ unit.ne'
  rw [mul_comm, ← le_div_iff₀ (by norm_num), abs_le]
  constructor <;> nlinarith

def neighbours (n d : Nat) (exponent : ℤ) : List Decimal :=
  if roundHalfEven n d = n / d then [⟨n / d, exponent⟩, ⟨n / d + 1, exponent⟩]
  else [⟨n / d + 1, exponent⟩, ⟨n / d, exponent⟩]

theorem gridNeighbours_eq (n d : Nat) (exponent : ℤ) :
    gridNeighbours n d exponent =
      if 0 ≤ exponent then neighbours n (d * 10 ^ exponent.toNat) exponent
      else neighbours (n * 10 ^ (-exponent).toNat) d exponent := by
  by_cases whole : 0 ≤ exponent
  · simp only [gridNeighbours, if_pos whole]
    rfl
  · simp only [gridNeighbours, if_neg whole]
    rfl

theorem head?_neighbours (n d : Nat) (exponent : ℤ) :
    (neighbours n d exponent).head? = some ⟨roundHalfEven n d, exponent⟩ := by
  have low := div_le_roundHalfEven n d
  have high := roundHalfEven_le n d
  unfold neighbours
  split
  · rename_i same
    rw [same]
    rfl
  · have next : roundHalfEven n d = n / d + 1 := by omega
    rw [next]
    rfl

theorem head?_gridNeighbours (n : Nat) {d : Nat} (divisible : 0 < d) (exponent : ℤ) :
    ∃ digits : Nat, (gridNeighbours n d exponent).head? = some ⟨digits, exponent⟩ ∧
      2 * |(digits : ℚ) - n / d / 10 ^ exponent| ≤ 1 := by
  have scaled := div_zpow 10 n d exponent
  rw [Nat.cast_ofNat] at scaled
  rw [gridNeighbours_eq, scaled]
  split
  · exact ⟨_, head?_neighbours _ _ _, abs_roundHalfEven_sub n (by positivity)⟩
  · exact ⟨_, head?_neighbours _ _ _, abs_roundHalfEven_sub _ divisible⟩

namespace Decimal

theorem rank_eq (point : Decimal) :
    point.rank = nearestRank point.fraction.1 point.fraction.2 := rfl

theorem fraction_eq (point : Decimal) :
    (point.fraction.1 : ℚ) / point.fraction.2 = point.digits * 10 ^ point.exponent := by
  unfold fraction
  split
  · rename_i whole
    obtain ⟨count, same⟩ := Int.eq_ofNat_of_zero_le whole
    rw [same, Int.toNat_natCast, zpow_natCast]
    push_cast
    exact div_one _
  · rename_i part
    obtain ⟨count, same⟩ := Int.eq_ofNat_of_zero_le (show 0 ≤ -point.exponent by omega)
    rw [same, Int.toNat_natCast, show point.exponent = -(count : ℤ) by omega, zpow_neg,
      zpow_natCast]
    push_cast
    rfl

theorem fraction_pos (point : Decimal) : 0 < point.fraction.2 := by
  unfold fraction
  split
  · exact Nat.one_pos
  · exact Nat.pow_pos (by omega)

end Decimal

theorem fraction_pos (rank : Nat) : 0 < (fraction rank).2 := by
  unfold fraction
  split
  · exact Nat.one_pos
  · exact Nat.two_pow_pos _

theorem significand_pos {rank : Nat} (positive : rank ≠ 0) : 0 < significand rank := by
  unfold significand
  split <;> omega

theorem numerator_pos {rank : Nat} (positive : rank ≠ 0) : 0 < (fraction rank).1 := by
  have digits := significand_pos positive
  unfold fraction
  split
  · exact Nat.mul_pos digits (Nat.two_pow_pos _)
  · exact digits

theorem rank_of_close {rank : Nat} {point : Decimal} (positive : rank ≠ 0)
    (fine : decimalExponent (fraction rank).1 (fraction rank).2 = point.exponent + 16)
    (close : 2 * |(point.digits : ℚ) - (fraction rank).1 / (fraction rank).2 / 10 ^ point.exponent|
      ≤ 1) :
    point.rank = rank := by
  have least := decimalExponent_le (numerator_pos positive) (fraction_pos rank)
  have step : (0 : ℚ) < 10 ^ point.exponent := by positivity
  rw [fraction_eq_magnitude] at least close
  have large : 10 ^ point.exponent * 10 ^ 16 ≤ magnitude rank := by
    rw [fine, zpow_add₀ (by norm_num)] at least
    exact_mod_cast least
  have apart : (point.fraction.1 : ℚ) / point.fraction.2 - magnitude rank =
      (point.digits - magnitude rank / 10 ^ point.exponent) * 10 ^ point.exponent := by
    rw [point.fraction_eq, sub_mul, div_mul_cancel₀ _ step.ne']
  rw [point.rank_eq]
  refine nearestRank_of_near point.fraction_pos ?_
  rw [apart, abs_mul, abs_of_pos step]
  nlinarith

theorem searchShortest_reads {rank : Nat} (positive : rank ≠ 0) {rounds count : Nat}
    (left : 0 < rounds) (last : rounds + count = 18) :
    (searchShortest rank (fraction rank).1 (fraction rank).2
      (decimalExponent (fraction rank).1 (fraction rank).2) rounds count).rank = rank := by
  induction rounds generalizing count with
  | zero => omega
  | succ rounds ih =>
      unfold searchShortest
      split
      · rename_i point found
        have same := List.find?_some found
        exact eq_of_beq same
      · rename_i missed
        refine ih ?_ (by omega)
        -- Otherwise this is the grid of 17 digits, whose first neighbour reads back.
        by_contra spent
        obtain ⟨digits, first, close⟩ := head?_gridNeighbours (fraction rank).1
          (fraction_pos rank) (decimalExponent (fraction rank).1 (fraction rank).2 - count + 1)
        have fine : decimalExponent (fraction rank).1 (fraction rank).2 =
            decimalExponent (fraction rank).1 (fraction rank).2 - count + 1 + 16 := by omega
        have reads : (Decimal.mk digits _).rank = rank := rank_of_close positive fine close
        have tried := List.find?_eq_none.mp missed _ (List.mem_of_head? first)
        simp [reads] at tried

/-- The shortest decimal of a double reads back as the double. -/
theorem rank_shortest {rank : Nat} (positive : rank ≠ 0) : (shortest rank).rank = rank :=
  searchShortest_reads positive (by omega) rfl

theorem digits_shortest {rank : Nat} (positive : rank ≠ 0) : (shortest rank).digits ≠ 0 := by
  intro zero
  have reads := rank_shortest positive
  have nothing : (shortest rank).fraction.1 = 0 := by
    unfold Decimal.fraction
    split <;> simp [zero]
  rw [Decimal.rank_eq, nothing] at reads
  exact positive reads.symm

/-! Texts of numbers -/

theorem digitChar_ne_zero : ∀ value < 10, value ≠ 0 → Nat.digitChar value ≠ '0' := by decide

theorem exists_nonzero_digit {value : Nat} (positive : value ≠ 0) :
    ∃ digit ∈ Nat.toDigits 10 value, digit ≠ '0' := by
  induction value using Nat.strongRecOn with
  | ind value ih =>
      rw [Nat.toDigits_eq_if (by omega)]
      split
      · rename_i small
        exact ⟨_, List.mem_singleton_self _, digitChar_ne_zero value small positive⟩
      · obtain ⟨digit, member, nonzero⟩ := ih (value / 10) (by omega) (by omega)
        exact ⟨digit, List.mem_append_left _ member, nonzero⟩

theorem trimZeros_eq (digits : List Char) : trimZeros digits = digits.rdropWhile (· == '0') := rfl

theorem exists_digit_trimZeros {value : Nat} (positive : value ≠ 0) :
    ∃ digit rest, trimZeros (Nat.toDigits 10 value) = digit :: rest ∧ digit.isDigit = true := by
  rw [trimZeros_eq]
  cases trimmed : (Nat.toDigits 10 value).rdropWhile (· == '0') with
  | nil =>
      obtain ⟨digit, member, nonzero⟩ := exists_nonzero_digit positive
      exact absurd (eq_of_beq (List.rdropWhile_eq_nil_iff.mp trimmed digit member)) nonzero
  | cons digit rest =>
      have member : digit ∈ Nat.toDigits 10 value :=
        (List.rdropWhile_prefix (· == '0') _).subset (trimmed ▸ List.mem_cons_self)
      exact ⟨digit, rest, rfl, Nat.isDigit_of_mem_toDigits (by omega) (by omega) member⟩

theorem layout_eq_cons {digit : Char} (digits : List Char) (point : ℤ)
    (isDigit : digit.isDigit = true) :
    ∃ first rest, layout (digit :: digits) point = first :: rest ∧ first.isDigit = true := by
  simp only [layout]
  split
  · exact ⟨digit, _, rfl, isDigit⟩
  · split
    · rename_i inside
      obtain ⟨places, count⟩ : ∃ places, point.toNat = places + 1 :=
        Nat.exists_eq_succ_of_ne_zero (by omega)
      rw [count]
      exact ⟨digit, _, rfl, isDigit⟩
    · split
      · exact ⟨'0', _, rfl, by decide⟩
      · cases digits with
        | nil => exact ⟨digit, _, rfl, isDigit⟩
        | cons second others => exact ⟨digit, _, rfl, isDigit⟩

theorem magnitudeText_eq_cons (rank : Nat) :
    ∃ first rest, magnitudeText rank = first :: rest ∧ first.isDigit = true := by
  unfold magnitudeText
  split
  · exact ⟨'0', _, rfl, by decide⟩
  · rename_i positive
    obtain ⟨digit, digits, written, isDigit⟩ := exists_digit_trimZeros (digits_shortest positive)
    simp only [written]
    exact layout_eq_cons _ _ isDigit

end Double

def beginsNumber (c : Char) : Bool := c == '-' || c.isDigit

theorem Double.text_eq_ofList_cons (x : Double) :
    ∃ first rest, x.text = String.ofList (first :: rest) ∧ beginsNumber first = true := by
  obtain ⟨first, rest, written, isDigit⟩ := magnitudeText_eq_cons x.rank
  unfold text
  split
  · exact ⟨'-', _, rfl, rfl⟩
  · exact ⟨first, rest, by rw [written], by simp [beginsNumber, isDigit]⟩

theorem toString_eq_ofList_cons (value : ℤ) :
    ∃ first rest, toString value = String.ofList (first :: rest) ∧ beginsNumber first = true := by
  cases value with
  | ofNat magnitude =>
      cases written : Nat.toDigits 10 magnitude with
      | nil => exact absurd written Nat.toDigits_ne_nil
      | cons first rest =>
          have isDigit := Nat.isDigit_of_mem_toDigits (b := 10) (by omega) (by omega)
            (written ▸ List.mem_cons_self (a := first) (l := rest))
          exact ⟨first, rest, congrArg String.ofList written, by simp [beginsNumber, isDigit]⟩
  | negSucc magnitude =>
      refine ⟨'-', Nat.toDigits 10 (magnitude + 1), ?_, rfl⟩
      change "-" ++ String.ofList (Nat.toDigits 10 (magnitude + 1)) = _
      rw [← String.toList_inj]
      simp only [String.toList_append, String.toList_ofList]
      rfl

theorem Number.text_eq_ofList_cons (number : Number) :
    ∃ first rest, number.text = String.ofList (first :: rest) ∧ beginsNumber first = true := by
  cases number with
  | integer value => exact toString_eq_ofList_cons value
  | double value => exact value.text_eq_ofList_cons

end CachedStore
