import Mathlib.Tactic.SplitIfs
import CachedStore.Time.TimestampReader

/-!
The text of a timestamp on the calendar reads back to the same timestamp.
-/

namespace CachedStore

namespace Timestamp

/-! Digits -/

theorem isDigit_iff (c : Char) : isDigit c = true ↔ 48 ≤ c.toNat ∧ c.toNat ≤ 57 := by
  simp only [isDigit, Bool.and_eq_true, decide_eq_true_eq]
  exact Iff.rfl

theorem isDigit_of_mem_padded {width value : Nat} {c : Char} (member : c ∈ padded width value) :
    isDigit c = true := by
  rcases List.mem_append.mp member with zero | digit
  · obtain rfl := (List.mem_replicate.mp zero).2
    rfl
  · exact Nat.isDigit_of_mem_toDigits (by omega) (by omega) digit

theorem digitsValue_eq (digits : List Char) :
    digitsValue digits = Nat.ofDigitChars 10 digits 0 := by
  rw [digitsValue, Nat.ofDigitChars_eq_foldl]
  congr 1
  funext value digit
  rw [Nat.mul_comm]
  rfl

theorem digitsValue_padded (width value : Nat) : digitsValue (padded width value) = value := by
  rw [digitsValue_eq, padded, Nat.ofDigitChars_append, Nat.ofDigitChars_replicate_zero,
    Nat.mul_zero, Nat.ofDigitChars_ten_toDigits]

theorem length_padded {width value : Nat} (positive : 0 < width) (small : value < 10 ^ width) :
    (padded width value).length = width := by
  have short := (Nat.length_toDigits_le_iff (by omega) positive).mpr small
  rw [padded, List.length_append, List.length_replicate]
  omega

theorem padded_ne_nil (width value : Nat) : padded width value ≠ [] := by
  have digits : 0 < (Nat.toDigits 10 value).length := Nat.length_toDigits_pos
  intro empty
  have none := congrArg List.length empty
  rw [padded, List.length_append, List.length_nil] at none
  omega

theorem takeWhile_isDigit_append {digits rest : List Char}
    (all : ∀ c ∈ digits, isDigit c = true) (stops : rest.takeWhile isDigit = []) :
    (digits ++ rest).takeWhile isDigit = digits := by
  rw [List.takeWhile_append_of_pos all, stops, List.append_nil]

theorem takeWhile_take_nil {rest : List Char} (stops : rest.takeWhile isDigit = []) (count : Nat) :
    (rest.take count).takeWhile isDigit = [] := by
  cases rest with
  | nil => rw [List.take_nil, List.takeWhile_nil]
  | cons first others =>
      have other : ¬ isDigit first = true := by
        intro digit
        rw [List.takeWhile_cons_of_pos digit] at stops
        simp at stops
      cases count with
      | zero => rfl
      | succ count => exact List.takeWhile_cons_of_neg other

theorem readDigits_append {digits rest : List Char} {least most : Nat}
    (all : ∀ c ∈ digits, isDigit c = true) (enough : least ≤ digits.length)
    (few : digits.length ≤ most) (stops : rest.takeWhile isDigit = []) :
    readDigits least most (digits ++ rest) = some (digitsValue digits, rest) := by
  have kept : ((digits ++ rest).take most).takeWhile isDigit = digits := by
    rw [List.take_append, List.take_of_length_le few]
    refine takeWhile_isDigit_append all ?_
    exact takeWhile_take_nil stops (most - digits.length)
  simp only [readDigits, kept, enough, ↓reduceIte, List.drop_left]

theorem skipBlanks_padded_append (width value : Nat) (rest : List Char) :
    skipBlanks (padded width value ++ rest) = padded width value ++ rest := by
  cases written : padded width value with
  | nil => exact absurd written (padded_ne_nil width value)
  | cons first others =>
      have digit : isDigit first = true :=
        isDigit_of_mem_padded (written ▸ List.mem_cons_self)
      obtain ⟨low, high⟩ := (isDigit_iff first).mp digit
      have shown : Text.isBlank first = false := by
        simp only [Text.isBlank, Bool.or_eq_false_iff, Bool.and_eq_false_iff,
          decide_eq_false_iff_not, beq_eq_false_iff_ne]
        omega
      rw [skipBlanks, List.cons_append, List.dropWhile_cons_of_neg (by simp [shown])]

/-! Parts -/

theorem readPart_padded {low high value : Nat} {rest : List Char} (above : low ≤ value)
    (below : value ≤ high) (small : value < 100) (stops : rest.takeWhile isDigit = []) :
    readPart low high (padded 2 value ++ rest) = some (value, rest) := by
  have length : (padded 2 value).length = 2 := length_padded (by omega) small
  rw [readPart, skipBlanks_padded_append, readDigits_append (fun _ => isDigit_of_mem_padded)
    (by omega) (by omega) stops, digitsValue_padded]
  simp [within, above, below]

theorem expectSpaced_cons {mark : Char} (shown : Text.isBlank mark = false) (rest : List Char) :
    expectSpaced mark (mark :: rest) = some rest := by
  rw [expectSpaced, skipBlanks, List.dropWhile_cons_of_neg (by simp [shown])]
  simp [expect]

theorem readYear_of_digits {digits rest : List Char} (all : ∀ c ∈ digits, isDigit c = true)
    (nonempty : 1 ≤ digits.length) (few : digits.length ≤ 4) (stops : rest.takeWhile isDigit = [])
    (shown : skipBlanks (digits ++ rest) = digits ++ rest) :
    readYear (digits ++ rest) = some ((digitsValue digits : Int), rest) := by
  have read := readDigits_append all nonempty few stops
  cases digits with
  | nil => simp at nonempty
  | cons first others =>
      have digit := (isDigit_iff first).mp (all first List.mem_cons_self)
      have minus : first ≠ '-' := by
        rintro rfl
        exact absurd digit.1 (by decide)
      have plus : first ≠ '+' := by
        rintro rfl
        exact absurd digit.1 (by decide)
      rw [readYear, shown]
      simp only [List.cons_append] at read ⊢
      split
      · rename_i same
        exact absurd (List.cons.inj same).1 minus
      · rename_i same
        exact absurd (List.cons.inj same).1 plus
      · rw [read]
        rfl

theorem readYear_yearText {year : Int} {rest : List Char} (stops : rest.takeWhile isDigit = []) :
    readYear (yearText year ++ rest) = some (year, rest) := by
  by_cases plain : 0 ≤ year ∧ year ≤ 9999
  · have length : (padded 4 year.toNat).length = 4 := length_padded (by omega) (by omega)
    rw [yearText, if_pos plain, readYear_of_digits (fun _ => isDigit_of_mem_padded) (by omega)
      (by omega) stops (skipBlanks_padded_append _ _ _), digitsValue_padded,
      Int.toNat_of_nonneg plain.1]
  · have digits : 0 < (padded 4 year.natAbs).length :=
      List.length_pos_iff.mpr (padded_ne_nil _ _)
    have read : readDigits 1 (padded 4 year.natAbs ++ rest).length
        (padded 4 year.natAbs ++ rest) = some (year.natAbs, rest) := by
      rw [readDigits_append (fun _ => isDigit_of_mem_padded) digits
        (by rw [List.length_append]; omega) stops, digitsValue_padded]
    rw [yearText, if_neg plain]
    by_cases negative : year < 0
    · rw [if_pos negative, List.cons_append, readYear, skipBlanks,
        List.dropWhile_cons_of_neg (by decide)]
      simp only [read, Option.map_some]
      have value : -(year.natAbs : Int) = year := by omega
      rw [value]
    · rw [if_neg negative, List.cons_append, readYear, skipBlanks,
        List.dropWhile_cons_of_neg (by decide)]
      simp only [read, Option.map_some]
      have value : (year.natAbs : Int) = year := by omega
      rw [value]

theorem readFraction_padded {width value : Nat} {rest : List Char} (positive : 0 < width)
    (short : width ≤ 9) (small : value < 10 ^ width) (stops : rest.takeWhile isDigit = []) :
    readFraction ('.' :: (padded width value ++ rest)) =
      some (value * 10 ^ (9 - width), rest) := by
  have length := length_padded positive small
  have digits : (padded width value ++ rest).takeWhile isDigit = padded width value :=
    takeWhile_isDigit_append (fun _ => isDigit_of_mem_padded) stops
  have kept : (padded width value).take 9 = padded width value :=
    List.take_of_length_le (by omega)
  simp only [readFraction, digits, padded_ne_nil, ↓reduceIte, kept, digitsValue_padded, length]
  rw [List.drop_left' length]

theorem readFraction_fractionText {nanosecond : Nat} (small : nanosecond < 1000000000) :
    readFraction (fractionText nanosecond ++ ['Z']) = some (nanosecond, ['Z']) := by
  unfold fractionText
  split_ifs with zero millis micros
  · subst zero
    rfl
  · rw [List.cons_append, readFraction_padded (by omega) (by omega) (by omega) rfl]
    congr 2
    omega
  · rw [List.cons_append, readFraction_padded (by omega) (by omega) (by omega) rfl]
    congr 2
    omega
  · rw [List.cons_append, readFraction_padded (by omega) (by omega) (by omega) rfl]
    simp

/-! Readings -/

theorem ofLocal_zero {reading : Timestamp} (hour : reading.hour < 24)
    (minute : reading.minute < 60) : reading.ofLocal 0 = reading := by
  have minutes : ((reading.hour : Int) * 60 + reading.minute - 0) =
      ((reading.hour * 60 + reading.minute : Nat) : Int) := by omega
  have below : reading.hour * 60 + reading.minute < 1440 := by omega
  have low : ¬ ((reading.hour * 60 + reading.minute : Nat) : Int) < 0 := by omega
  have high : ¬ 1440 ≤ ((reading.hour * 60 + reading.minute : Nat) : Int) := by omega
  have ofDay : (((reading.hour * 60 + reading.minute : Nat) : Int) % 1440).toNat =
      reading.hour * 60 + reading.minute := by omega
  have hours : (reading.hour * 60 + reading.minute) / 60 = reading.hour := by omega
  have rest : (reading.hour * 60 + reading.minute) % 60 = reading.minute := by omega
  rw [ofLocal]
  simp only [minutes, low, high, ↓reduceIte, ofDay, hours, rest]

theorem inUtc?_zero {reading : Timestamp} (valid : reading.IsValid) :
    inUtc? reading 0 = some reading := by
  obtain ⟨year, _, _, _, _, hour, minute, _, _⟩ := id valid
  simp only [inUtc?, ofLocal_zero hour minute, valid, year, and_self, ↓reduceIte]

theorem takeWhile_isDigit_fractionText (nanosecond : Nat) :
    (fractionText nanosecond ++ ['Z']).takeWhile isDigit = [] := by
  unfold fractionText
  split_ifs <;> rfl

theorem parse?_text {reading : Timestamp} (valid : reading.IsValid) :
    parse? reading.text = some reading := by
  obtain ⟨_, low, months, first, days, hour, minute, second, nanosecond⟩ := id valid
  have monthLength : daysInMonth reading.year reading.month ≤ 31 := by
    unfold daysInMonth
    split_ifs <;> omega
  have readsYear : ∀ rest, readYear (yearText reading.year ++ '-' :: rest) =
      some (reading.year, '-' :: rest) := fun _ => readYear_yearText rfl
  have readsMonth : ∀ rest, readPart 1 12 (padded 2 reading.month ++ '-' :: rest) =
      some (reading.month, '-' :: rest) := fun _ => readPart_padded low months (by omega) rfl
  have readsDay : ∀ rest, readPart 1 31 (padded 2 reading.day ++ 'T' :: rest) =
      some (reading.day, 'T' :: rest) := fun _ =>
    readPart_padded first (by omega) (by omega) rfl
  have readsHour : ∀ rest, readPart 0 23 (padded 2 reading.hour ++ ':' :: rest) =
      some (reading.hour, ':' :: rest) := fun _ =>
    readPart_padded (Nat.zero_le _) (by omega) (by omega) rfl
  have readsMinute : ∀ rest, readPart 0 59 (padded 2 reading.minute ++ ':' :: rest) =
      some (reading.minute, ':' :: rest) := fun _ =>
    readPart_padded (Nat.zero_le _) (by omega) (by omega) rfl
  have readsSecond : readPart 0 60 (padded 2 reading.second ++
      (fractionText reading.nanosecond ++ ['Z'])) =
      some (reading.second, fractionText reading.nanosecond ++ ['Z']) :=
    readPart_padded (Nat.zero_le _) second (by omega) (takeWhile_isDigit_fractionText _)
  have dash : ∀ rest, expectSpaced '-' ('-' :: rest) = some rest := expectSpaced_cons rfl
  have colon : ∀ rest, expectSpaced ':' (':' :: rest) = some rest := expectSpaced_cons rfl
  have zone : readLenientZone (skipBlanks ['Z']) = some (0, []) := by decide
  have blank : skipBlanks [] = [] := rfl
  simp only [parse?, text, zonelessText, String.toList_ofList, List.append_assoc, List.cons_append,
    Option.bind_eq_bind, Option.bind_some, readsYear, readsMonth, readsDay,
    readsHour, readsMinute, readsSecond, dash, colon, readSeparator,
    readFraction_fractionText nanosecond, zone, blank, ↓reduceIte, inUtc?_zero valid]

example : (⟨-44, 3, 15, 12, 0, 0, 500000⟩ : Timestamp).text = "-0044-03-15T12:00:00.000500Z" := by
  decide

end Timestamp

end CachedStore
