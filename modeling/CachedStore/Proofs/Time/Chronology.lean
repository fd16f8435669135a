import Mathlib.Data.Int.Order.Basic
import Mathlib.Data.Nat.Basic
import Mathlib.Order.Compare
import Mathlib.Order.Lattice
import Mathlib.Tactic.SplitIfs
import CachedStore.Time.Timestamp

/-!
Instants as counts: the days of the proleptic Gregorian calendar, the minutes of these days, and the
nanoseconds of a minute, among which a leap second has its own. Readings on the calendar are in the
order of their instants just as their parts are, the year first.
-/

namespace CachedStore

theorem compare_eq_then {α β : Type} [LinearOrder α] [LinearOrder β] {a b : α} {x y : β}
    {rest : Ordering} (less : a < b → x < y) (greater : b < a → y < x)
    (equal : a = b → compare x y = rest) : compare x y = (compare a b).then rest := by
  rcases lt_trichotomy a b with order | same | order
  · rw [compare_lt_iff_lt.mpr order, compare_lt_iff_lt.mpr (less order)]
    rfl
  · rw [compare_eq_iff_eq.mpr same, equal same]
    rfl
  · rw [compare_gt_iff_gt.mpr order, compare_gt_iff_gt.mpr (greater order)]
    rfl

theorem compare_eq_of_mono {α β : Type} [LinearOrder α] [LinearOrder β] {a b : α} {x y : β}
    (less : a < b → x < y) (greater : b < a → y < x) (equal : a = b → x = y) :
    compare x y = compare a b := by
  rw [compare_eq_then less greater fun same => compare_eq_iff_eq.mpr (equal same),
    Ordering.then_eq]

namespace Timestamp

/-! Days -/

/-- The days from the start of the year 0 to that of the given year. -/
def daysBeforeYear (year : Int) : Int :=
  365 * year + (year + 3) / 4 - (year + 99) / 100 + (year + 399) / 400

def daysOfMonths (year : Int) : Nat → Nat
  | 0 => 0
  | months + 1 => daysOfMonths year months + daysInMonth year (months + 1)

/-- The number of a day, the first one of the year 0 being 1. -/
def dayNumber (reading : Timestamp) : Int :=
  daysBeforeYear reading.year + daysOfMonths reading.year (reading.month - 1) + reading.day

theorem daysOfMonths_twelve (year : Int) :
    daysOfMonths year 12 = if isLeapYear year then 366 else 365 := by
  cases leap : isLeapYear year <;> simp [daysOfMonths, daysInMonth, leap]

theorem daysBeforeYear_succ (year : Int) :
    daysBeforeYear (year + 1) = daysBeforeYear year + daysOfMonths year 12 := by
  rw [daysOfMonths_twelve]
  simp only [daysBeforeYear, isLeapYear, Bool.and_eq_true, Bool.or_eq_true, beq_iff_eq,
    bne_iff_ne]
  split <;> omega

theorem daysBeforeYear_mono {year later : Int} (order : year ≤ later) :
    daysBeforeYear year ≤ daysBeforeYear later := by
  simp only [daysBeforeYear]
  omega

theorem daysOfMonths_mono (year : Int) {months more : Nat} (order : months ≤ more) :
    daysOfMonths year months ≤ daysOfMonths year more := by
  induction order with
  | refl => exact Nat.le_refl _
  | step _ ih => exact Nat.le_trans ih (Nat.le_add_right _ _)

theorem IsValid.dayOfYear_le {reading : Timestamp} (valid : reading.IsValid) :
    daysOfMonths reading.year (reading.month - 1) + reading.day ≤
      daysOfMonths reading.year reading.month := by
  obtain ⟨_, positive, _, _, within, _⟩ := valid
  obtain ⟨months, same⟩ : ∃ months, reading.month = months + 1 :=
    ⟨reading.month - 1, by omega⟩
  rw [same] at within ⊢
  rw [daysOfMonths, Nat.add_sub_cancel]
  omega

theorem compare_dayNumber {a b : Timestamp} (first : a.IsValid) (second : b.IsValid) :
    compare a.dayNumber b.dayNumber =
      (compare a.year b.year).then ((compare a.month b.month).then (compare a.day b.day)) := by
  -- A day of a smaller month or of a smaller year comes before the first day of the greater one.
  have earlierMonth : ∀ {a b : Timestamp}, a.IsValid → b.IsValid → a.year = b.year →
      a.month < b.month → a.dayNumber < b.dayNumber := by
    intro a b first second year order
    have ends := first.dayOfYear_le
    have later := daysOfMonths_mono b.year (Nat.le_sub_one_of_lt order)
    obtain ⟨_, _, _, begins, _⟩ := second
    rw [year] at ends
    rw [dayNumber, dayNumber, year]
    omega
  have earlierYear : ∀ {a b : Timestamp}, a.IsValid → b.IsValid → a.year < b.year →
      a.dayNumber < b.dayNumber := by
    intro a b first second order
    have ends := first.dayOfYear_le
    have whole := daysOfMonths_mono a.year first.2.2.1
    have next := daysBeforeYear_succ a.year
    have later := daysBeforeYear_mono (Int.add_one_le_of_lt order)
    obtain ⟨_, _, _, begins, _⟩ := second
    rw [dayNumber, dayNumber]
    omega
  refine compare_eq_then (earlierYear first second) (earlierYear second first) fun year => ?_
  refine compare_eq_then (earlierMonth first second year) (earlierMonth second first year.symm)
    fun month => ?_
  rw [dayNumber, dayNumber, year, month]
  exact compare_eq_of_mono (fun _ => by omega) (fun _ => by omega) fun _ => by omega

/-! Instants -/

/-- The minutes from the start of the day before the year 0. -/
def minuteNumber (reading : Timestamp) : Int :=
  (reading.dayNumber * 24 + reading.hour) * 60 + reading.minute

def nanosecondOfMinute (reading : Timestamp) : Nat :=
  reading.second * 1000000000 + reading.nanosecond

def compareInstants (a b : Timestamp) : Ordering :=
  (compare a.minuteNumber b.minuteNumber).then (compare a.nanosecondOfMinute b.nanosecondOfMinute)

def compareSeconds (a b : Timestamp) : Ordering :=
  (compare a.year b.year).then <| (compare a.month b.month).then <| (compare a.day b.day).then <|
    (compare a.hour b.hour).then <| (compare a.minute b.minute).then (compare a.second b.second)

theorem compareInstants_eq {a b : Timestamp} (first : a.IsValid) (second : b.IsValid) :
    compareInstants a b = (compareSeconds a b).then (compare a.nanosecond b.nanosecond) := by
  have days := compare_dayNumber first second
  obtain ⟨_, _, _, _, _, hour, minute, _, fraction⟩ := first
  obtain ⟨_, _, _, _, _, hourOther, minuteOther, _, fractionOther⟩ := second
  have minutes : compare a.minuteNumber b.minuteNumber =
      (compare a.dayNumber b.dayNumber).then
        ((compare a.hour b.hour).then (compare a.minute b.minute)) := by
    rw [minuteNumber, minuteNumber]
    refine compare_eq_then (fun _ => by omega) (fun _ => by omega) fun day => ?_
    refine compare_eq_then (fun _ => by omega) (fun _ => by omega) fun hour => ?_
    rw [day, hour]
    exact compare_eq_of_mono (fun _ => by omega) (fun _ => by omega) fun _ => by omega
  have nanoseconds : compare a.nanosecondOfMinute b.nanosecondOfMinute =
      (compare a.second b.second).then (compare a.nanosecond b.nanosecond) := by
    rw [nanosecondOfMinute, nanosecondOfMinute]
    refine compare_eq_then (fun _ => by omega) (fun _ => by omega) fun second => ?_
    rw [second]
    exact compare_eq_of_mono (fun _ => by omega) (fun _ => by omega) fun _ => by omega
  rw [compareInstants, minutes, nanoseconds, days, compareSeconds]
  simp only [Ordering.then_assoc]

end Timestamp

end CachedStore
