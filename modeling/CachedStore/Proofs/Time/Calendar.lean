import Mathlib.Tactic.SplitIfs
import CachedStore.Time.TimestampReader

/-!
What is read of a timestamp's text is on the calendar, whatever its zone: the shift to UTC leads
from one day to a day beside it, and the reader refuses those beyond the last year.
-/

namespace CachedStore

namespace Timestamp

variable {reading : Timestamp}

theorem one_le_daysInMonth (year : Int) (month : Nat) : 1 ≤ daysInMonth year month := by
  unfold daysInMonth
  split_ifs <;> omega

/-- Every part is within its range, but the year may be one that the calendar does not cover. -/
def InRange (reading : Timestamp) : Prop :=
  1 ≤ reading.month ∧ reading.month ≤ 12 ∧
  1 ≤ reading.day ∧ reading.day ≤ daysInMonth reading.year reading.month ∧
  reading.hour < 24 ∧ reading.minute < 60 ∧ reading.second ≤ 60 ∧
  reading.nanosecond < 1000000000

theorem inRange_nextDay (proper : reading.InRange) : reading.nextDay.InRange := by
  obtain ⟨firstMonth, lastMonth, firstDay, lastDay, time⟩ := proper
  have nonempty := one_le_daysInMonth reading.year (reading.month + 1)
  have january := one_le_daysInMonth (reading.year + 1) 1
  unfold nextDay
  split_ifs with within year
  · exact ⟨firstMonth, lastMonth, Nat.le_add_left 1 _, within, time⟩
  · exact ⟨Nat.le_add_left 1 _, year, Nat.le_refl 1, nonempty, time⟩
  · exact ⟨Nat.le_refl 1, Nat.le_add_left 1 11, Nat.le_refl 1, january, time⟩

theorem inRange_previousDay (proper : reading.InRange) : reading.previousDay.InRange := by
  obtain ⟨firstMonth, lastMonth, firstDay, lastDay, time⟩ := proper
  have nonempty := one_le_daysInMonth reading.year (reading.month - 1)
  unfold previousDay
  split_ifs with within year
  · refine ⟨firstMonth, lastMonth, ?_, ?_, time⟩ <;> dsimp only <;> omega
  · refine ⟨?_, ?_, nonempty, Nat.le_refl _, time⟩ <;> dsimp only <;> omega
  · exact ⟨Nat.le_add_left 1 11, Nat.le_refl 12, Nat.le_add_left 1 30, Nat.le_refl 31, time⟩

theorem inRange_ofLocal (proper : reading.InRange) (offset : Int) :
    (reading.ofLocal offset).InRange := by
  have shifted : ∀ date : Timestamp, date.InRange → ∀ ofDay < 1440,
      InRange { date with hour := ofDay / 60, minute := ofDay % 60 } := by
    rintro date ⟨firstMonth, lastMonth, firstDay, lastDay, _, _, rest⟩ ofDay day
    refine ⟨firstMonth, lastMonth, firstDay, lastDay, ?_, ?_, rest⟩ <;> dsimp only <;> omega
  unfold ofLocal
  refine shifted _ ?_ _ (by omega)
  split_ifs
  · exact inRange_previousDay proper
  · exact inRange_nextDay proper
  · exact proper

theorem isValid_of_inUtc? {offset : Int} {time : Timestamp}
    (read : reading.inUtc? offset = some time) : time.IsValid := by
  unfold inUtc? at read
  dsimp only at read
  split_ifs at read with covered
  obtain rfl := Option.some.inj read
  exact ⟨covered.2, inRange_ofLocal covered.1.2 offset⟩

theorem isValid_of_parse? {text : String} {time : Timestamp} (read : parse? text = some time) :
    time.IsValid := by
  simp only [parse?, Option.bind_eq_bind, Option.bind_eq_some_iff] at read
  obtain ⟨year, _, _, _, month, _, _, _, day, _, _, _, hour, _, _, _, minute, _, _, _, second, _,
    nanosecond, _, zone, _, last⟩ := read
  split_ifs at last
  exact isValid_of_inUtc? last

end Timestamp

end CachedStore
