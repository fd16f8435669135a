/-!
Wall-clock readings in UTC, by the proleptic Gregorian calendar, and their text: year to seconds,
then the fraction in 0, 3, 6 or 9 digits, whichever is the shortest exact form.
-/

namespace CachedStore

/-- A reading in UTC. The second 60 is a leap second and may end any minute. -/
structure Timestamp where
  year : Int
  month : Nat
  day : Nat
  hour : Nat
  minute : Nat
  second : Nat
  nanosecond : Nat
deriving DecidableEq, Repr, Inhabited

namespace Timestamp

def isLeapYear (year : Int) : Bool :=
  year % 4 == 0 && (year % 100 != 0 || year % 400 == 0)

def daysInMonth (year : Int) (month : Nat) : Nat :=
  if month = 2 then (if isLeapYear year then 29 else 28)
  else if month = 4 ∨ month = 6 ∨ month = 9 ∨ month = 11 then 30
  else 31

def isCoveredYear (year : Int) : Bool := -262143 ≤ year && year ≤ 262142

def IsValid (reading : Timestamp) : Prop :=
  isCoveredYear reading.year = true ∧
  1 ≤ reading.month ∧ reading.month ≤ 12 ∧
  1 ≤ reading.day ∧ reading.day ≤ daysInMonth reading.year reading.month ∧
  reading.hour < 24 ∧ reading.minute < 60 ∧ reading.second ≤ 60 ∧
  reading.nanosecond < 1000000000

instance (reading : Timestamp) : Decidable reading.IsValid := by
  unfold IsValid
  infer_instance

def nextDay (reading : Timestamp) : Timestamp :=
  if reading.day < daysInMonth reading.year reading.month then
    { reading with day := reading.day + 1 }
  else if reading.month < 12 then { reading with month := reading.month + 1, day := 1 }
  else { reading with year := reading.year + 1, month := 1, day := 1 }

def previousDay (reading : Timestamp) : Timestamp :=
  if 1 < reading.day then { reading with day := reading.day - 1 }
  else if 1 < reading.month then
    { reading with
      month := reading.month - 1
      day := daysInMonth reading.year (reading.month - 1) }
  else { reading with year := reading.year - 1, month := 12, day := 31 }

/-- The UTC reading of a local one that runs `offset` minutes ahead, less than a day. -/
def ofLocal (reading : Timestamp) (offset : Int) : Timestamp :=
  let minutes : Int := reading.hour * 60 + reading.minute - offset
  let date :=
    if minutes < 0 then reading.previousDay
    else if 1440 ≤ minutes then reading.nextDay
    else reading
  let ofDay := (minutes % 1440).toNat
  { date with hour := ofDay / 60, minute := ofDay % 60 }

def padded (width value : Nat) : List Char :=
  let digits := Nat.toDigits 10 value
  List.replicate (width - digits.length) '0' ++ digits

/-- Four digits; a year that they do not cover has a sign. -/
def yearText (year : Int) : List Char :=
  if 0 ≤ year ∧ year ≤ 9999 then padded 4 year.toNat
  else (if year < 0 then '-' else '+') :: padded 4 year.natAbs

def fractionText (nanosecond : Nat) : List Char :=
  if nanosecond = 0 then []
  else if nanosecond % 1000000 = 0 then '.' :: padded 3 (nanosecond / 1000000)
  else if nanosecond % 1000 = 0 then '.' :: padded 6 (nanosecond / 1000)
  else '.' :: padded 9 nanosecond

def zonelessText (reading : Timestamp) : List Char :=
  yearText reading.year ++ '-' :: padded 2 reading.month ++ '-' :: padded 2 reading.day ++
    'T' :: padded 2 reading.hour ++ ':' :: padded 2 reading.minute ++
    ':' :: padded 2 reading.second ++ fractionText reading.nanosecond

def text (reading : Timestamp) : String := String.ofList (reading.zonelessText ++ ['Z'])

def offsetText (reading : Timestamp) : String :=
  String.ofList (reading.zonelessText ++ ['+', '0', '0', ':', '0', '0'])

end Timestamp

end CachedStore
