/-!
Spans of time, the instants of the monotonic clock, and the text of a span: its largest unit of
seconds, milliseconds, microseconds or nanoseconds, with a fraction as long as it is exact.
-/

namespace CachedStore

structure Duration where
  nanoseconds : Nat
deriving DecidableEq, Repr

namespace Duration

def ofSeconds (count : Nat) : Duration := ⟨count * 1000000000⟩

def ofMilliseconds (count : Nat) : Duration := ⟨count * 1000000⟩

def longest : Duration := ⟨(2 ^ 64 - 1) * 1000000000 + 999999999⟩

def isZero (span : Duration) : Bool := span.nanoseconds == 0

def fractionText (part places : Nat) : List Char :=
  let digits := Nat.toDigits 10 part
  let padded := List.replicate (places - digits.length) '0' ++ digits
  (padded.reverse.dropWhile (· == '0')).reverse

def inUnit (amount places : Nat) (unit : String) : String :=
  let whole := toString (amount / 10 ^ places)
  match fractionText (amount % 10 ^ places) places with
  | [] => whole ++ unit
  | digits => whole ++ "." ++ String.ofList digits ++ unit

def text (span : Duration) : String :=
  if 1000000000 ≤ span.nanoseconds then inUnit span.nanoseconds 9 "s"
  else if 1000000 ≤ span.nanoseconds then inUnit span.nanoseconds 6 "ms"
  else if 1000 ≤ span.nanoseconds then inUnit span.nanoseconds 3 "µs"
  else inUnit span.nanoseconds 0 "ns"

/-- The ticks of a millisecond that waiting for the span takes. -/
def ticks (span : Duration) : Nat := (span.nanoseconds + 999999) / 1000000

def longestPause : Duration := .ofSeconds (30 * 365 * 86400)

def pauseTicks (span : Duration) : Nat := min span.ticks longestPause.ticks

end Duration

/-- An instant of the monotonic clock, in nanoseconds since the clock's start. -/
structure Instant where
  nanoseconds : Nat
deriving DecidableEq, Repr

namespace Instant

instance : LE Instant := ⟨fun a b => a.nanoseconds ≤ b.nanoseconds⟩

instance (a b : Instant) : Decidable (a ≤ b) :=
  inferInstanceAs (Decidable (a.nanoseconds ≤ b.nanoseconds))

/-- The instant a span later, unless its seconds pass 63 bits. -/
def after? (start : Instant) (span : Duration) : Option Instant :=
  let later := start.nanoseconds + span.nanoseconds
  if later < 2 ^ 63 * 1000000000 then some ⟨later⟩ else none

end Instant

end CachedStore
