import CachedStore.Number.Double

/-!
Decimal text of doubles: the fewest digits that read back as the same double, and of those the
nearest to it. The text is positional while the point stands at most 16 places to the right of
the first digit and at most 4 zeros to its left, and otherwise has an exponent.
-/

namespace CachedStore

namespace Double

structure Decimal where
  digits : Nat
  exponent : Int
deriving DecidableEq, Repr

namespace Decimal

def fraction (point : Decimal) : Nat × Nat :=
  if 0 ≤ point.exponent then (point.digits * 10 ^ point.exponent.toNat, 1)
  else (point.digits, 10 ^ (-point.exponent).toNat)

def rank (point : Decimal) : Nat :=
  let (n, d) := point.fraction
  nearestRank n d

end Decimal

def digitCount (value : Nat) : Nat := (Nat.toDigits 10 value).length

/-- The exponent `k` of the first digit of a positive quotient: `10 ^ k ≤ n / d < 10 ^ (k + 1)`. -/
def decimalExponent (numerator denominator : Nat) : Int :=
  if denominator ≤ numerator then (digitCount (numerator / denominator) : Int) - 1
  else -((digitCount ((denominator - 1) / numerator)) : Int)

/-- The two neighbours of `n / d` on the grid of step `10 ^ exponent`, the nearer one first. -/
def gridNeighbours (numerator denominator : Nat) (exponent : Int) : List Decimal :=
  let (n, d) :=
    if 0 ≤ exponent then (numerator, denominator * 10 ^ exponent.toNat)
    else (numerator * 10 ^ (-exponent).toNat, denominator)
  let below : Decimal := ⟨n / d, exponent⟩
  let above : Decimal := ⟨n / d + 1, exponent⟩
  if roundHalfEven n d = n / d then [below, above] else [above, below]

def searchShortest (rank : Nat) (numerator denominator : Nat) (first : Int) :
    (rounds count : Nat) → Decimal
  | 0, count => ⟨numerator / denominator, (first - count : Int)⟩
  | rounds + 1, count =>
    match (gridNeighbours numerator denominator (first - count + 1)).find? (·.rank == rank) with
    | some point => point
    | none => searchShortest rank numerator denominator first rounds (count + 1)

/-- Seventeen digits always read back. -/
def shortest (rank : Nat) : Decimal :=
  let (n, d) := fraction rank
  searchShortest rank n d (decimalExponent n d) 17 1

def trimZeros (digits : List Char) : List Char :=
  (digits.reverse.dropWhile (· == '0')).reverse

def exponentText (exponent : Int) : List Char :=
  (if exponent < 0 then '-' else '+') :: Nat.toDigits 10 exponent.natAbs

/-- Where the point stands decides between positional and exponent form. -/
def layout (digits : List Char) (point : Int) : List Char :=
  let length : Int := digits.length
  if length ≤ point ∧ point ≤ 16 then
    digits ++ List.replicate (point - length).toNat '0' ++ ['.', '0']
  else if 0 < point ∧ point ≤ 16 then
    digits.take point.toNat ++ '.' :: digits.drop point.toNat
  else if -5 < point ∧ point ≤ 0 then
    '0' :: '.' :: (List.replicate (-point).toNat '0' ++ digits)
  else
    let tail := 'e' :: exponentText (point - 1)
    match digits with
    | [digit] => digit :: tail
    | digit :: rest => digit :: '.' :: (rest ++ tail)
    | [] => tail

def magnitudeText (rank : Nat) : List Char :=
  if rank = 0 then ['0', '.', '0']
  else
    let decimal := shortest rank
    let written := Nat.toDigits 10 decimal.digits
    layout (trimZeros written) (written.length + decimal.exponent)

def text (x : Double) : String :=
  String.ofList (if x.negative then '-' :: magnitudeText x.rank else magnitudeText x.rank)

end Double

end CachedStore
