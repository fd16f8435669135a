/-!
Finite double-precision numbers, held as a sign and a rank: the position of the magnitude among
all non-negative finite doubles in increasing order. Arithmetic is exact on natural numbers and
rounds once, to the nearest double, a tie going to the even rank.
-/

-- Powers and sums are those of the core library, also beside one that has its own instances.
attribute [instance (high)] instPowNat Zero.ofOfNat0
attribute [default_instance high] instPowNat

namespace CachedStore

/-- The low 63 bits of the usual encoding, read as one number, count the doubles below it. -/
structure Double where
  negative : Bool
  rank : Nat
  rank_lt : rank < 2047 * 2 ^ 52
deriving DecidableEq

namespace Double

def infiniteRank : Nat := 2047 * 2 ^ 52

def zero : Double := ⟨false, 0, by decide⟩

instance : Inhabited Double := ⟨zero⟩

/-- Position of a double on the number line; both zeros stand at 0. -/
def position (x : Double) : Int := if x.negative then -(x.rank : Int) else x.rank

def toBits (x : Double) : UInt64 :=
  UInt64.ofNat ((if x.negative then 2 ^ 63 else 0) + x.rank)

def significand (rank : Nat) : Nat :=
  if rank < 2 ^ 52 then rank else rank % 2 ^ 52 + 2 ^ 52

/-- How many steps of the exponent lie above the smallest one, whose unit is `2 ^ (-1074)`. -/
def scale (rank : Nat) : Nat := rank / 2 ^ 52 - 1

def fraction (rank : Nat) : Nat × Nat :=
  if 1074 ≤ scale rank then (significand rank * 2 ^ (scale rank - 1074), 1)
  else (significand rank, 2 ^ (1074 - scale rank))

def roundHalfEven (numerator denominator : Nat) : Nat :=
  let quotient := numerator / denominator
  let twice := 2 * (numerator % denominator)
  if twice < denominator then quotient
  else if denominator < twice then quotient + 1
  else if quotient % 2 = 0 then quotient else quotient + 1

/-- The binary exponent of a positive quotient: `2 ^ e ≤ n / d < 2 ^ (e + 1)`. -/
def binaryExponent (numerator denominator : Nat) : Int :=
  let guess : Int := numerator.log2 - denominator.log2
  let reached :=
    if 0 ≤ guess then denominator * 2 ^ guess.toNat ≤ numerator
    else denominator ≤ numerator * 2 ^ (-guess).toNat
  if reached then guess else guess - 1

/-- The rank nearest to a quotient. It passes `infiniteRank` when no finite double is near. -/
def nearestRank (numerator denominator : Nat) : Nat :=
  if numerator = 0 then 0
  else
    let unit := max (binaryExponent numerator denominator - 52) (-1074)
    let steps :=
      if 0 ≤ unit then roundHalfEven numerator (denominator * 2 ^ unit.toNat)
      else roundHalfEven (numerator * 2 ^ (-unit).toNat) denominator
    (unit + 1074).toNat * 2 ^ 52 + steps

def ofRank? (negative : Bool) (rank : Nat) : Option Double :=
  if bound : rank < infiniteRank then some ⟨negative, rank, bound⟩ else none

def ofRank (negative : Bool) (rank : Nat) : Double :=
  ⟨negative, min rank (infiniteRank - 1), by simp only [infiniteRank]; omega⟩

/-- An integer of at most 64 bits, rounded; it never reaches the largest double. -/
def ofInt (value : Int) : Double := ofRank (value < 0) (nearestRank value.natAbs 1)

def ofNat (value : Nat) : Double := ofInt value

def times? (x y : Double) : Option Double :=
  let (n, d) := fraction x.rank
  let (n', d') := fraction y.rank
  ofRank? (x.negative != y.negative) (nearestRank (n * n') (d * d'))

def over? (x y : Double) : Option Double :=
  let (n, d) := fraction x.rank
  let (n', d') := fraction y.rank
  if n' = 0 then none
  else ofRank? (x.negative != y.negative) (nearestRank (n * d') (d * n'))

def negate (x : Double) : Double := { x with negative := !x.negative }

def same (x y : Double) : Bool := x.position == y.position

def powerOfTen (exponent : Nat) : Double := ofRank false (nearestRank (10 ^ exponent) 1)

/-- Divides by a power of ten, in steps of at most `10 ^ 308`, each of which rounds. -/
def overPowerOfTen (x : Double) (exponent : Nat) : Double :=
  if exponent ≤ 308 then (x.over? (powerOfTen exponent)).getD x
  else if x.rank = 0 then x
  else overPowerOfTen ((x.over? (powerOfTen 308)).getD x) (exponent - 308)
termination_by exponent

/--
A decimal `significand * 10 ^ exponent` read in two roundings: first the significand, then the
product with or quotient by the power of ten. There is no value when the product is too large.
-/
def ofDecimal? (significand : Nat) (exponent : Int) : Option Double :=
  let whole := ofNat significand
  if exponent < 0 then some (overPowerOfTen whole exponent.natAbs)
  else if exponent ≤ 308 then whole.times? (powerOfTen exponent.toNat)
  else if significand = 0 then some zero
  else none

end Double

end CachedStore
