import CachedStore.Number.Double

/-!
Counts of what happened in a cache. They are machine words and wrap.
-/

namespace CachedStore

structure Tally where
  hits : UInt64
  misses : UInt64
  evictions : UInt64
  expirations : UInt64
  totalEntries : UInt64
deriving DecidableEq, Repr, Inhabited

namespace Tally

def zero : Tally := ⟨0, 0, 0, 0, 0⟩

def counts (tally : Tally) : List (String × Nat) :=
  [("hits", tally.hits.toNat), ("misses", tally.misses.toNat),
    ("evictions", tally.evictions.toNat), ("expirations", tally.expirations.toNat),
    ("total_entries", tally.totalEntries.toNat)]

/-- The share of hits among all lookups, zero before the first one. -/
def hitRate (tally : Tally) : Double :=
  let lookups := tally.hits + tally.misses
  if lookups = 0 then .zero
  else ((Double.ofNat tally.hits.toNat).over? (Double.ofNat lookups.toNat)).getD .zero

def recordHit (tally : Tally) : Tally := { tally with hits := tally.hits + 1 }

def recordMiss (tally : Tally) : Tally := { tally with misses := tally.misses + 1 }

def recordEviction (tally : Tally) : Tally := { tally with evictions := tally.evictions + 1 }

def recordExpiration (tally : Tally) : Tally := { tally with expirations := tally.expirations + 1 }

def withEntries (tally : Tally) (count : Nat) : Tally :=
  { tally with totalEntries := UInt64.ofNat count }

def merge (a b : Tally) : Tally :=
  ⟨a.hits + b.hits, a.misses + b.misses, a.evictions + b.evictions, a.expirations + b.expirations,
    a.totalEntries + b.totalEntries⟩

end Tally

end CachedStore
