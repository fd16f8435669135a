/-!
Machine words written in decimal, and truth values written as words.
-/

namespace CachedStore

namespace Text

/-- The number that digits write, if it is below `limit`. A plus sign may stand before them. -/
def readWord? (limit : Nat) (text : String) : Option Nat :=
  let digits :=
    match text.toList with
    | '+' :: rest => rest
    | all => all
  if digits = [] ∨ digits.any (fun c => !('0' ≤ c && c ≤ '9')) then none
  else
    let value := digits.foldl (fun value digit => value * 10 + (digit.toNat - 48)) 0
    if value < limit then some value else none

def readTruth? (text : String) : Option Bool :=
  if text = "true" then some true else if text = "false" then some false else none

def readSwitch? (text : String) : Option Bool :=
  let word := text.map Char.toLower
  if ["1", "true", "yes", "on"].contains word then some true
  else if ["0", "false", "no", "off"].contains word then some false
  else none

end Text

end CachedStore
