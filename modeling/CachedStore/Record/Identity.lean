/-!
Identities of records: texts, in the order of their code points.
-/

namespace CachedStore

structure RecordId where
  text : String
deriving DecidableEq, Repr, Inhabited

namespace RecordId

instance : Ord RecordId := ⟨fun a b => compare a.text b.text⟩

theorem compare_def (a b : RecordId) : compare a b = compare a.text b.text := rfl

instance : Std.OrientedOrd RecordId where
  eq_swap {a b} := Std.OrientedOrd.eq_swap (a := a.text) (b := b.text)

instance : Std.TransOrd RecordId where
  isLE_trans {a b c} := Std.TransOrd.isLE_trans (a := a.text) (b := b.text) (c := c.text)

instance : Std.LawfulEqOrd RecordId where
  eq_of_compare {a b} equal := by
    cases a
    cases b
    simpa [compare_def] using equal

def isEmpty (id : RecordId) : Bool := id.text.isEmpty

end RecordId

end CachedStore
