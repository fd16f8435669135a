import Std.Data.TreeMap
import Std.Data.TreeSet
import CachedStore.Cache.Lru
import CachedStore.Record.Identity

/-!
Which cache keys hold which record. A read that holds no identified record counts as a list, which
any write makes stale. The epoch counts the invalidations, so that a read which overlapped one is
noticed.
-/

namespace CachedStore

structure KeyIndex where
  byId : Std.TreeMap RecordId (Std.TreeSet Key)
  lists : Std.TreeSet Key
  epoch : UInt64

namespace KeyIndex

def empty : KeyIndex := ⟨.empty, .empty, 0⟩

/-- How many keys are tracked, once for each record or list that they are tracked for. -/
def tracked (index : KeyIndex) : Nat :=
  index.lists.size + (index.byId.toList.map fun (_, keys) => keys.size).sum

def isEmpty (index : KeyIndex) : Bool := index.tracked == 0

def keysOf (index : KeyIndex) (id : RecordId) : Std.TreeSet Key := (index.byId[id]?).getD .empty

/-- Tracks a key, unless an invalidation happened since `epoch`, which the first part tells. -/
def remember (index : KeyIndex) (epoch : UInt64) (key : Key) (id : Option RecordId) :
    Bool × KeyIndex :=
  if index.epoch ≠ epoch then (false, index)
  else
    match id with
    | some id =>
      (true, { index with byId := index.byId.insert id ((index.keysOf id).insert key) })
    | none => (true, { index with lists := index.lists.insert key })

/-- Takes out the keys that a write to a record makes stale: its own and those of the lists. -/
def take (index : KeyIndex) (id : Option RecordId) : List Key × KeyIndex :=
  let own :=
    match id with
    | some id => (index.keysOf id).toList
    | none => []
  let byId :=
    match id with
    | some id => index.byId.erase id
    | none => index.byId
  (index.lists.toList ++ own, ⟨byId, .empty, index.epoch + 1⟩)

def takeAll (index : KeyIndex) : List Key × KeyIndex :=
  (index.lists.toList ++ index.byId.toList.flatMap fun (_, keys) => keys.toList,
    ⟨.empty, .empty, index.epoch + 1⟩)

def liveKeys (live : Key → Bool) (keys : Std.TreeSet Key) : Option (Std.TreeSet Key) :=
  let kept := keys.filter live
  if kept.isEmpty then none else some kept

/-- Once more than `limit` keys are tracked, drops those that are not live and counts them. -/
def pruneOver (index : KeyIndex) (limit : Nat) (live : Key → Bool) : Nat × KeyIndex :=
  if index.tracked ≤ limit then (0, index)
  else
    let pruned :=
      { index with
        lists := index.lists.filter live
        byId := index.byId.filterMap fun _ keys => liveKeys live keys }
    (index.tracked - pruned.tracked, pruned)

end KeyIndex

end CachedStore
