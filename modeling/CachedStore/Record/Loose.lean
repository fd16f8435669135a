import CachedStore.Record.Basic

/-!
Loose records: any row at all. Columns whose names start with a dollar sign steer the record itself:
which columns make its natural key, whether it may be stamped, and what its row looks like.
-/

namespace CachedStore

structure LooseRecord where
  row : Row
deriving Inhabited

namespace LooseRecord

def locked : Failure := ⟨.configuration, "loose record is locked"⟩

def stamp (record : LooseRecord) (column : String) (value : String) : Except Failure LooseRecord :=
  if record.row.contains "$locked" then .error locked
  else .ok ⟨record.row.insert column (.string value)⟩

def keyColumns (record : LooseRecord) : List String :=
  (((record.row.get "$keys").array?).getD []).filterMap Json.text?

/-- A record that names a scalar is written as that. -/
def toJson (record : LooseRecord) : Json := (record.row.get? "$scalar").getD record.row.toJson

instance : Record LooseRecord where
  kindName := "loose"
  blank := ⟨.empty⟩
  id? record := RecordId.ofJson? (record.row.get "id")
  withId record id := record.stamp "id" id.text
  deletedAt? record := (record.row.get "deleted_at").text?.bind Timestamp.parseStrict?
  markDeleted record time := record.stamp "deleted_at" time.text
  naturalKey record :=
    ⟨record.keyColumns.map fun column => (column, record.row.get column)⟩
  touchCreated record _ := record
  touchUpdated record _ := record
  ofRow row := if row.contains "$poison" then .error .unreadableRow else .ok ⟨row⟩
  toJson := toJson

end LooseRecord

end CachedStore
