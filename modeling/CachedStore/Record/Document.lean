import CachedStore.Record.Basic

/-!
Documents: named pieces of content. No two share a name, deleted ones included.
-/

namespace CachedStore

structure Document where
  id : Option RecordId
  name : String
  content : String
  metadata : Metadata
deriving DecidableEq, Repr, Inhabited

namespace Document

def named (name content : String) : Document := ⟨none, name, content, .none⟩

def ofRow? (row : Row) : Option Document := row.readWhole "content" Json.text? "" mk

def toRow (document : Document) : Row :=
  .whole "content" document.id document.name (.string document.content) document.metadata

def idKey (id : RecordId) : String := "document:id:" ++ id.text

instance : Record Document where
  kindName := "document"
  blank := named "" ""
  id? := Document.id
  withId document id := .ok { document with id := some id }
  deletedAt? document := document.metadata.deletedAt
  markDeleted document time :=
    .ok { document with metadata := { document.metadata with deletedAt := some time } }
  naturalKey document := .equals "name" (.string document.name)
  touchCreated document time :=
    { document with metadata := { document.metadata with createdAt := some time } }
  touchUpdated document time :=
    { document with metadata := { document.metadata with updatedAt := some time } }
  ofRow row := (ofRow? row).elim (.error .unreadableRow) .ok
  toJson document := document.toRow.toJson

end Document

end CachedStore
