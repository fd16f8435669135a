import CachedStore.Failure
import CachedStore.Record.Query
import CachedStore.Time.TimestampReader

/-!
Records: what a store keeps as rows. A record has an identity of its own, may have a natural key
that no other record shares, and may carry the time of its deletion instead of being removed.
-/

namespace CachedStore

class Record (ρ : Type) where
  kindName : String
  blank : ρ
  id? : ρ → Option RecordId
  withId : ρ → RecordId → Except Failure ρ
  deletedAt? : ρ → Option Timestamp
  markDeleted : ρ → Timestamp → Except Failure ρ
  /-- The conditions that name the record without its identity; none if it has no natural key. -/
  naturalKey : ρ → Filter
  touchCreated : ρ → Timestamp → ρ
  touchUpdated : ρ → Timestamp → ρ
  ofRow : Row → Except Failure ρ
  /-- The record as a value; stores only keep it as a row, so it should be an object. -/
  toJson : ρ → Json

namespace Record

variable {ρ : Type} [Record ρ]

def isDeleted (record : ρ) : Bool := (deletedAt? record).isSome

def givenId? (record : ρ) : Option RecordId := (id? record).filter fun id => !id.isEmpty

def ensureId (record : ρ) (fresh : RecordId) : Except Failure (RecordId × ρ) :=
  match givenId? record with
  | some id => .ok (id, record)
  | none => (withId record fresh).map fun record => (fresh, record)

variable (ρ)

def notARow (value : Json) : Failure :=
  ⟨.queryFailed, kindName ρ ++ " does not serialize to a row: " ++ value.text⟩

def noId : Failure := ⟨.queryFailed, kindName ρ ++ " record has no id"⟩

def idTaken (id : RecordId) : Failure :=
  ⟨.duplicate, kindName ρ ++ " with id " ++ id.text ++ " already exists"⟩

def keyTaken (key : Filter) : Failure :=
  ⟨.duplicate, kindName ρ ++ " with " ++ key.text ++ " already exists"⟩

def unknownId (id : RecordId) : Failure := ⟨.notFound, kindName ρ ++ " with id " ++ id.text⟩

def noMatch (filter : Filter) : Failure := ⟨.notFound, kindName ρ ++ " with " ++ filter.text⟩

variable {ρ}

def toRow (record : ρ) : Except Failure Row :=
  match toJson record with
  | .object members => .ok ⟨members⟩
  | value => .error (notARow ρ value)

end Record

namespace Row

/-- A column that may be missing or `null`. -/
def optional {β : Type} (row : Row) (name : String) (read : Json → Option β) : Option (Option β) :=
  match row.get name with
  | .null => some none
  | value => (read value).map some

/-- A column that may be missing but not `null`. -/
def orElse {β : Type} (row : Row) (name : String) (read : Json → Option β) (missing : β) :
    Option β :=
  match row.get? name with
  | none => some missing
  | some value => read value

def withOptional (row : Row) (name : String) (value : Option Json) : Row :=
  match value with
  | some value => row.insert name value
  | none => row

end Row

structure Metadata where
  createdAt : Option Timestamp
  updatedAt : Option Timestamp
  deletedAt : Option Timestamp
deriving DecidableEq, Repr, Inhabited

namespace Metadata

def none : Metadata := ⟨.none, .none, .none⟩

def readTime (value : Json) : Option Timestamp := value.text?.bind Timestamp.parse?

def ofRow? (row : Row) : Option Metadata := do
  let createdAt ← row.optional "created_at" readTime
  let updatedAt ← row.optional "updated_at" readTime
  let deletedAt ← row.optional "deleted_at" readTime
  return ⟨createdAt, updatedAt, deletedAt⟩

/-- An object, or the times in order as an array whose last ones may be missing. -/
def ofJson? : Json → Option Metadata
  | .object members => ofRow? ⟨members⟩
  | .array items =>
    if items.length ≤ 3 then
      ofRow? (.ofMembers (["created_at", "updated_at", "deleted_at"].zip items))
    else .none
  | _ => .none

def timeJson (time : Timestamp) : Json := .string time.text

def intoRow (metadata : Metadata) (row : Row) : Row :=
  ((row.withOptional "created_at" (metadata.createdAt.map timeJson)).withOptional
    "updated_at" (metadata.updatedAt.map timeJson)).withOptional
    "deleted_at" (metadata.deletedAt.map timeJson)

end Metadata

def RecordId.ofJson? (value : Json) : Option RecordId := value.text?.map RecordId.mk

/-! Rows of named records with one more column, `own` -/

namespace Row

def whole (own : String) (id : Option RecordId) (name : String) (value : Json)
    (metadata : Metadata) : Row :=
  metadata.intoRow (((empty.insert "name" (.string name)).insert own value).withOptional
    "id" (id.map fun id => .string id.text))

def readWhole {ρ β : Type} (row : Row) (own : String) (read : Json → Option β) (missing : β)
    (make : Option RecordId → String → β → Metadata → ρ) : Option ρ := do
  let id ← row.optional "id" RecordId.ofJson?
  let name ← row.orElse "name" Json.text? ""
  let value ← row.orElse own read missing
  let metadata ← Metadata.ofRow? row
  return make id name value metadata

end Row

end CachedStore
