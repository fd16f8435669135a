import CachedStore.Json.Reader
import CachedStore.Record.Document
import CachedStore.Text.Blank
import CachedStore.Text.Word

/-!
What a client may ask of the documents: the bodies and query parameters, how they are read, and
which of them are refused.
-/

namespace CachedStore

inductive RequestFault where
  | emptyId
  | emptyName
  | longName
  | nothingToUpdate
  | unknownOrder (column : String)
deriving DecidableEq, Repr

/-- The longest name, in bytes. -/
def longestName : Nat := 256

def orderColumns : List String := ["name", "created_at", "updated_at", "id"]

namespace RequestFault

def text : RequestFault → String
  | emptyId => "Id cannot be empty"
  | emptyName => "Name cannot be empty"
  | longName => "Name exceeds maximum length of " ++ toString longestName ++ " characters"
  | nothingToUpdate => "Nothing to update"
  | unknownOrder column =>
    "Cannot order by '" ++ column ++ "', expected one of " ++ ", ".intercalate orderColumns

end RequestFault

def nameFault? (name : String) : Option RequestFault :=
  if Text.allBlank name then some .emptyName
  else if longestName < name.utf8ByteSize then some .longName
  else none

/-- The members of an object, or the items of an array under the names of the fields in order. -/
def requestRow? (fields : List String) : Json → Option Row
  | .object members => some ⟨members⟩
  | .array items =>
    if items.length ≤ fields.length then some (.ofMembers (fields.zip items)) else none
  | _ => none

/-- The value of a query parameter, unless it is given twice. -/
def parameter? (pairs : List (String × String)) (name : String) : Option (Option String) :=
  match pairs.filter (·.1 = name) with
  | [] => some none
  | [(_, value)] => some (some value)
  | _ => none

def parameterOr? {β : Type} (pairs : List (String × String)) (name : String)
    (read : String → Option β) (missing : β) : Option β := do
  match ← parameter? pairs name with
  | none => return missing
  | some value => read value

structure CreateRequest where
  id : Option String
  name : String
  content : String
deriving DecidableEq, Repr

namespace CreateRequest

def fields : List (String × Json.FieldType) :=
  [("id", .optionalText), ("name", .text), ("content", .text)]

def ofJson? (body : Json) : Option CreateRequest := do
  let row ← requestRow? (fields.map (·.1)) body
  let id ← row.optional "id" Json.text?
  let name ← (row.get? "name").bind Json.text?
  let content ← row.orElse "content" Json.text? ""
  return ⟨id, name, content⟩

def fault? (request : CreateRequest) : Option RequestFault :=
  if request.id.any Text.allBlank then some .emptyId else nameFault? request.name

def document (request : CreateRequest) : Document :=
  { Document.named request.name request.content with id := request.id.map RecordId.mk }

end CreateRequest

structure UpdateRequest where
  name : Option String
  content : Option String
deriving DecidableEq, Repr

namespace UpdateRequest

def fields : List (String × Json.FieldType) :=
  [("name", .optionalText), ("content", .optionalText)]

def ofJson? (body : Json) : Option UpdateRequest := do
  let row ← requestRow? (fields.map (·.1)) body
  let name ← row.optional "name" Json.text?
  let content ← row.optional "content" Json.text?
  return ⟨name, content⟩

def fault? (request : UpdateRequest) : Option RequestFault :=
  if request.name.isNone && request.content.isNone then some .nothingToUpdate
  else request.name.bind nameFault?

def apply (request : UpdateRequest) (document : Document) : Document :=
  { document with
    name := request.name.getD document.name
    content := request.content.getD document.content }

end UpdateRequest

structure ListRequest where
  column : Option String
  descending : Bool
  limit : Option Nat
deriving DecidableEq, Repr

namespace ListRequest

def fields : List String := ["order", "desc", "limit"]

def ofJson? (body : Json) : Option ListRequest := do
  let row ← requestRow? fields body
  let column ← row.optional "order" Json.text?
  let descending ← row.orElse "desc" Json.bool? false
  let limit ← row.optional "limit" fun value =>
    value.integer?.bind fun limit => if 0 ≤ limit then some limit.toNat else none
  return ⟨column, descending, limit⟩

def ofPairs? (pairs : List (String × String)) : Option ListRequest := do
  let column ← parameter? pairs "order"
  let descending ← parameterOr? pairs "desc" Text.readTruth? false
  let limit ←
    parameterOr? pairs "limit" (fun value => (Text.readWord? (2 ^ 64) value).map some) none
  return ⟨column, descending, limit⟩

def fault? (request : ListRequest) : Option RequestFault :=
  request.column.bind fun column =>
    if orderColumns.contains column then none else some (.unknownOrder column)

def order (request : ListRequest) : Option SortOrder :=
  request.column.map fun column => ⟨column, request.descending⟩

/-- The cache key of the listing; equal requests share a cached read. -/
def cacheKey (request : ListRequest) : String :=
  "document:list:" ++ request.column.getD "-" ++ ":" ++
    (if request.descending then "desc" else "asc") ++ ":" ++ toString (request.limit.getD 0)

end ListRequest

def readIgnoreDuplicate? (pairs : List (String × String)) : Option Bool :=
  parameterOr? pairs "ignore_duplicate" Text.readTruth? false

def readSoft? (pairs : List (String × String)) : Option Bool :=
  parameterOr? pairs "soft" Text.readTruth? false

def readName? (pairs : List (String × String)) : Option String := (parameter? pairs "name").bind id

end CachedStore
