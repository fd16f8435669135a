import CachedStore.Cache.Tally
import CachedStore.Failure
import CachedStore.Record.Document
import CachedStore.Service.DocumentRequest

/-!
What the service answers about its documents, as JSON.
-/

namespace CachedStore

namespace Reply

/-- A document as clients see it. Its deletion is not shown. -/
def document (document : Document) : Json :=
  let row := Row.ofMembers [
    ("id", .string ((document.id.map RecordId.text).getD "")),
    ("name", .string document.name),
    ("content", .string document.content)]
  let shown : Metadata := { document.metadata with deletedAt := none }
  (shown.intoRow row).toJson

def listing (documents : List Document) : Json :=
  .ofMembers [("count", .ofNat documents.length), ("documents", .array (documents.map document))]

def existence (name : String) (found : Bool) : Json :=
  .ofMembers [("name", .string name), ("exists", .bool found)]

def deletion (id : String) (soft : Bool) : Json :=
  let how := if soft then "soft-deleted" else "deleted"
  .ofMembers [
    ("message", .string ("Document '" ++ id ++ "' " ++ how ++ " successfully")),
    ("id", .string id),
    ("soft", .bool soft)]

def clearing (removed : Nat) : Json :=
  .ofMembers [
    ("message", .string ("Removed " ++ toString removed ++ " documents")),
    ("removed", .ofNat removed)]

def statistics (tally : Tally) : Json :=
  .ofMembers <|
    tally.counts.map (fun (name, count) => (name, Json.ofNat count)) ++
      [("hit_rate", .number (.double tally.hitRate))]

def health (hasStore : Bool) (time : Timestamp) : Json :=
  .ofMembers [
    ("status", .string (if hasStore then "healthy" else "degraded")),
    ("timestamp", .string time.offsetText)]

def failure (failure : Failure) : Json :=
  .ofMembers [("error", .string failure.text), ("kind", .string failure.kind.word)]

def refusalText (message : String) : String := "Invalid request: " ++ message

def refusal (message : String) : Json :=
  .ofMembers [("error", .string (refusalText message)), ("kind", .string "invalid_request")]

end Reply

end CachedStore
