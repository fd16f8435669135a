import CachedStore.Service.Message
import CachedStore.Text.Percent

/-!
The places of the service and the methods that each of them takes. A fixed place comes before the
place of a document with the same path.
-/

namespace CachedStore

inductive Endpoint where
  | documents
  | ensure
  | existence
  /-- The place of a document; the path segment is as it was sent. -/
  | document (segment : List Char)
  | statistics
  | health
deriving DecidableEq, Repr

namespace Endpoint

def ofSegment? (segment : List Char) : Option Endpoint :=
  if segment = "ensure".toList then some ensure
  else if segment = "exists".toList then some existence
  else if segment = [] ∨ '/' ∈ segment then none
  else some (document segment)

def ofPath? (path : List Char) : Option Endpoint :=
  if path = "/documents".toList then some documents
  else if path = "/stats".toList then some statistics
  else if path = "/health".toList then some health
  else if "/documents/".toList.isPrefixOf path then ofSegment? (path.drop "/documents/".length)
  else none

def methods : Endpoint → List String
  | documents => ["POST", "GET", "HEAD", "DELETE"]
  | ensure => ["PUT"]
  | existence => ["GET", "HEAD"]
  | document _ => ["GET", "HEAD", "PUT", "DELETE"]
  | statistics => ["GET", "HEAD"]
  | health => ["GET", "HEAD"]

def allowed (endpoint : Endpoint) : String := ",".intercalate endpoint.methods

end Endpoint

end CachedStore
