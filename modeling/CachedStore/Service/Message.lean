import CachedStore.Json.Basic
import CachedStore.Service.MediaType
import CachedStore.Service.Target

/-!
HTTP messages, requests and responses, as far as the service looks at them.
-/

namespace CachedStore

structure HttpRequest where
  method : String
  target : Target
  contentType : Option String
  body : String

namespace HttpRequest

def isName (text : String) : Bool := !text.isEmpty && text.toList.all MediaType.isTokenChar

def longestHeaderName : Nat := 65535

def isHeaderName (text : String) : Bool := isName text && text.length ≤ longestHeaderName

def isHeaderValue (text : String) : Bool :=
  text.toList.all fun c => c == '\t' || (32 ≤ c.toNat && c.toNat != 127)

/-- Reads the parts of a request; names of headers count in any case. -/
def parse? (method target : String) (headers : List (String × String)) (body : String) :
    Option HttpRequest :=
  let headers := headers.map fun (name, value) => (name.map Char.toLower, value)
  if isName method && headers.all fun (name, value) => isHeaderName name && isHeaderValue value then
    (Target.parse? target).map fun target =>
      ⟨method, target, headers.lookup "content-type", body⟩
  else none

end HttpRequest

inductive HttpBody where
  | empty
  | json (value : Json)
  | text (value : String)

structure HttpResponse where
  status : Nat
  headers : List (String × String)
  body : HttpBody

namespace HttpResponse

def empty (status : Nat) : HttpResponse := ⟨status, [], .empty⟩

def json (status : Nat) (value : Json) : HttpResponse :=
  ⟨status, [("content-type", "application/json")], .json value⟩

def text (status : Nat) (value : String) : HttpResponse :=
  ⟨status, [("content-type", "text/plain; charset=utf-8")], .text value⟩

def withHeader (response : HttpResponse) (name value : String) : HttpResponse :=
  { response with headers := response.headers ++ [(name, value)] }

def withoutBody (response : HttpResponse) : HttpResponse := { response with body := .empty }

end HttpResponse

end CachedStore
