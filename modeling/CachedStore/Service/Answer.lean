import CachedStore.Repository.Writes
import CachedStore.Service.DocumentReply
import CachedStore.Service.Endpoint
import CachedStore.Service.MediaType

/-!
How the service answers requests. Reads go through the cache of the repository; writes go to the
store. A request is read in a fixed order, path before query before body, and the first fault is
answered.
-/

namespace CachedStore

namespace Service

abbrev State := RepositoryState Document

def ofFailure (failure : Failure) : HttpResponse :=
  let status :=
    match failure.kind with
    | .duplicate => 409
    | .notFound => 404
    | .queryFailed => 503
    | .configuration => 500
  .json status (Reply.failure failure)

def ofFault (fault : RequestFault) : HttpResponse := .json 400 (Reply.refusal fault.text)

def unreadablePath : HttpResponse := .text 400 "Invalid URL: Invalid UTF-8 in `id`"

def unreadableQuery : HttpResponse := .text 400 "Failed to deserialize query string"

def wrongMediaType : HttpResponse :=
  .text 415 "Expected request with `Content-Type: application/json`"

def ofReadError : ReadError → HttpResponse
  | .malformed => .text 400 "Failed to parse the request body as JSON"
  | .unsuitable => .text 422 "Failed to deserialize the JSON body into the target type"

def longestBody : Nat := 2097152

def oversizedBody : HttpResponse := .text 413 "Failed to buffer the request body"

def readBody {β : Type} (request : HttpRequest) (fields : List (String × Json.FieldType))
    (ofJson? : Json → Option β) : Except HttpResponse β :=
  if !request.contentType.any MediaType.isJson then .error wrongMediaType
  else if longestBody < request.body.utf8ByteSize then .error oversizedBody
  else
    match Json.readBody fields request.body with
    | .error fault => .error (ofReadError fault)
    | .ok body => (ofJson? body).elim (.error (ofReadError .unsuitable)) .ok

def readQuery {β : Type} (request : HttpRequest)
    (ofPairs? : List (String × String) → Option β) : Except HttpResponse β :=
  (ofPairs? (Percent.formPairs request.target.query)).elim (.error unreadableQuery) .ok

def readId (segment : List Char) : Except HttpResponse RecordId :=
  ((Percent.decodeSegment? segment).map RecordId.mk).elim (.error unreadablePath) .ok

def orAnswer {β : Type} (part : Except HttpResponse β)
    (next : β → Activity State HttpResponse) : Activity State HttpResponse :=
  match part with
  | .error response => .done response
  | .ok value => next value

def orRefuse (fault : Option RequestFault) (next : Activity State HttpResponse) :
    Activity State HttpResponse :=
  match fault with
  | some fault => .done (ofFault fault)
  | none => next

def ofOutcome {β : Type} (outcome : Except Failure β) (answer : β → HttpResponse) : HttpResponse :=
  match outcome with
  | .error failure => ofFailure failure
  | .ok value => answer value

def load (repository : Repository) (id : RecordId) : Activity State (Except Failure Document) :=
  (repository.findMatches (.byId id)).bind fun
    | .error failure => .done (.error failure)
    | .ok [] => .done (.error (Record.unknownId Document id))
    | .ok (document :: _) => .done (.ok document)

def ofWritten (status : Nat) (written : Written Document) : HttpResponse :=
  ofOutcome written.outcome fun _ => .json status (Reply.document written.record)

def createDocument (repository : Repository) (policy : DuplicatePolicy) (request : CreateRequest) :
    Activity State HttpResponse :=
  orRefuse request.fault? <|
    (repository.createWith policy request.document).bind fun written =>
      .done (ofWritten 201 written)

def ensureDocument (repository : Repository) (request : CreateRequest) :
    Activity State HttpResponse :=
  orRefuse request.fault? <|
    (repository.createIfAbsent request.document).bind fun written => .done (ofWritten 200 written)

def listDocuments (repository : Repository) (request : ListRequest) :
    Activity State HttpResponse :=
  orRefuse request.fault? <|
    (repository.listItems request.cacheKey request.order request.limit).bind fun outcome =>
      .done (ofOutcome outcome fun documents => .json 200 (Reply.listing documents))

def clearDocuments (repository : Repository) : Activity State HttpResponse :=
  (repository.truncate).bind fun outcome =>
    .done (ofOutcome outcome fun removed => .json 200 (Reply.clearing removed))

def documentExists (repository : Repository) (name : String) : Activity State HttpResponse :=
  (repository.existsLike (Document.named name "")).bind fun outcome =>
    .done (ofOutcome outcome fun found => .json 200 (Reply.existence name found))

def getDocument (repository : Repository) (id : RecordId) : Activity State HttpResponse :=
  (repository.readByKey (Document.idKey id) id).bind fun outcome =>
    .done (ofOutcome outcome fun document => .json 200 (Reply.document document))

def updateDocument (repository : Repository) (id : RecordId) (request : UpdateRequest) :
    Activity State HttpResponse :=
  orRefuse request.fault? <|
    (load repository id).bind fun
      | .error failure => .done (ofFailure failure)
      | .ok document =>
        (repository.update (request.apply document)).bind fun written =>
          .done (ofWritten 200 written)

def deleteDocument (repository : Repository) (id : RecordId) (soft : Bool) :
    Activity State HttpResponse :=
  (load repository id).bind fun
    | .error failure => .done (ofFailure failure)
    | .ok document =>
      (if soft then repository.softDelete document else repository.delete document).bind
        fun written =>
          .done (ofOutcome written.outcome fun _ => .json 200 (Reply.deletion id.text soft))

def statistics : Activity State HttpResponse :=
  .step fun _ state => (.json 200 (Reply.statistics state.cache.stats), state)

def health (repository : Repository) : Activity State HttpResponse :=
  .step fun moment state => (.json 200 (Reply.health repository.hasStore moment.time), state)

/-- Answers a request whose method the endpoint takes. A head request is answered as a get. -/
def answerAt (repository : Repository) (endpoint : Endpoint) (request : HttpRequest) :
    Activity State HttpResponse :=
  match endpoint, request.method with
  | .documents, "POST" =>
    orAnswer (readQuery request readIgnoreDuplicate?) fun ignore =>
      orAnswer (readBody request CreateRequest.fields CreateRequest.ofJson?) fun body =>
        createDocument repository (if ignore then .ignore else .strict) body
  | .documents, "DELETE" => clearDocuments repository
  | .documents, _ => orAnswer (readQuery request ListRequest.ofPairs?) (listDocuments repository)
  | .ensure, _ =>
    orAnswer (readBody request CreateRequest.fields CreateRequest.ofJson?)
      (ensureDocument repository)
  | .existence, _ => orAnswer (readQuery request readName?) (documentExists repository)
  | .document segment, "PUT" =>
    orAnswer (readId segment) fun id =>
      orAnswer (readBody request UpdateRequest.fields UpdateRequest.ofJson?)
        (updateDocument repository id)
  | .document segment, "DELETE" =>
    orAnswer (readId segment) fun id =>
      orAnswer (readQuery request readSoft?) (deleteDocument repository id)
  | .document segment, _ => orAnswer (readId segment) (getDocument repository)
  | .statistics, _ => statistics
  | .health, _ => health repository

/-- Pages of any origin may read every answer. -/
def openToAll (response : HttpResponse) : HttpResponse :=
  response.withHeader "access-control-allow-origin" "*"

def preflight : HttpResponse :=
  ((HttpResponse.empty 200).withHeader "access-control-allow-methods" "*").withHeader
    "access-control-allow-headers" "*"

def announcing (endpoint : Endpoint) (response : HttpResponse) : HttpResponse :=
  response.withHeader "allow" endpoint.allowed

def answerPlainly (repository : Repository) (request : HttpRequest) :
    Activity State HttpResponse :=
  match Endpoint.ofPath? request.target.path with
  | none => .done (if request.method = "OPTIONS" then preflight else .empty 404)
  | some endpoint =>
    if request.method = "OPTIONS" then .done (announcing endpoint preflight)
    else if endpoint.methods.contains request.method then
      (answerAt repository endpoint request).bind fun response =>
        .done (if request.method = "HEAD" then response.withoutBody else response)
    else .done (announcing endpoint (.empty 405))

def answer (repository : Repository) (request : HttpRequest) : Activity State HttpResponse :=
  (answerPlainly repository request).bind fun response => .done (openToAll response)

end Service

end CachedStore
