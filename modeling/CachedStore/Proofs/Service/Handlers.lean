import CachedStore.Proofs.Service.CacheKeys
import CachedStore.Service.Answer

/-!
The handlers of the service, run alone: what each answers and which rows it leaves, by the rows, the
time and the fresh identity.
-/

namespace CachedStore

/-! What the handlers give -/

namespace Plain

open Service

variable {α β : Type}

def map (first : Plain α) (answer : α → β) : Plain β :=
  first.bind fun result => .done (answer result)

def orRefuse (fault : Option RequestFault) (next : Plain HttpResponse) :
    Plain HttpResponse :=
  match fault with
  | some fault => .done (ofFault fault)
  | none => next

def load (id : RecordId) : Plain (Except Failure Document) :=
  (Plain.read fun rows =>
    rows.find ([] : List Document) { Query.all with filter := .byId id }).bind fun
    | .error failure => .done (.error failure)
    | .ok [] => .done (.error (Record.unknownId Document id))
    | .ok (document :: _) => .done (.ok document)

def createDocument (policy : DuplicatePolicy) (request : CreateRequest) :
    Plain HttpResponse :=
  orRefuse request.fault? (map (createWith policy request.document) (ofWritten 201))

def ensureDocument (request : CreateRequest) : Plain HttpResponse :=
  orRefuse request.fault? (map (createIfAbsent request.document) (ofWritten 200))

def listDocuments (request : ListRequest) : Plain HttpResponse :=
  orRefuse request.fault?
    (map (.read fun rows => rows.find ([] : List Document) request.query) fun outcome =>
      ofOutcome outcome fun documents => .json 200 (Reply.listing documents))

def clearDocuments : Plain HttpResponse :=
  map (.effect fun rows => .ok (rows.size, .empty)) fun outcome =>
    ofOutcome outcome fun removed => .json 200 (Reply.clearing removed)

def existsLike (document : Document) : Plain (Except Failure Bool) :=
  (Plain.read fun rows =>
    rows.findOne (Record.blank : Document) (Record.naturalKey document)).bind fun
    | .ok _ => .done (.ok true)
    | .error failure => .done (if failure.isNotFound then .ok false else .error failure)

def documentExists (name : String) : Plain HttpResponse :=
  map (existsLike (Document.named name "")) fun outcome =>
    ofOutcome outcome fun found => .json 200 (Reply.existence name found)

def getDocument (id : RecordId) : Plain HttpResponse :=
  map (.read fun rows => rows.readByKey (Record.blank : Document) id) fun outcome =>
    ofOutcome outcome fun document => .json 200 (Reply.document document)

def updateDocument (id : RecordId) (request : UpdateRequest) : Plain HttpResponse :=
  orRefuse request.fault? <|
    (load id).bind fun
      | .error failure => .done (ofFailure failure)
      | .ok document => map (update (request.apply document)) (ofWritten 200)

def deleteDocument (id : RecordId) (soft : Bool) : Plain HttpResponse :=
  (load id).bind fun
    | .error failure => .done (ofFailure failure)
    | .ok document =>
      map (if soft then softDelete document else delete document) fun written =>
        ofOutcome written.outcome fun _ => .json 200 (Reply.deletion id.text soft)

def health : Plain HttpResponse :=
  .ask fun moment => .done (.json 200 (Reply.health true moment.time))

end Plain

namespace Service

open Repository

def served : Meaning Document := coherent Document StandsFor

theorem served_lawful : served.Lawful := coherent_lawful

/-! Cached reads -/

theorem tellsRead_document (id : RecordId) : TellsRead served (Document.idKey id) .one
    fun rows => rows.readByKey (Record.blank : Document) id where
  fits {rows value} _ read query stands := by
    rw [stands.of_idKey, CachedQuery.answer, read]
    rfl
  reads {rows cached value} _ fits shaped := by
    obtain ⟨record, read, rfl⟩ := CachedQuery.map_eq_ok.mp (fits _ (.document id))
    obtain rfl : record = value := Option.some.inj shaped
    exact read

theorem tellsRead_listing {request : ListRequest} (valid : request.fault? = none) :
    TellsRead served request.cacheKey .many
      fun rows => rows.find ([] : List Document) request.query where
  fits {rows value} _ read query stands := by
    rw [stands.of_cacheKey valid, CachedQuery.answer, read]
    rfl
  reads {rows cached value} _ fits shaped := by
    obtain ⟨records, read, rfl⟩ := CachedQuery.map_eq_ok.mp (fits _ (.listing request valid))
    obtain rfl : records = value := Option.some.inj shaped
    exact read

/-! That the handlers give it -/

section Handlers

variable {α β : Type} {repository : Repository}

theorem implements_map {activity : Activity State α} {plain : Plain α}
    (implements : Implements served repository activity plain) (answer : α → β) :
    Implements served repository (activity.bind fun result => .done (answer result))
      (Plain.map plain answer) :=
  implements.bind fun result => implements_done (answer result)

theorem implements_orRefuse {fault : Option RequestFault} {next : Activity State HttpResponse}
    {plain : Plain HttpResponse}
    (implements : fault = none → Implements served repository next plain) :
    Implements served repository (orRefuse fault next) (Plain.orRefuse fault plain) := by
  cases fault with
  | some fault => exact implements_done (ofFault fault)
  | none => exact implements rfl

theorem implements_load (stored : repository.hasStore = true) (id : RecordId) :
    Implements served repository (load repository id) (Plain.load id) := by
  refine (implements_uncached stored "find_matches" .find _).bind fun found => ?_
  cases found with
  | error failure => exact implements_done _
  | ok documents =>
      cases documents with
      | nil => exact implements_done _
      | cons document others => exact implements_done _

variable (tracking : repository.invalidation = .byIdentity) (stored : repository.hasStore = true)

include tracking stored

theorem implements_createDocument (policy : DuplicatePolicy) (request : CreateRequest) :
    Implements served repository (createDocument repository policy request)
      (Plain.createDocument policy request) :=
  implements_orRefuse fun _ => implements_map
    (implements_createWith served_lawful tracking stored policy request.document) (ofWritten 201)

theorem implements_ensureDocument (request : CreateRequest) :
    Implements served repository (ensureDocument repository request)
      (Plain.ensureDocument request) :=
  implements_orRefuse fun _ => implements_map
    (implements_createIfAbsent served_lawful tracking stored request.document) (ofWritten 200)

theorem implements_listDocuments (request : ListRequest) :
    Implements served repository (listDocuments repository request)
      (Plain.listDocuments request) :=
  implements_orRefuse fun valid =>
    implements_map (implements_cachedRead tracking stored .find (tellsRead_listing valid)) _

theorem implements_getDocument (id : RecordId) :
    Implements served repository (getDocument repository id) (Plain.getDocument id) :=
  implements_map (implements_cachedRead tracking stored .readByKey (tellsRead_document id)) _

theorem implements_updateDocument (id : RecordId) (request : UpdateRequest) :
    Implements served repository (updateDocument repository id request)
      (Plain.updateDocument id request) := by
  refine implements_orRefuse fun _ => (implements_load stored id).bind fun loaded => ?_
  cases loaded with
  | error failure => exact implements_done _
  | ok document =>
      exact implements_map
        (implements_update served_lawful tracking stored (request.apply document)) (ofWritten 200)

theorem implements_deleteDocument (id : RecordId) (soft : Bool) :
    Implements served repository (deleteDocument repository id soft)
      (Plain.deleteDocument id soft) := by
  refine (implements_load stored id).bind fun loaded => ?_
  cases loaded with
  | error failure => exact implements_done _
  | ok document =>
      cases soft with
      | true =>
          exact implements_map (implements_softDelete served_lawful tracking stored document) _
      | false => exact implements_map (implements_delete served_lawful tracking stored document) _

omit tracking

theorem implements_clearDocuments :
    Implements served repository (clearDocuments repository) Plain.clearDocuments :=
  implements_map (implements_truncate stored served_lawful.empty) _

theorem implements_documentExists (name : String) :
    Implements served repository (documentExists repository name) (Plain.documentExists name) := by
  refine implements_map ((implements_uncached stored "exists" .findOne _).bind fun found => ?_) _
  cases found with
  | ok document => exact implements_done _
  | error failure => exact implements_done _

theorem implements_health : Implements served repository (health repository) Plain.health := by
  have times : ∀ first second : Moment, first.time = second.time →
      first.freshId = second.freshId →
      HttpResponse.json 200 (Reply.health repository.hasStore first.time) =
        .json 200 (Reply.health repository.hasStore second.time) :=
    fun first second time _ => by rw [time]
  refine Implements.ask times fun moment => ?_
  rw [stored]
  exact implements_done _

end Handlers

end Service

end CachedStore
