import CachedStore.Proofs.Service.Transparency
import CachedStore.Proofs.Store.FaithfulRows

/-!
Reading what was written: the document that a write answers is the one that a read of its identity
answers next. The one exception is a permissive create that takes a stored document for a success:
it answers the document of the request, which was not stored.
-/

namespace CachedStore

/-! What the writes leave in the rows -/

namespace Plain

open Rows

variable {ρ : Type} [Record ρ] [FaithfulRecord ρ] {rows : Rows} {record : ρ}
  {time : Timestamp} (freshId : RecordId)

/--
The rows are those of whole records, and a write that succeeded left the record that it gives. That
duplicates are ignored is no reason for its success.
-/
structure Leaves (policy : DuplicatePolicy) (rows : Rows) (result : Written ρ × Rows) : Prop where
  faithful : Faithful ρ result.2
  holds : result.1.outcome = .ok () → (policy = .ignore → result.2 ≠ rows) →
    ∃ id, result.2.Holds id result.1.record ∧ Record.isDeleted result.1.record = false

omit [Record ρ] [FaithfulRecord ρ] in
theorem ignores_of_settle {policy : DuplicatePolicy} {failure : Failure}
    (settled : Repository.settle policy (.error failure) = .ok ()) : policy = .ignore := by
  simp only [Repository.settle] at settled
  split at settled
  · rename_i ignored
    exact ignored.1
  · cases settled

theorem leaves_of_failure {policy : DuplicatePolicy} {failure : Failure}
    (faithful : Faithful ρ rows) :
    Leaves policy rows (⟨Repository.settle policy (.error failure), record⟩, rows) where
  faithful := faithful
  holds settled changed := absurd rfl (changed (ignores_of_settle settled))

theorem leaves_write {policy : DuplicatePolicy} {change : Rows → Except Failure Rows}
    (faithful : Faithful ρ rows) (live : Record.isDeleted record = false)
    (holds : ∀ changed, change rows = .ok changed →
      ∃ id, changed.Holds id record ∧ Faithful ρ changed) :
    Leaves policy rows (Plain.write policy record change time freshId rows) := by
  cases outcome : change rows with
  | error failure =>
      have result : Plain.write policy record change time freshId rows =
          (⟨Repository.settle policy (.error failure), record⟩, rows) := by
        simp only [Plain.write, Plain.bind, Plain.effect, Plain.done, outcome]
        rfl
      rw [result]
      exact leaves_of_failure faithful
  | ok changed =>
      have result : Plain.write policy record change time freshId rows =
          (⟨.ok (), record⟩, changed) := by
        simp only [Plain.write, Plain.bind, Plain.effect, Plain.done, outcome]
        rfl
      obtain ⟨id, held, whole⟩ := holds changed outcome
      rw [result]
      exact ⟨whole, fun _ _ => ⟨id, held, live⟩⟩

theorem leaves_createWith (policy : DuplicatePolicy) (proper : time.IsValid)
    (faithful : Faithful ρ rows) (valid : (FaithfulRecord.metadata record).IsValid)
    (live : Record.isDeleted record = false) :
    Leaves policy rows (Plain.createWith policy record time freshId rows) := by
  obtain ⟨id, stamped, stamps, own, _, metadata⟩ :=
    Repository.stampNew_ok record ⟨⟨0⟩, time, freshId⟩
  have result : Plain.createWith policy record time freshId rows =
      Plain.write policy stamped (fun rows => rows.create stamped) time freshId rows := by
    simp only [Plain.createWith, Plain.ask, stamps]
  rw [result]
  refine leaves_write freshId faithful ?_ fun changed created => ⟨id, ?_⟩
  · rw [Record.isDeleted_eq, metadata, ← Record.isDeleted_eq]
    exact live
  · exact faithful.create (metadata ▸ valid.created proper) created own

theorem leaves_createIfAbsent (proper : time.IsValid) (faithful : Faithful ρ rows)
    (valid : (FaithfulRecord.metadata record).IsValid) (live : Record.isDeleted record = false) :
    Leaves .strict rows (Plain.createIfAbsent record time freshId rows) := by
  simp only [Plain.createIfAbsent, Plain.bind, Plain.read]
  cases found : rows.findOne (Record.blank : ρ) (Record.naturalKey record) with
  | ok existing => exact ⟨faithful, fun _ _ => faithful.of_findOne found⟩
  | error failure =>
      by_cases missing : failure.isNotFound
      · simp only [missing, ↓reduceIte]
        exact leaves_createWith freshId .strict proper faithful valid live
      · simp only [missing, Bool.false_eq_true, ↓reduceIte]
        exact ⟨faithful, fun impossible => by simp [Plain.done] at impossible⟩

end Plain

namespace Plain

open Rows Service

variable {rows : Rows} {time : Timestamp} (freshId : RecordId)

theorem load_eq (time : Timestamp) (faithful : Faithful Document rows) (named : rows.Named)
    (id : RecordId) :
    Plain.load id time freshId rows = (.error (Record.unknownId Document id), rows) ∨
    ∃ document, Plain.load id time freshId rows = (.ok document, rows) ∧
      rows.Holds id document ∧ Record.isDeleted document = false := by
  simp only [Plain.load, Plain.bind, Plain.read, faithful.find_byId named id]
  cases found : rows.readByKey (Record.blank : Document) id with
  | error failure => exact Or.inl rfl
  | ok document => exact Or.inr ⟨document, rfl, faithful.of_readByKey found⟩

theorem leaves_updateDocument (proper : time.IsValid) (faithful : Faithful Document rows)
    {id : RecordId} {document : Document} (holds : rows.Holds id document)
    (live : Record.isDeleted document = false) (request : UpdateRequest) :
    Leaves .strict rows (Plain.update (request.apply document) time freshId rows) := by
  refine leaves_write freshId faithful live fun changed updated => ⟨id, ?_⟩
  exact faithful.update (holds.valid.updated proper) updated holds.own

theorem faithful_softDelete (proper : time.IsValid) (faithful : Faithful Document rows)
    {id : RecordId} {document : Document} (holds : rows.Holds id document) :
    Faithful Document (Plain.softDelete document time freshId rows).2 := by
  have updates : ∀ changed, rows.update (Record.touchUpdated
      { document with metadata := { document.metadata with deletedAt := some time } } time) =
      .ok changed → Faithful Document changed := fun changed updated =>
    (faithful.update ((holds.valid.deleted proper).updated proper) updated holds.own).2
  change Faithful Document (Plain.write .strict _ _ time freshId rows).2
  simp only [Plain.write, Plain.bind, Plain.effect, Plain.done]
  cases outcome : rows.update (Record.touchUpdated
      { document with metadata := { document.metadata with deletedAt := some time } } time) with
  | error failure => exact faithful
  | ok changed => exact updates changed outcome

theorem faithful_delete (time : Timestamp) (faithful : Faithful Document rows)
    (document : Document) :
    Faithful Document (Plain.delete document time freshId rows).2 := by
  simp only [Plain.delete, Plain.write, Plain.bind, Plain.effect, Plain.done]
  cases outcome : rows.delete document with
  | error failure => exact faithful
  | ok changed => exact faithful.delete outcome

end Plain

namespace Service

open Repository

/-! Calls of the handlers, one after the other -/

inductive Call where
  | createDocument (policy : DuplicatePolicy) (request : CreateRequest)
  | ensureDocument (request : CreateRequest)
  | listDocuments (request : ListRequest)
  | clearDocuments
  | documentExists (name : String)
  | getDocument (id : RecordId)
  | updateDocument (id : RecordId) (request : UpdateRequest)
  | deleteDocument (id : RecordId) (soft : Bool)
  | statistics
  | health

namespace Call

def activity (repository : Repository) : Call → Activity State HttpResponse
  | createDocument policy request => Service.createDocument repository policy request
  | ensureDocument request => Service.ensureDocument repository request
  | listDocuments request => Service.listDocuments repository request
  | clearDocuments => Service.clearDocuments repository
  | documentExists name => Service.documentExists repository name
  | getDocument id => Service.getDocument repository id
  | updateDocument id request => Service.updateDocument repository id request
  | deleteDocument id soft => Service.deleteDocument repository id soft
  | statistics => Service.statistics
  | health => Service.health repository

/-- What the call gives, unless that depends on what the cache did. -/
def plain? : Call → Option (Plain HttpResponse)
  | createDocument policy request => some (Plain.createDocument policy request)
  | ensureDocument request => some (Plain.ensureDocument request)
  | listDocuments request => some (Plain.listDocuments request)
  | clearDocuments => some Plain.clearDocuments
  | documentExists name => some (Plain.documentExists name)
  | getDocument id => some (Plain.getDocument id)
  | updateDocument id request => some (Plain.updateDocument id request)
  | deleteDocument id soft => some (Plain.deleteDocument id soft)
  | statistics => none
  | health => some Plain.health

/-- Whether the call answers a document that it wrote or found in its place. -/
def writes : Call → Bool
  | createDocument _ _ => true
  | ensureDocument _ => true
  | updateDocument _ _ => true
  | _ => false

def policy : Call → DuplicatePolicy
  | createDocument policy _ => policy
  | _ => .strict

theorem implements {repository : Repository} (tracking : repository.invalidation = .byIdentity)
    (stored : repository.hasStore = true) {call : Call} {plain : Plain HttpResponse}
    (given : call.plain? = some plain) :
    Implements served repository (call.activity repository) plain := by
  cases call with
  | createDocument policy request =>
      exact Option.some.inj given ▸ implements_createDocument tracking stored policy request
  | ensureDocument request =>
      exact Option.some.inj given ▸ implements_ensureDocument tracking stored request
  | listDocuments request =>
      exact Option.some.inj given ▸ implements_listDocuments tracking stored request
  | clearDocuments => exact Option.some.inj given ▸ implements_clearDocuments stored
  | documentExists name => exact Option.some.inj given ▸ implements_documentExists stored name
  | getDocument id => exact Option.some.inj given ▸ implements_getDocument tracking stored id
  | updateDocument id request =>
      exact Option.some.inj given ▸ implements_updateDocument tracking stored id request
  | deleteDocument id soft =>
      exact Option.some.inj given ▸ implements_deleteDocument tracking stored id soft
  | statistics => cases given
  | health => exact Option.some.inj given ▸ implements_health stored

end Call

/-! What the calls leave in the rows -/

def Shows (rows : Rows) (response : HttpResponse) : Prop :=
  ∃ (document : Document) (id : RecordId), document.id = some id ∧ rows.Holds id document ∧
    Record.isDeleted document = false ∧
    response = .json response.status (Reply.document document)

theorem status_ofFailure (failure : Failure) : ¬ (ofFailure failure).status < 300 := by
  obtain ⟨kind, detail⟩ := failure
  cases kind <;> simp [ofFailure, HttpResponse.json]

structure Displays (policy : DuplicatePolicy) (rows : Rows) (result : HttpResponse × Rows) :
    Prop where
  faithful : Rows.Faithful Document result.2
  shows : result.1.status < 300 → (policy = .ignore → result.2 ≠ rows) → Shows result.2 result.1

theorem displays_of_failure {policy : DuplicatePolicy} {rows : Rows} {response : HttpResponse}
    (faithful : Rows.Faithful Document rows) (failed : ¬ response.status < 300) :
    Displays policy rows (response, rows) :=
  ⟨faithful, fun success => absurd success failed⟩

section Displays

variable {policy : DuplicatePolicy} {rows : Rows} {time : Timestamp} {freshId : RecordId}

theorem displays_orRefuse {fault : Option RequestFault} {plain : Plain HttpResponse}
    (faithful : Rows.Faithful Document rows)
    (displays : Displays policy rows (plain time freshId rows)) :
    Displays policy rows (Plain.orRefuse fault plain time freshId rows) := by
  cases fault with
  | some reason =>
      exact displays_of_failure faithful (by simp [ofFault, HttpResponse.json])
  | none => exact displays

theorem displays_written {plain : Plain (Written Document)} {status : Nat}
    (leaves : Plain.Leaves policy rows (plain time freshId rows)) :
    Displays policy rows (Plain.map plain (ofWritten status) time freshId rows) := by
  refine ⟨leaves.faithful, fun success kept => ?_⟩
  generalize given : plain time freshId rows = result at leaves
  obtain ⟨⟨outcome, document⟩, changed⟩ := result
  simp only [Plain.map, Plain.bind, given, Plain.done] at success kept ⊢
  cases outcome with
  | error failure => exact absurd success (status_ofFailure failure)
  | ok answer =>
      obtain ⟨id, holds, live⟩ := leaves.holds rfl kept
      exact ⟨document, id, holds.own, holds, live, rfl⟩

theorem valid_of_request (request : CreateRequest) :
    (FaithfulRecord.metadata request.document).IsValid := Metadata.isValid_none

theorem displays_updateDocument (proper : time.IsValid) (named : rows.Named)
    (faithful : Rows.Faithful Document rows) (id : RecordId) (request : UpdateRequest) :
    Displays .strict rows (Plain.updateDocument id request time freshId rows) := by
  refine displays_orRefuse faithful ?_
  rcases Plain.load_eq freshId time faithful named id with
    missing | ⟨document, loaded, holds, live⟩
  · simp only [Plain.bind, missing]
    exact displays_of_failure faithful (status_ofFailure _)
  · simp only [Plain.bind, loaded]
    exact displays_written (Plain.leaves_updateDocument freshId proper faithful holds live request)

theorem faithful_deleteDocument (proper : time.IsValid) (named : rows.Named)
    (faithful : Rows.Faithful Document rows) (id : RecordId) (soft : Bool) :
    Rows.Faithful Document (Plain.deleteDocument id soft time freshId rows).2 := by
  rcases Plain.load_eq freshId time faithful named id with
    missing | ⟨document, loaded, holds, live⟩
  · simp only [Plain.deleteDocument, Plain.bind, missing]
    exact faithful
  · simp only [Plain.deleteDocument, Plain.bind, loaded]
    cases soft with
    | true => exact Plain.faithful_softDelete freshId proper faithful holds
    | false => exact Plain.faithful_delete freshId time faithful document

theorem faithful_documentExists (faithful : Rows.Faithful Document rows) (name : String) :
    Rows.Faithful Document (Plain.documentExists name time freshId rows).2 := by
  simp only [Plain.documentExists, Plain.existsLike, Plain.map, Plain.bind, Plain.read]
  cases rows.findOne (Record.blank : Document) (Record.naturalKey (Document.named name "")) <;>
    exact faithful

theorem faithful_listDocuments (faithful : Rows.Faithful Document rows) (request : ListRequest) :
    Rows.Faithful Document (Plain.listDocuments request time freshId rows).2 := by
  unfold Plain.listDocuments
  cases request.fault? <;> exact faithful

theorem displays_call (freshId : RecordId) {call : Call} {plain : Plain HttpResponse}
    (given : call.plain? = some plain)
    (proper : time.IsValid) (named : rows.Named) (faithful : Rows.Faithful Document rows) :
    Rows.Faithful Document (plain time freshId rows).2 ∧
      (call.writes = true → Displays call.policy rows (plain time freshId rows)) := by
  cases call with
  | createDocument policy request =>
      obtain rfl := Option.some.inj given
      have displays : Displays policy rows
          (Plain.createDocument policy request time freshId rows) :=
        displays_orRefuse faithful (displays_written
          (Plain.leaves_createWith freshId policy proper faithful (valid_of_request request) rfl))
      exact ⟨displays.faithful, fun _ => displays⟩
  | ensureDocument request =>
      obtain rfl := Option.some.inj given
      have displays : Displays .strict rows (Plain.ensureDocument request time freshId rows) :=
        displays_orRefuse faithful (displays_written
          (Plain.leaves_createIfAbsent freshId proper faithful (valid_of_request request) rfl))
      exact ⟨displays.faithful, fun _ => displays⟩
  | updateDocument id request =>
      obtain rfl := Option.some.inj given
      have displays : Displays .strict rows
          (Plain.updateDocument id request time freshId rows) :=
        displays_updateDocument proper named faithful id request
      exact ⟨displays.faithful, fun _ => displays⟩
  | deleteDocument id soft =>
      obtain rfl := Option.some.inj given
      exact ⟨faithful_deleteDocument proper named faithful id soft,
        fun impossible => by cases impossible⟩
  | clearDocuments =>
      obtain rfl := Option.some.inj given
      exact ⟨Rows.faithful_empty, fun impossible => by cases impossible⟩
  | listDocuments request =>
      obtain rfl := Option.some.inj given
      exact ⟨faithful_listDocuments faithful request, fun impossible => by cases impossible⟩
  | documentExists name =>
      obtain rfl := Option.some.inj given
      exact ⟨faithful_documentExists faithful name, fun impossible => by cases impossible⟩
  | getDocument id =>
      obtain rfl := Option.some.inj given
      exact ⟨faithful, fun impossible => by cases impossible⟩
  | statistics => cases given
  | health =>
      obtain rfl := Option.some.inj given
      exact ⟨faithful, fun impossible => by cases impossible⟩

end Displays

/-! Histories -/

/-- A call with the time and the fresh identity that it sees. -/
structure Errand where
  call : Call
  time : Timestamp
  freshId : RecordId

def Errand.clock (errand : Errand) (instants : Nat → Instant) (step : Nat) : Moment :=
  ⟨instants step, errand.time, errand.freshId⟩

def Errand.run (repository : Repository) (instants : Nat → Instant) (errand : Errand) (step : Nat)
    (state : State) : HttpResponse × State × Nat :=
  (errand.call.activity repository).runOn (errand.clock instants) step state

def runErrands (repository : Repository) (instants : Nat → Instant) :
    List Errand → (step : Nat) → State → State × Nat
  | [], step, state => (state, step)
  | errand :: rest, step, state =>
    let (_, state, step) := errand.run repository instants step state
    runErrands repository instants rest step state

section Histories

variable {repository : Repository} {instants : Nat → Instant} {step : Nat} {state : State}

/-- Between two errands, if the store holds whole documents. -/
structure Tended (repository : Repository) (instants : Nat → Instant) (step : Nat)
    (state : State) : Prop where
  between : Between repository instants step state
  faithful : Rows.Faithful Document state.store.rows

theorem Tended.named (tended : Tended repository instants step state) :
    state.store.rows.Named := by
  obtain ⟨world, rfl, _⟩ := tended.between.ready.world
  exact world.2.rows

theorem Tended.run (tended : Tended repository instants step state) {errand : Errand}
    (proper : errand.time.IsValid) :
    Tended repository instants (errand.run repository instants step state).2.2
        (errand.run repository instants step state).2.1 ∧
      ∀ plain, errand.call.plain? = some plain →
        (errand.run repository instants step state).1 =
            (plain errand.time errand.freshId state.store.rows).1 ∧
          (errand.run repository instants step state).2.1.store.rows =
            (plain errand.time errand.freshId state.store.rows).2 := by
  have between := tended.between
  cases given : errand.call.plain? with
  | none =>
      have statistics : errand.call = .statistics := by
        cases called : errand.call with
        | statistics => rfl
        | _ => simp [called, Call.plain?] at given
      have ran : (errand.run repository instants step state).2 = (state, step + 1) := by
        rw [Errand.run, statistics]
        rfl
      rw [ran]
      refine ⟨⟨⟨between.tracking, between.stored, between.order, ?_⟩, tended.faithful⟩,
        fun _ impossible => by cases impossible⟩
      exact between.ready.mono (between.order step)
  | some plain =>
      have clockwise : Clockwise (errand.clock instants) errand.time errand.freshId :=
        ⟨between.order, fun _ => rfl, fun _ => rfl⟩
      obtain ⟨after, next, ran, rows, ready⟩ :=
        Call.implements between.tracking between.stored given _ _ _ step state clockwise
          between.ready
      have ran : errand.run repository instants step state = _ := ran
      rw [ran]
      have faithful :=
        (displays_call errand.freshId given proper tended.named tended.faithful).1
      refine ⟨⟨⟨between.tracking, between.stored, between.order, ready⟩, rows ▸ faithful⟩, ?_⟩
      intro other same
      obtain rfl := Option.some.inj same
      exact ⟨rfl, rows⟩

theorem Tended.runErrands (tended : Tended repository instants step state) {errands : List Errand}
    (proper : ∀ errand ∈ errands, errand.time.IsValid) :
    Tended repository instants (Service.runErrands repository instants errands step state).2
      (Service.runErrands repository instants errands step state).1 := by
  induction errands generalizing step state with
  | nil => exact tended
  | cons errand rest ih =>
      have first := (tended.run (proper errand List.mem_cons_self)).1
      exact ih first fun other member => proper other (List.mem_cons_of_mem _ member)

theorem Tended.getDocument (tended : Tended repository instants step state) {errand : Errand}
    (proper : errand.time.IsValid) (writes : errand.call.writes = true)
    (success : (errand.run repository instants step state).1.status < 300)
    (kept : errand.call.policy = .ignore →
      (errand.run repository instants step state).2.1.store.rows ≠ state.store.rows) :
    ∃ (document : Document) (id : RecordId), document.id = some id ∧
      (errand.run repository instants step state).1 =
        .json (errand.run repository instants step state).1.status (Reply.document document) ∧
      ∀ time freshId, ((⟨.getDocument id, time, freshId⟩ : Errand).run repository instants
        (errand.run repository instants step state).2.2
        (errand.run repository instants step state).2.1).1 =
          .json 200 (Reply.document document) := by
  obtain ⟨plain, given⟩ : ∃ plain, errand.call.plain? = some plain := by
    cases called : errand.call with
    | statistics => simp [called, Call.writes] at writes
    | _ => exact ⟨_, rfl⟩
  obtain ⟨after, gives⟩ := tended.run proper
  obtain ⟨response, rows⟩ := gives plain given
  have displays :=
    (displays_call errand.freshId given proper tended.named tended.faithful).2 writes
  rw [response] at success ⊢
  rw [rows] at kept
  obtain ⟨document, id, own, holds, live, shown⟩ := displays.shows success kept
  refine ⟨document, id, own, shown, fun time freshId => ?_⟩
  have between := after.between
  have clockwise : Clockwise (Errand.clock ⟨.getDocument id, time, freshId⟩ instants) time
    freshId := ⟨between.order, fun _ => rfl, fun _ => rfl⟩
  obtain ⟨_, _, ran, _, _⟩ := implements_getDocument between.tracking between.stored id _ _ _ _ _
    clockwise between.ready
  have ran : Errand.run repository instants ⟨.getDocument id, time, freshId⟩ _ _ = _ := ran
  rw [ran, rows]
  simp only [Plain.getDocument, Plain.map, Plain.bind, Plain.read, holds.readByKey live]
  rfl

theorem keeps_call (repository : Repository) (call : Call) (latency : Option Duration) :
    (call.activity repository).Keeps fun state => state.store.latency = latency := by
  have steady := MemoryStore.steady_latency (ρ := Document) latency
  have stable := steady_store repository steady
  have refuse : ∀ {fault : Option RequestFault} {next : Activity State HttpResponse},
      next.Keeps (fun state => state.store.latency = latency) →
      (orRefuse fault next).Keeps fun state => state.store.latency = latency := by
    intro fault next keeps
    cases fault with
    | some fault => trivial
    | none => exact keeps
  have loads : ∀ id, (load repository id).Keeps fun state => state.store.latency = latency := by
    intro id
    refine (keeps_uncached (MemoryStore.keeps_call steady .find _)).bind fun found => ?_
    cases found with
    | error failure => trivial
    | ok documents => cases documents <;> trivial
  cases call with
  | createDocument policy request =>
      exact refuse ((keeps_createWith stable policy request.document).bind fun _ => trivial)
  | ensureDocument request =>
      exact refuse ((keeps_createIfAbsent stable request.document).bind fun _ => trivial)
  | listDocuments request =>
      exact refuse ((keeps_cachedRead (MemoryStore.keeps_call steady .find _)).bind
        fun _ => trivial)
  | clearDocuments => exact (keeps_truncate stable).bind fun _ => trivial
  | documentExists name =>
      refine Activity.Keeps.bind ?_ fun _ => trivial
      refine (keeps_uncached (MemoryStore.keeps_call steady .findOne _)).bind fun found => ?_
      cases found <;> trivial
  | getDocument id =>
      exact (keeps_cachedRead (MemoryStore.keeps_call steady .readByKey _)).bind fun _ => trivial
  | updateDocument id request =>
      refine refuse ((loads id).bind fun loaded => ?_)
      cases loaded with
      | error failure => trivial
      | ok document =>
          exact (keeps_update stable (request.apply document)).bind fun _ => trivial
  | deleteDocument id soft =>
      refine (loads id).bind fun loaded => ?_
      cases loaded with
      | error failure => trivial
      | ok document =>
          cases soft with
          | true => exact (keeps_softDelete stable document).bind fun _ => trivial
          | false => exact (keeps_delete stable document).bind fun _ => trivial
  | statistics => exact ⟨fun _ _ same => same, fun _ => trivial⟩
  | health => exact ⟨fun _ _ same => same, fun _ => trivial⟩

theorem latency_runErrands (repository : Repository) (instants : Nat → Instant)
    (errands : List Errand) (step : Nat) (state : State) :
    (runErrands repository instants errands step state).1.store.latency = state.store.latency := by
  induction errands generalizing step state with
  | nil => rfl
  | cons errand rest ih =>
      have first := (keeps_call repository errand.call
        state.store.latency).runOn (errand.clock instants) step rfl
      exact (ih _ _).trans first

theorem refused_of_late (instants : Nat → Instant) (step : Nat)
    (stored : repository.hasStore = true)
    (late : Late repository.queryTimeout state.store) {errand : Errand}
    (writes : errand.call.writes = true) :
    ¬ (errand.run repository instants step state).1.status < 300 := by
  have refuse : ∀ {fault : Option RequestFault} {next : Activity State HttpResponse},
      ¬ (next.runOn (errand.clock instants) step state).1.status < 300 →
      ¬ ((orRefuse fault next).runOn (errand.clock instants) step state).1.status < 300 := by
    intro fault next refused
    cases fault with
    | some fault => simp [orRefuse, Activity.runOn, ofFault, HttpResponse.json]
    | none => exact refused
  have fails : ∀ {status : Nat} {written : Written Document},
      (∃ failure, written.outcome = .error failure) →
        ¬ (ofWritten status written).status < 300 := by
    rintro status ⟨_, record⟩ ⟨failure, rfl⟩
    exact status_ofFailure failure
  unfold Errand.run
  cases called : errand.call with
  | createDocument policy request =>
      refine refuse ?_
      rw [Activity.runOn_bind]
      exact fails (runOn_createWith_late stored late policy request.document)
  | ensureDocument request =>
      refine refuse ?_
      rw [Activity.runOn_bind]
      exact fails (runOn_createIfAbsent_late stored late request.document)
  | updateDocument id request =>
      refine refuse ?_
      rw [Activity.runOn_bind, load, Activity.runOn_bind, findMatches, MemoryStore.find,
        MemoryStore.readCall, runOn_uncached_late stored late]
      exact status_ofFailure _
  | _ => simp [called, Call.writes] at writes

end Histories

theorem tended_of_start {settings : Settings} {store : MemoryStore Document} {state : State}
    {instants : Nat → Instant} (invalidates : settings.invalidateOnWrite = true)
    (started : settings.start store = .ok state) (calm : store.faults = [])
    (timely : ∀ latency, store.latency = some latency →
      latency.pauseTicks ≤ settings.queryLimit.ticks)
    (named : store.rows.Named) (faithful : Rows.Faithful Document store.rows)
    (order : ∀ step, instants step ≤ instants (step + 1)) :
    Tended settings.repository instants 0 state := by
  obtain ⟨between, kept⟩ := between_of_start invalidates started calm timely named order
  exact ⟨between, kept ▸ faithful⟩

/--
After any calls of the handlers, one after the other: if a create, an ensure or an update succeeds,
then it answers a document, and a read of the identity of that document answers the same next. Of a
permissive create this holds as long as it stored its document.
-/
theorem getDocument_after_write {settings : Settings} {store : MemoryStore Document}
    {state : State} {instants : Nat → Instant} (invalidates : settings.invalidateOnWrite = true)
    (started : settings.start store = .ok state) (calm : store.faults = [])
    (named : store.rows.Named) (faithful : Rows.Faithful Document store.rows)
    (order : ∀ step, instants step ≤ instants (step + 1)) {history : List Errand} {errand : Errand}
    (proper : ∀ errand ∈ history, errand.time.IsValid) (timed : errand.time.IsValid)
    (writes : errand.call.writes = true) {before after : State} {step next : Nat}
    {response : HttpResponse}
    (ran : runErrands settings.repository instants history 0 state = (before, step))
    (answered : errand.run settings.repository instants step before = (response, after, next))
    (success : response.status < 300)
    (stored : errand.call.policy = .ignore → after.store.rows ≠ before.store.rows) :
    ∃ (document : Document) (id : RecordId), document.id = some id ∧
      response = .json response.status (Reply.document document) ∧
      ∀ time freshId, ((⟨.getDocument id, time, freshId⟩ : Errand).run settings.repository
        instants next after).1 = .json 200 (Reply.document document) := by
  by_cases late : Late settings.queryLimit store
  · have kept := store_of_start started
    have latency : before.store.latency = store.latency := by
      have same := latency_runErrands settings.repository instants history 0 state
      rw [ran, kept] at same
      exact same
    have still : Late settings.repository.queryTimeout before.store := by
      obtain ⟨span, given, long⟩ := late
      exact ⟨span, latency.trans given, long⟩
    have refused := refused_of_late instants step rfl still writes
    rw [answered] at refused
    exact absurd success refused
  · have timely : ∀ latency, store.latency = some latency →
        latency.pauseTicks ≤ settings.queryLimit.ticks := by
      intro latency given
      by_contra long
      exact late ⟨latency, given, by omega⟩
    have start := tended_of_start invalidates started calm timely named faithful order
    have tended := start.runErrands proper
    rw [ran] at tended
    have shown := tended.getDocument timed writes
    rw [answered] at shown
    exact shown success stored

def createNamed (policy : DuplicatePolicy) (content freshId : String) : Errand :=
  ⟨.createDocument policy ⟨none, "x", content⟩, ⟨2024, 1, 1, 0, 0, 0, 0⟩, ⟨freshId⟩⟩

def renameDocument : Errand :=
  ⟨.updateDocument ⟨"a"⟩ ⟨some "y", none⟩, ⟨2024, 1, 2, 0, 0, 0, 0⟩, ⟨"b"⟩⟩

theorem getDocument_after_rename :
    ∃ (state before after : State) (step next : Nat) (response : HttpResponse)
      (document : Document) (id : RecordId),
      Settings.standard.start (.create none) = .ok state ∧
      runErrands Settings.standard.repository Instant.mk [createNamed .strict "1" "a"] 0 state =
        (before, step) ∧
      renameDocument.run Settings.standard.repository Instant.mk step before =
        (response, after, next) ∧
      document.id = some id ∧
      response = .json response.status (Reply.document document) ∧
      ∀ time freshId, (Errand.run Settings.standard.repository Instant.mk
        ⟨.getDocument id, time, freshId⟩ next after).1 = .json 200 (Reply.document document) := by
  obtain ⟨state, started⟩ : ∃ state, Settings.standard.start (.create none) = .ok state :=
    ⟨_, rfl⟩
  have order : ∀ step, Instant.mk step ≤ ⟨step + 1⟩ := fun step => Nat.le_succ step
  have timed : ∀ errand ∈ [createNamed .strict "1" "a"], errand.time.IsValid := by decide
  let visited := runErrands Settings.standard.repository Instant.mk [createNamed .strict "1" "a"] 0
    state
  let given := renameDocument.run Settings.standard.repository Instant.mk visited.2 visited.1
  have success : given.1.status < 300 := by
    cases started
    decide +kernel
  obtain ⟨document, id, own, shown, read⟩ := getDocument_after_write rfl started rfl
    Rows.named_empty Rows.faithful_empty order timed (by decide) rfl
    (rfl : _ = (visited.1, visited.2)) (rfl : _ = (given.1, given.2.1, given.2.2)) success
    (fun impossible => by cases impossible)
  exact ⟨state, _, _, _, _, _, document, id, started, rfl, rfl, own, shown, read⟩

/--
A permissive create of a name that is taken answers a new document, but stores none: a read of its
identity finds nothing.
-/
theorem getDocument_after_ignored_duplicate :
    ∃ (state before after : State) (step next : Nat),
      Settings.standard.start (.create none) = .ok state ∧
      runErrands Settings.standard.repository Instant.mk [createNamed .strict "1" "a"] 0 state =
        (before, step) ∧
      (createNamed .ignore "2" "b").run Settings.standard.repository Instant.mk step before =
        (.json 201 (Reply.document
          ⟨some ⟨"b"⟩, "x", "2", ⟨some ⟨2024, 1, 1, 0, 0, 0, 0⟩, none, none⟩⟩), after, next) ∧
      ∀ time freshId, (Errand.run Settings.standard.repository Instant.mk
        ⟨.getDocument ⟨"b"⟩, time, freshId⟩ next after).1 =
        ofFailure (Record.unknownId Document ⟨"b"⟩) :=
  ⟨_, _, _, _, _, rfl, rfl, rfl, fun _ _ => rfl⟩

end Service

end CachedStore
