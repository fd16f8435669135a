import CachedStore.Proofs.Service.Dispatch
import CachedStore.Proofs.Store.Representation

/-!
Documents that were marked as deleted and keep their rows. Nothing but the removal of all documents
changes such a row, no read finds it, and its identity and its name stay taken.
-/

namespace CachedStore

/-! Rows of deleted records -/

namespace Rows

variable {ρ : Type} [Record ρ] {rows changed : Rows}

theorem live_of_mem_liveRows {listed live : List Row} (given : liveRows ρ listed = .ok live)
    {row : Row} (member : row ∈ live) : row ∈ listed ∧ isLive ρ row = .ok true := by
  induction listed generalizing live with
  | nil =>
      obtain rfl := Except.ok.inj given
      cases member
  | cons first rest ih =>
      obtain ⟨alive, shown, given⟩ := bind_eq_ok.mp given
      obtain ⟨others, found, given⟩ := bind_eq_ok.mp given
      obtain rfl := Except.ok.inj given
      have later : row ∈ others → row ∈ first :: rest ∧ isLive ρ row = .ok true := fun member =>
        ⟨List.mem_cons_of_mem _ (ih found member).1, (ih found member).2⟩
      cases alive with
      | false => exact later member
      | true =>
          rcases List.mem_cons.mp member with rfl | other
          · exact ⟨List.mem_cons_self, shown⟩
          · exact later other

theorem live_of_mem_select {query : Query} {selected : List Row}
    (given : select ρ rows query = .ok selected) {row : Row} (member : row ∈ selected) :
    row ∈ contents rows ∧ isLive ρ row = .ok true := by
  obtain ⟨live, found, given⟩ := bind_eq_ok.mp given
  obtain rfl := Except.ok.inj given
  have cut : row ∈ query.order.elim live fun order => order.sort live := by
    cases limit : query.effectiveLimit with
    | none =>
        rw [limit] at member
        exact member
    | some limit =>
        rw [limit] at member
        exact List.mem_of_mem_take member
  have sorted : row ∈ live := by
    cases order : query.order with
    | none =>
        rw [order] at cut
        exact cut
    | some order =>
        rw [order] at cut
        exact List.mem_mergeSort.mp cut
  obtain ⟨matched, alive⟩ := live_of_mem_liveRows found sorted
  exact ⟨(List.mem_filter.mp matched).1, alive⟩

variable [FaithfulRecord ρ]

theorem Faithful.of_contents (faithful : rows.Faithful ρ) {row : Row}
    (member : row ∈ contents rows) : ∃ id, ∃ record : ρ, rows.Holds id record ∧
      Record.toRow record = .ok row := by
  obtain ⟨⟨id, _⟩, listed, rfl⟩ := List.mem_map.mp member
  have stored := Std.TreeMap.mem_toList_iff_getElem?_eq_some.mp listed
  obtain ⟨record, holds⟩ := faithful id _ stored
  obtain ⟨row, found, shown⟩ := holds.stored
  obtain rfl := Option.some.inj (stored.symm.trans found)
  exact ⟨id, record, holds, shown⟩

theorem Faithful.find_live (faithful : rows.Faithful ρ) {query : Query}
    (whole : query.columns = none) :
    ∃ records : List ρ, rows.find [] query = .ok records ∧
      ∀ record ∈ records, ∃ id, rows.Holds id record ∧ Record.isDeleted record = false := by
  have readable : ∀ row ∈ contents rows, row.Readable ρ := fun row member =>
    have ⟨_, record, holds, shown⟩ := faithful.of_contents member
    ⟨record, FaithfulRecord.ofRow_toRow holds.valid shown⟩
  obtain ⟨selected, chosen, _⟩ := select_ok query readable
  have populated : ∀ row ∈ selected,
      ∃ record : ρ, populate (Record.blank : ρ) (query.project row) = .ok record ∧
        ∃ id, rows.Holds id record ∧ Record.isDeleted record = false := by
    intro row member
    obtain ⟨listed, alive⟩ := live_of_mem_select chosen member
    obtain ⟨id, record, holds, shown⟩ := faithful.of_contents listed
    rw [isLive_of_toRow holds.valid shown] at alive
    refine ⟨record, ?_, id, holds, by simpa using Except.ok.inj alive⟩
    rw [Query.project, whole]
    exact FaithfulRecord.populate_toRow holds.valid shown
  obtain ⟨records, found, live⟩ := mapM_ok_forall populated
  refine ⟨records, ?_, live⟩
  rw [Rows.find, chosen]
  change (do
    let found ← selected.mapM fun row => populate (Record.blank : ρ) (query.project row)
    return [] ++ found) = _
  rw [found]
  rfl

/-- A record that is marked as deleted, and whose row is still there. -/
structure Buried (rows : Rows) (id : RecordId) (record : ρ) : Prop where
  holds : rows.Holds id record
  deleted : Record.isDeleted record = true

namespace Buried

variable {id other : RecordId} {record new : ρ}

theorem ne_of_live (buried : rows.Buried id record) (holds : rows.Holds other new)
    (live : Record.isDeleted new = false) : other ≠ id := by
  rintro rfl
  obtain rfl := buried.holds.unique holds
  rw [buried.deleted] at live
  cases live

theorem of_others (buried : rows.Buried id record) (same : changed[id]? = rows[id]?) :
    changed.Buried id record := by
  obtain ⟨⟨valid, own, row, stored, shown⟩, deleted⟩ := buried
  exact ⟨⟨valid, own, row, same.trans stored, shown⟩, deleted⟩

theorem create (buried : rows.Buried id record) (created : rows.create new = .ok changed) :
    changed.Buried id record := by
  obtain ⟨given, row, _, _, free, _, rfl⟩ := create_eq_ok created
  refine buried.of_others (getElem?_insert_of_ne rows row ?_)
  rintro rfl
  obtain ⟨_, stored, _⟩ := buried.holds.stored
  rw [free] at stored
  cases stored

theorem update (buried : rows.Buried id record) (own : Record.id? new = some other)
    (different : other ≠ id) (updated : rows.update new = .ok changed) :
    changed.Buried id record := by
  obtain ⟨given, row, required, _, _, rfl⟩ := update_eq_ok updated
  obtain rfl : given = other := Option.some.inj ((id?_of_requireId required).symm.trans own)
  exact buried.of_others (getElem?_insert_of_ne rows row different.symm)

theorem delete (buried : rows.Buried id record) (own : Record.id? new = some other)
    (different : other ≠ id) (deleted : rows.delete new = .ok changed) :
    changed.Buried id record := by
  obtain ⟨given, required, rfl⟩ := delete_eq_ok deleted
  obtain rfl : given = other := Option.some.inj ((id?_of_requireId required).symm.trans own)
  exact buried.of_others (getElem?_erase_of_ne rows different.symm)

end Buried

end Rows

/-! What the handlers leave of a deleted document -/

namespace Plain

open Rows

variable {rows : Rows} {id : RecordId} {document : Document} (time : Timestamp)
  (freshId : RecordId)

theorem buried_write (policy : DuplicatePolicy) (written : Document)
    {change : Rows → Except Failure Rows} (buried : rows.Buried id document)
    (keeps : ∀ changed, change rows = .ok changed → changed.Buried id document) :
    (Plain.write policy written change time freshId rows).2.Buried id document := by
  simp only [Plain.write, Plain.bind, Plain.effect, Plain.done]
  cases outcome : change rows with
  | error failure => exact buried
  | ok changed => exact keeps changed outcome

theorem buried_createWith (policy : DuplicatePolicy) (new : Document)
    (buried : rows.Buried id document) :
    (Plain.createWith policy new time freshId rows).2.Buried id document := by
  simp only [Plain.createWith, Plain.ask]
  cases Repository.stampNew new ⟨⟨0⟩, time, freshId⟩ with
  | error failure => exact buried
  | ok stamped =>
      exact buried_write time freshId policy _ buried fun changed created => buried.create created

theorem buried_createIfAbsent (new : Document) (buried : rows.Buried id document) :
    (Plain.createIfAbsent new time freshId rows).2.Buried id document := by
  simp only [Plain.createIfAbsent, Plain.bind, Plain.read]
  cases rows.findOne (Record.blank : Document) (Record.naturalKey new) with
  | ok existing => exact buried
  | error failure =>
      by_cases missing : failure.isNotFound
      · simp only [missing, ↓reduceIte]
        exact buried_createWith time freshId .strict new buried
      · simp only [missing, Bool.false_eq_true, ↓reduceIte]
        exact buried

section Loaded

variable {other : RecordId} {live : Document} (buried : rows.Buried id document)
  (own : live.id = some other) (different : other ≠ id)

include buried own different

theorem buried_update (request : UpdateRequest) :
    (Plain.update (request.apply live) time freshId rows).2.Buried id document := by
  refine buried_write time freshId .strict _ buried fun _ updated =>
    buried.update ?_ different updated
  exact own

theorem buried_softDelete : (Plain.softDelete live time freshId rows).2.Buried id document := by
  refine buried_write time freshId .strict _ buried fun _ updated =>
    buried.update ?_ different updated
  exact own

theorem buried_delete : (Plain.delete live time freshId rows).2.Buried id document :=
  buried_write time freshId .strict _ buried fun _ deleted => buried.delete own different deleted

end Loaded

end Plain

namespace Service

open Rows Repository

section Denied

variable {rows : Rows} {id : RecordId} {document : Document} {time : Timestamp}
  {freshId : RecordId}

theorem buried_call (named : rows.Named) (faithful : Rows.Faithful Document rows)
    (buried : rows.Buried id document) {call : Call} {plain : Plain HttpResponse}
    (given : call.plain? = some plain) (other : call ≠ .clearDocuments) :
    (plain time freshId rows).2.Buried id document := by
  have refuses : ∀ {fault : Option RequestFault} {plain : Plain HttpResponse},
      (plain time freshId rows).2.Buried id document →
      (Plain.orRefuse fault plain time freshId rows).2.Buried id document := by
    intro fault plain keeps
    cases fault with
    | some fault => exact buried
    | none => exact keeps
  cases call with
  | createDocument policy request =>
      obtain rfl := Option.some.inj given
      exact refuses (Plain.buried_createWith time freshId policy request.document buried)
  | ensureDocument request =>
      obtain rfl := Option.some.inj given
      exact refuses (Plain.buried_createIfAbsent time freshId request.document buried)
  | listDocuments request =>
      obtain rfl := Option.some.inj given
      exact refuses buried
  | clearDocuments => exact absurd rfl other
  | documentExists name =>
      obtain rfl := Option.some.inj given
      simp only [Plain.documentExists, Plain.existsLike, Plain.map, Plain.bind, Plain.read]
      cases rows.findOne (Record.blank : Document) (Record.naturalKey (Document.named name "")) <;>
        exact buried
  | getDocument id =>
      obtain rfl := Option.some.inj given
      exact buried
  | updateDocument id request =>
      obtain rfl := Option.some.inj given
      refine refuses ?_
      rcases Plain.load_eq freshId time faithful named id with
        missing | ⟨live, loaded, holds, alive⟩
      · simp only [Plain.bind, missing]
        exact buried
      · simp only [Plain.bind, loaded]
        exact Plain.buried_update time freshId buried holds.own (buried.ne_of_live holds alive)
          request
  | deleteDocument id soft =>
      obtain rfl := Option.some.inj given
      rcases Plain.load_eq freshId time faithful named id with
        missing | ⟨live, loaded, holds, alive⟩
      · simp only [Plain.deleteDocument, Plain.bind, missing]
        exact buried
      · simp only [Plain.deleteDocument, Plain.bind, loaded]
        have different := buried.ne_of_live holds alive
        cases soft with
        | true => exact Plain.buried_softDelete time freshId buried holds.own different
        | false => exact Plain.buried_delete time freshId buried holds.own different
  | statistics => cases given
  | health =>
      obtain rfl := Option.some.inj given
      exact buried

/-- What a call answers about a document that is gone, by its identity and its name. -/
def Denies (id : RecordId) (name : String) : Call → HttpResponse → Prop
  | .getDocument other, response => other = id → response.status = 404
  | .updateDocument other request, response =>
    other = id → request.fault? = none → response.status = 404
  | .deleteDocument other _, response => other = id → response.status = 404
  | .listDocuments request, response =>
    request.fault? = none → ∃ documents : List Document,
      response = .json 200 (Reply.listing documents) ∧
      ∀ document ∈ documents, document.id ≠ some id
  | .documentExists other, response =>
    other = name → response = .json 200 (Reply.existence name false)
  | .createDocument .strict request, response =>
    request.fault? = none → request.id = some id.text ∨ request.name = name →
      response.status = 409
  | _, _ => True

theorem load_of_buried (named : rows.Named) (faithful : Rows.Faithful Document rows)
    (buried : rows.Buried id document) :
    Plain.load id time freshId rows = (.error (Record.unknownId Document id), rows) := by
  rcases Plain.load_eq freshId time faithful named id with missing | ⟨live, _, holds, alive⟩
  · exact missing
  · exact absurd rfl (buried.ne_of_live holds alive)

theorem findOne_of_buried (named : rows.Named) (buried : rows.Buried id document) :
    rows.findOne (Record.blank : Document) (.equals "name" (.string document.name)) =
      .error (Record.noMatch Document (.equals "name" (.string document.name))) := by
  exact (buried.holds.findOne_name named).trans (if_pos buried.deleted)

theorem create_of_buried (buried : rows.Buried id document) {new : Document} {other : RecordId}
    (own : Record.givenId? new = some other) (same : other = id ∨ new.name = document.name) :
    ∃ failure, rows.create new = .error failure ∧ failure.isDuplicate = true := by
  obtain ⟨row, stored, shown⟩ := buried.holds.stored
  obtain ⟨given, written⟩ := FaithfulRecord.toRow_ok new
  rcases @create_cases Document _ rows new other given (requireId_eq_ok.mpr own) written with
    ⟨free, untaken, _⟩ | ⟨failure, refused, duplicate, _⟩
  · by_cases equal : id = other
    · subst equal
      rw [free] at stored
      cases stored
    · have name := same.resolve_left fun same => equal same.symm
      have rejected := rejected_of_not_taken untaken rfl stored equal
      have shows : row.get "name" = .string document.name := NamedRecord.toRow_name shown
      simp [Record.naturalKey, Filter.accepts, Filter.equals, shows, name, Json.same] at rejected
  · exact ⟨failure, refused, duplicate⟩

theorem status_ofDuplicate {failure : Failure} (duplicate : failure.isDuplicate = true) :
    (ofFailure failure).status = 409 := by
  obtain ⟨kind, detail⟩ := failure
  cases kind with
  | duplicate => rfl
  | notFound | queryFailed | configuration => cases duplicate

theorem givenId?_document {request : CreateRequest} {id : RecordId}
    (valid : request.fault? = none) (requested : request.id = some id.text) :
    Record.givenId? request.document = some id := by
  have written : id.isEmpty = false := by
    by_contra empty
    have blank : id.text = "" := by simpa [RecordId.isEmpty] using empty
    have refused : request.id.any Text.allBlank = true := by
      rw [requested, blank]
      rfl
    simp [CreateRequest.fault?, refused] at valid
  have own : request.document.id = some id := by
    rw [CreateRequest.document, requested]
    rfl
  rw [Record.givenId?]
  exact Option.filter_eq_some_iff.mpr ⟨own, by simp [written]⟩

theorem denies_createDocument (fresh : freshId.isEmpty = false) (buried : rows.Buried id document)
    {request : CreateRequest} (valid : request.fault? = none)
    (taken : request.id = some id.text ∨ request.name = document.name) :
    (Plain.createDocument .strict request time freshId rows).1.status = 409 := by
  obtain ⟨other, stamped, stamps, own, name, _⟩ :=
    Repository.stampNew_ok request.document ⟨⟨0⟩, time, freshId⟩
  have given : Record.givenId? stamped = some other :=
    Repository.givenId?_of_stampNew fresh stamps
  have same : other = id ∨ stamped.name = document.name := by
    refine taken.imp (fun requested => ?_) fun requested => name.trans requested
    rw [Repository.id_eq_of_stampNew stamps, givenId?_document valid requested]
    rfl
  obtain ⟨failure, refused, duplicate⟩ := create_of_buried buried given same
  have response : (Plain.createDocument .strict request time freshId rows).1 =
      ofFailure failure := by
    simp only [Plain.createDocument, Plain.orRefuse, valid, Plain.map, Plain.bind,
      Plain.createWith, Plain.ask, stamps, Plain.write, Plain.effect, Plain.done, refused]
    rfl
  rw [response, status_ofDuplicate duplicate]

theorem denies_call (fresh : freshId.isEmpty = false) (named : rows.Named)
    (faithful : Rows.Faithful Document rows) (buried : rows.Buried id document) {call : Call}
    {plain : Plain HttpResponse} (given : call.plain? = some plain) :
    Denies id document.name call (plain time freshId rows).1 := by
  have unknown : (ofFailure (Record.unknownId Document id)).status = 404 := rfl
  have missing : Plain.load id time freshId rows = _ := load_of_buried named faithful buried
  cases call with
  | createDocument policy request =>
      obtain rfl := Option.some.inj given
      cases policy with
      | ignore => trivial
      | strict => exact denies_createDocument fresh buried
  | listDocuments request =>
      obtain rfl := Option.some.inj given
      intro valid
      have whole : request.query.columns = none := rfl
      obtain ⟨documents, found, live⟩ := faithful.find_live whole
      refine ⟨documents, ?_, fun listed member same => ?_⟩
      · simp only [Plain.listDocuments, Plain.orRefuse, valid, Plain.map, Plain.bind, Plain.read,
          Plain.done, found]
        rfl
      · obtain ⟨other, holds, alive⟩ := live listed member
        exact buried.ne_of_live holds alive (Option.some.inj (holds.own.symm.trans same))
  | documentExists name =>
      obtain rfl := Option.some.inj given
      rintro rfl
      have found := findOne_of_buried named buried
      change rows.findOne _ (Record.naturalKey (Document.named document.name "")) = _ at found
      simp only [Plain.documentExists, Plain.existsLike, Plain.map, Plain.bind, Plain.read, found]
      rfl
  | getDocument other =>
      obtain rfl := Option.some.inj given
      rintro rfl
      simp only [Plain.getDocument, Plain.map, Plain.bind, Plain.read,
        readByKey_of_deleted buried.holds buried.deleted]
      exact unknown
  | updateDocument other request =>
      obtain rfl := Option.some.inj given
      rintro rfl valid
      simp only [Plain.updateDocument, Plain.orRefuse, valid, Plain.bind, missing]
      exact unknown
  | deleteDocument other soft =>
      obtain rfl := Option.some.inj given
      rintro rfl
      simp only [Plain.deleteDocument, Plain.bind, missing]
      exact unknown
  | ensureDocument _ | clearDocuments | statistics | health => trivial

theorem buried_of_deletion (proper : time.IsValid) (named : rows.Named)
    (faithful : Rows.Faithful Document rows)
    (success : (Plain.deleteDocument id true time freshId rows).1.status = 200) :
    ∃ live document : Document, rows.readByKey Record.blank id = .ok live ∧
      live.name = document.name ∧
      (Plain.deleteDocument id true time freshId rows).2.Buried id document := by
  have refused : ∀ failure, (ofFailure failure).status ≠ 200 := fun failure same =>
    status_ofFailure failure (by omega)
  rcases Plain.load_eq freshId time faithful named id with missing | ⟨live, loaded, holds, alive⟩
  · simp only [Plain.deleteDocument, Plain.bind, missing] at success
    exact absurd success (refused _)
  · let stamped : Document := Record.touchUpdated
      { live with metadata := { live.metadata with deletedAt := some time } } time
    have stamps : Repository.stampDeleted live ⟨⟨0⟩, time, freshId⟩ = .ok stamped := rfl
    simp only [Plain.deleteDocument, Plain.bind, loaded, ↓reduceIte, Plain.map, Plain.softDelete,
      Plain.ask, stamps, Plain.write, Plain.effect, Plain.done] at success ⊢
    refine ⟨live, stamped, holds.readByKey alive, rfl, ?_⟩
    cases outcome : rows.update stamped with
    | error failure =>
        rw [outcome] at success
        exact absurd success (refused failure)
    | ok changed =>
        have valid : stamped.metadata.IsValid := (holds.valid.deleted proper).updated proper
        exact ⟨(faithful.update valid outcome holds.own).1, rfl⟩

end Denied

/-! Histories -/

section Histories

variable {repository : Repository} {instants : Nat → Instant} {step : Nat} {state : State}
  {id : RecordId} {document : Document}

theorem Tended.status_clear (tended : Tended repository instants step state) {visit : Visit}
    (proper : visit.time.IsValid) (clears : dispatch visit.request = .ok .clearDocuments) :
    (visit.run repository instants step state).1.status = 200 := by
  have timed : (visit.errand .clearDocuments).time.IsValid := proper
  obtain ⟨response, _⟩ := (tended.run timed).2 Plain.clearDocuments rfl
  rw [Visit.run_of_call clears, status_dress, response]
  rfl

theorem Tended.buried_runVisit (tended : Tended repository instants step state) {visit : Visit}
    (proper : visit.time.IsValid) (buried : state.store.rows.Buried id document)
    (uncleared : dispatch visit.request = .ok .clearDocuments →
      (visit.run repository instants step state).1.status ≠ 200) :
    (visit.run repository instants step state).2.1.store.rows.Buried id document := by
  cases calls : dispatch visit.request with
  | error response =>
      rw [Visit.run_of_refusal calls]
      exact buried
  | ok call =>
      have other : call ≠ .clearDocuments := by
        rintro rfl
        exact uncleared calls (tended.status_clear proper calls)
      have timed : (visit.errand call).time.IsValid := proper
      rw [Visit.run_of_call calls]
      cases given : call.plain? with
      | none =>
          cases call with
          | statistics => exact buried
          | _ => cases given
      | some plain =>
          rw [((tended.run timed).2 plain given).2]
          exact buried_call tended.named tended.faithful buried given other

theorem Tended.buried_runVisits (tended : Tended repository instants step state)
    {visits : List Visit} (proper : ∀ visit ∈ visits, visit.time.IsValid)
    (buried : state.store.rows.Buried id document)
    (uncleared : ∀ visited ∈ visits.zip (Service.runVisits repository instants visits step state).1,
      dispatch visited.1.request = .ok .clearDocuments → visited.2.status ≠ 200) :
    (Service.runVisits repository instants visits step state).2.1.store.rows.Buried id
      document := by
  induction visits generalizing step state with
  | nil => exact buried
  | cons visit rest ih =>
      have timed := proper visit List.mem_cons_self
      have first := tended.buried_runVisit timed buried
        (uncleared (visit, (visit.run repository instants step state).1) List.mem_cons_self)
      exact ih (tended.runVisit timed)
        (fun other member => proper other (List.mem_cons_of_mem _ member)) first
        fun visited member => uncleared visited (List.mem_cons_of_mem _ member)

theorem Tended.denies (tended : Tended repository instants step state)
    (buried : state.store.rows.Buried id document) {visit : Visit} (proper : visit.time.IsValid)
    (fresh : visit.freshId.isEmpty = false) {call : Call}
    (calls : dispatch visit.request = .ok call) :
    ∃ reply, (visit.run repository instants step state).1 = dress visit.request reply ∧
      Denies id document.name call reply := by
  have timed : (visit.errand call).time.IsValid := proper
  refine ⟨_, by rw [Visit.run_of_call calls], ?_⟩
  cases given : call.plain? with
  | none =>
      cases call with
      | statistics => trivial
      | _ => cases given
  | some plain =>
      rw [((tended.run timed).2 plain given).1]
      exact denies_call fresh tended.named tended.faithful buried given

theorem deletion_refused_of_late {settings : Settings} (instants : Nat → Instant) (step : Nat)
    (late : Late settings.queryLimit state.store) {visit : Visit} {soft : Bool}
    (deletes : dispatch visit.request = .ok (.deleteDocument id soft)) :
    (visit.run settings.repository instants step state).1.status ≠ 200 := by
  have still : Late settings.repository.queryTimeout state.store := late
  rw [Visit.run_of_call deletes, status_dress, Errand.run]
  change ((deleteDocument settings.repository id soft).runOn _ step state).1.status ≠ 200
  rw [deleteDocument, Activity.runOn_bind, load, Activity.runOn_bind, findMatches,
    MemoryStore.find, MemoryStore.readCall, runOn_uncached_late rfl still]
  exact fun impossible => by cases impossible

theorem Tended.buried_of_run (tended : Tended repository instants step state) {visit : Visit}
    (proper : visit.time.IsValid) (deletes : dispatch visit.request = .ok (.deleteDocument id true))
    (success : (visit.run repository instants step state).1.status = 200) :
    ∃ live document : Document, state.store.rows.readByKey Record.blank id = .ok live ∧
      live.name = document.name ∧
      (visit.run repository instants step state).2.1.store.rows.Buried id document := by
  have timed : (visit.errand (.deleteDocument id true)).time.IsValid := proper
  obtain ⟨response, rows⟩ := (tended.run timed).2 (Plain.deleteDocument id true) rfl
  rw [Visit.run_of_call deletes] at success ⊢
  rw [status_dress, response] at success
  rw [rows]
  exact buried_of_deletion proper tended.named tended.faithful success

end Histories

/--
Once a soft deletion was answered with success, and until the removal of all documents was, the
document keeps its row as the deletion left it, alone with its identity and its name, and whatever
is asked of it is denied.
-/
theorem softDeleted_stays_gone {settings : Settings} {store : MemoryStore Document} {state : State}
    {instants : Nat → Instant} (invalidates : settings.invalidateOnWrite = true)
    (started : settings.start store = .ok state) (calm : store.faults = [])
    (named : store.rows.Named) (faithful : Rows.Faithful Document store.rows)
    (order : ∀ step, instants step ≤ instants (step + 1)) {history later : List Visit}
    {deletion : Visit} (timed : ∀ visit ∈ history ++ deletion :: later, visit.time.IsValid)
    {before middle after : State} {step between next : Nat}
    {earlier responses : List HttpResponse} {response : HttpResponse} {id : RecordId}
    (ran : runVisits settings.repository instants history 0 state = (earlier, before, step))
    (deletes : dispatch deletion.request = .ok (.deleteDocument id true))
    (deleted : deletion.run settings.repository instants step before = (response, middle, between))
    (success : response.status = 200)
    (went : runVisits settings.repository instants later between middle = (responses, after, next))
    (uncleared : ∀ visited ∈ later.zip responses,
      dispatch visited.1.request = .ok .clearDocuments → visited.2.status ≠ 200) :
    ∃ (live document : Document) (row : Row),
      before.store.rows.readByKey Record.blank id = .ok live ∧ live.name = document.name ∧
      Record.isDeleted document = true ∧ Record.toRow document = .ok row ∧
      middle.store.rows[id]? = some row ∧ after.store.rows[id]? = some row ∧
      (∀ (other : RecordId) (another : Row), after.store.rows[other]? = some another →
        other ≠ id → another.get "id" ≠ .string id.text ∧
          another.get "name" ≠ .string document.name) ∧
      ∀ (visit : Visit) (call : Call), visit.time.IsValid → visit.freshId.isEmpty = false →
        dispatch visit.request = .ok call →
        ∃ reply, (visit.run settings.repository instants next after).1 =
            dress visit.request reply ∧
          Denies id document.name call reply := by
  have kept := store_of_start started
  by_cases late : Late settings.queryLimit store
  · have latency := latency_runVisits settings.repository instants history 0 state
    rw [ran, kept] at latency
    obtain ⟨span, waits, long⟩ := late
    have refused := deletion_refused_of_late instants step
      ⟨span, latency.trans waits, long⟩ deletes
    rw [deleted] at refused
    exact absurd success refused
  · have timely : ∀ latency, store.latency = some latency →
        latency.pauseTicks ≤ settings.queryLimit.ticks := by
      intro latency given
      by_contra long
      exact late ⟨latency, given, by omega⟩
    obtain ⟨past, timed⟩ := List.forall_mem_append.mp timed
    obtain ⟨now, since⟩ := List.forall_mem_cons.mp timed
    have start := tended_of_start invalidates started calm timely named faithful order
    have tended := start.runVisits past
    rw [ran] at tended
    have gone := tended.buried_of_run now deletes
    have onward := tended.runVisit now
    rw [deleted] at gone onward
    obtain ⟨live, document, was, name, buried⟩ := gone success
    have still := onward.buried_runVisits since buried
    have last := onward.runVisits since
    rw [went] at still last
    have remains := still uncleared
    obtain ⟨row, stored, shown⟩ := buried.holds.stored
    obtain ⟨same, present, written⟩ := remains.holds.stored
    obtain rfl : row = same := Except.ok.inj (shown.symm.trans written)
    refine ⟨live, document, row, was, name, buried.deleted, shown, stored, present, ?_,
      fun visit call proper fresh calls => last.denies remains proper fresh calls⟩
    intro other another found different
    refine ⟨fun same => different ?_, fun same => different ?_⟩
    · rw [last.named.id found] at same
      exact congrArg RecordId.mk (Json.string.inj same)
    · exact last.named.unique found present same (NamedRecord.toRow_name shown)

def creation : Visit := dayVisit "POST" "/documents" "" "\x7b\"name\": \"x\"\x7d"

def softDeletion : Visit := dayVisit "DELETE" "/documents/a" "soft=true" ""

/-- The document is asked for, its name is asked for, and it is created anew. -/
def returns : List Visit :=
  [dayVisit "GET" "/documents/a" "" "", dayVisit "GET" "/documents/exists" "name=x" "", creation]

theorem dispatch_softDeletion :
    dispatch softDeletion.request = .ok (.deleteDocument ⟨"a"⟩ true) := by
  have given : (dispatch softDeletion.request).toOption = some (.deleteDocument ⟨"a"⟩ true) := by
    decide +kernel
  cases called : dispatch softDeletion.request with
  | error response => simp [called, Except.toOption] at given
  | ok call =>
      rw [called] at given
      exact congrArg Except.ok (Option.some.inj given)

def afterCreation : List HttpResponse × State × Nat :=
  runVisits Settings.standard.repository Instant.mk [creation] 0 firstState

def afterDeletion : HttpResponse × State × Nat :=
  softDeletion.run Settings.standard.repository Instant.mk afterCreation.2.2 afterCreation.2.1

def afterReturns : List HttpResponse × State × Nat :=
  runVisits Settings.standard.repository Instant.mk returns afterDeletion.2.2 afterDeletion.2.1

theorem softDeleted_stays_gone_returning :
    Settings.standard.start (.create none) = .ok firstState ∧
      dispatch softDeletion.request = .ok (.deleteDocument ⟨"a"⟩ true) ∧
      afterDeletion.1.status = 200 ∧ afterReturns.1.map (·.status) = [404, 200, 409] ∧
      ∃ (live document : Document) (row : Row),
        afterCreation.2.1.store.rows.readByKey Record.blank ⟨"a"⟩ = .ok live ∧
        live.name = document.name ∧ Record.isDeleted document = true ∧
        Record.toRow document = .ok row ∧
        afterDeletion.2.1.store.rows[(⟨"a"⟩ : RecordId)]? = some row ∧
        afterReturns.2.1.store.rows[(⟨"a"⟩ : RecordId)]? = some row := by
  have whole : ∀ {β : Type} (ended : β × State × Nat), ended = (ended.1, ended.2.1, ended.2.2) :=
    fun _ => rfl
  have order : ∀ step, Instant.mk step ≤ ⟨step + 1⟩ := fun step => Nat.le_succ step
  have timed : ∀ visit ∈ [creation] ++ softDeletion :: returns, visit.time.IsValid := by decide
  have success : afterDeletion.1.status = 200 := by decide +kernel
  have answers : afterReturns.1.map (·.status) = [404, 200, 409] := by decide +kernel
  have keeps : ∀ visit ∈ returns, (dispatch visit.request).toOption ≠ some .clearDocuments := by
    decide +kernel
  have uncleared : ∀ visited ∈ returns.zip afterReturns.1,
      dispatch visited.1.request = .ok .clearDocuments → visited.2.status ≠ 200 := by
    intro visited member clears
    have other := keeps visited.1 (List.of_mem_zip member).1
    rw [clears] at other
    exact absurd rfl other
  have started : Settings.standard.start (.create none) = .ok firstState := rfl
  obtain ⟨live, document, row, was, name, deleted, shown, left, stays, _⟩ :=
    softDeleted_stays_gone rfl started rfl Rows.named_empty Rows.faithful_empty order timed
      (whole afterCreation) dispatch_softDeletion (whole afterDeletion) success
      (whole afterReturns) uncleared
  exact ⟨started, dispatch_softDeletion, success, answers, live, document, row, was, name, deleted,
    shown, left, stays⟩

end Service

end CachedStore
