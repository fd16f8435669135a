import CachedStore.Proofs.Activity.Pool
import CachedStore.Proofs.Service.ReadYourWrites

/-!
Edits of a document: updates and soft deletes. Each of them loads the document, stores it changed,
and then drops what is cached of it. Alone, an edit does what its document and its time tell.
-/

namespace CachedStore

namespace Service

open Repository

inductive Edit where
  | update (request : UpdateRequest)
  | softDelete

/-- What an edit loaded, what it stored, and what came of it. -/
structure EditAttempt where
  loaded : Document
  stamped : Document
  outcome : Except Failure Unit

namespace Edit

def call (id : RecordId) : Edit → Call
  | update request => .updateDocument id request
  | softDelete => .deleteDocument id true

def Valid : Edit → Prop
  | update request => request.fault? = none
  | softDelete => True

def stamp (document : Document) (time : Timestamp) : Edit → Document
  | update request => Record.touchUpdated (request.apply document) time
  | softDelete => Record.touchUpdated
      { document with metadata := { document.metadata with deletedAt := some time } } time

def reply (id : RecordId) (document : Document) : Edit → HttpResponse
  | update _ => .json 200 (Reply.document document)
  | softDelete => .json 200 (Reply.deletion id.text true)

/-- What the edit answers, and the rows that it leaves. -/
def serve (id : RecordId) (edit : Edit) (time : Timestamp) (rows : Rows) : HttpResponse × Rows :=
  match rows.readByKey (Record.blank : Document) id with
  | .error _ => (ofFailure (Record.unknownId Document id), rows)
  | .ok document =>
    match rows.update (edit.stamp document time) with
    | .error failure => (ofFailure failure, rows)
    | .ok changed => (edit.reply id (edit.stamp document time), changed)

/-! The parts of an edit -/

def stamping (document : Document) : Edit → Activity State (Except Failure Document)
  | update request =>
    .act (fun moment state => (Record.touchUpdated (request.apply document) moment.time, state))
      fun stamped => .done (.ok stamped)
  | softDelete => .act (fun moment state => (stampDeleted document moment, state)) .done

def operation : Edit → String
  | update _ => "update"
  | softDelete => "soft_delete"

def replace (repository : Repository) (edit : Edit) (document : Document) :
    Activity State (Except Failure EditAttempt) :=
  (edit.stamping document).bind fun
    | .error failure => .done (.error failure)
    | .ok stamped =>
      (repository.deadline edit.operation (onStore (MemoryStore.updateRecord stamped))).bind
        fun outcome => .done (.ok ⟨document, stamped, outcome⟩)

def attempt (repository : Repository) (id : RecordId) (edit : Edit) :
    Activity State (Except Failure EditAttempt) :=
  (load repository id).bind fun
    | .error failure => .done (.error failure)
    | .ok document => edit.replace repository document

def finish (repository : Repository) (id : RecordId) (edit : Edit) :
    Except Failure EditAttempt → Activity State HttpResponse
  | .error failure => .done (ofFailure failure)
  | .ok ⟨_, stamped, outcome⟩ =>
    (repository.finishWrite .strict (Record.id? stamped) stamped outcome).bind fun written =>
      .done (ofOutcome written.outcome fun _ => edit.reply id written.record)

def answer (id : RecordId) (edit : Edit) : Except Failure EditAttempt → HttpResponse
  | .error failure => ofFailure failure
  | .ok ⟨_, stamped, outcome⟩ => ofOutcome outcome fun _ => edit.reply id stamped

variable {repository : Repository} {id : RecordId} {edit : Edit} {document : Document}

theorem update_eq_replace (stored : repository.hasStore = true) (request : UpdateRequest) :
    ((update request).replace repository document).bind ((update request).finish repository id) =
      (Repository.update repository (request.apply document)).bind fun written =>
        .done (ofWritten 200 written) := by
  simp only [Repository.update, needingStore, stored, ↓reduceIte, replace, stamping, Activity.bind,
    write, Activity.bind_assoc]
  rfl

theorem softDelete_eq_replace (stored : repository.hasStore = true) :
    (softDelete.replace repository document).bind (softDelete.finish repository id) =
      (Repository.softDelete repository document).bind fun written =>
        .done (ofOutcome written.outcome fun _ => .json 200 (Reply.deletion id.text true)) := by
  simp only [Repository.softDelete, needingStore, stored, ↓reduceIte, replace, stamping,
    Activity.bind]
  refine congrArg _ (funext fun stamped => ?_)
  cases stamped with
  | error failure => rfl
  | ok stamped =>
      simp only [write, Activity.bind, Activity.bind_assoc]
      rfl

theorem call_eq_attempt (stored : repository.hasStore = true) (valid : edit.Valid) :
    (edit.attempt repository id).bind (edit.finish repository id) =
      (edit.call id).activity repository := by
  rw [attempt, Activity.bind_assoc]
  cases edit with
  | update request =>
      have accepted : request.fault? = none := valid
      simp only [call, Call.activity, updateDocument, accepted, orRefuse]
      refine congrArg _ (funext fun loaded => ?_)
      cases loaded with
      | error failure => rfl
      | ok document => exact update_eq_replace stored request
  | softDelete =>
      simp only [call, Call.activity, deleteDocument]
      refine congrArg _ (funext fun loaded => ?_)
      cases loaded with
      | error failure => rfl
      | ok document => exact softDelete_eq_replace stored

theorem serve_of_error {time : Timestamp} {rows : Rows} {failure : Failure}
    (read : rows.readByKey (Record.blank : Document) id = .error failure) :
    edit.serve id time rows = (ofFailure (Record.unknownId Document id), rows) := by
  rw [serve, read]

theorem serve_of_ok (edit : Edit) (time : Timestamp) {rows : Rows}
    (read : rows.readByKey (Record.blank : Document) id = .ok document) :
    edit.serve id time rows =
      (edit.answer id (.ok ⟨document, edit.stamp document time,
        (rows.update (edit.stamp document time)).map fun _ => ()⟩),
        (rows.update (edit.stamp document time)).toOption.getD rows) := by
  rw [serve, read]
  dsimp only
  cases rows.update (edit.stamp document time) <;> rfl

theorem id?_stamp (edit : Edit) (document : Document) (time : Timestamp) :
    Record.id? (edit.stamp document time) = Record.id? document := by
  cases edit <;> rfl

theorem naturalKey_stamp (edit : Edit) (document : Document) (time other : Timestamp) :
    Record.naturalKey (edit.stamp document time) =
      Record.naturalKey (edit.stamp document other) := by
  cases edit <;> rfl

theorem valid_stamp {time : Timestamp} (proper : time.IsValid)
    (valid : (FaithfulRecord.metadata document).IsValid) :
    (FaithfulRecord.metadata (edit.stamp document time)).IsValid := by
  cases edit with
  | update request => exact valid.updated proper
  | softDelete => exact (valid.deleted proper).updated proper

section Serve

variable {base rows changed : Rows} {time : Timestamp}

/-- What changes of one document keep, whichever of its versions they take the place of. -/
structure Amends (id : RecordId) (base rows : Rows) : Prop where
  named : rows.Named
  faithful : rows.Faithful Document
  alike : Rows.AlikeBut id base rows

theorem Amends.refl (id : RecordId) (named : rows.Named) (faithful : rows.Faithful Document) :
    Amends id rows rows := ⟨named, faithful, .refl id rows⟩

theorem Amends.update (amends : Amends id base rows) (proper : time.IsValid)
    (own : Record.id? document = some id) (valid : (FaithfulRecord.metadata document).IsValid)
    (updated : rows.update (edit.stamp document time) = .ok changed) : Amends id base changed := by
  have stamped := (id?_stamp edit document time).trans own
  exact ⟨amends.named.update updated,
    (amends.faithful.update (valid_stamp proper valid) updated stamped).2,
    amends.alike.trans (.update stamped updated)⟩

theorem Amends.serve (amends : Amends id base rows) (edit : Edit) (proper : time.IsValid) :
    Amends id base (edit.serve id time rows).2 := by
  cases read : rows.readByKey (Record.blank : Document) id with
  | error failure =>
      rw [serve_of_error read]
      exact amends
  | ok document =>
      rw [serve_of_ok edit time read]
      cases updated : rows.update (edit.stamp document time) with
      | error failure => exact amends
      | ok changed =>
          have holds := (amends.faithful.of_readByKey read).1
          exact amends.update proper holds.own holds.valid updated

theorem update_eq_error {failure : Failure} (alike : Rows.AlikeBut id rows changed)
    (own : Record.id? document = some id)
    (refused : rows.update (edit.stamp document time) = .error failure) (other : Timestamp) :
    changed.update (edit.stamp document other) = .error failure := by
  obtain ⟨row, shown⟩ := FaithfulRecord.toRow_ok (edit.stamp document time)
  obtain ⟨another, written⟩ := FaithfulRecord.toRow_ok (edit.stamp document other)
  exact alike.update_eq_error ((id?_stamp edit document time).trans own)
    ((id?_stamp edit document other).trans own) (naturalKey_stamp edit document other time) shown
    written refused

end Serve

/-! An edit that runs alone -/

/-- No call of the store fails, and none lasts longer than it may. -/
structure Reliable (repository : Repository) (state : State) : Prop where
  calm : state.store.faults = []
  timely : ∀ latency, state.store.latency = some latency →
    latency.pauseTicks ≤ repository.queryTimeout.ticks

section Alone

variable {state : State}

theorem Reliable.of_store {after : State} (reliable : Reliable repository state)
    (faults : after.store.faults = state.store.faults)
    (latency : after.store.latency = state.store.latency) : Reliable repository after :=
  ⟨faults.trans reliable.calm, fun span given => reliable.timely span (latency.symm.trans given)⟩

theorem runOn_load (reliable : Reliable repository state) (stored : repository.hasStore = true)
    (named : state.store.rows.Named) (faithful : state.store.rows.Faithful Document)
    (id : RecordId) (clock : Nat → Moment) (step : Nat) :
    (load repository id).runOn clock step state =
      ((state.store.rows.readByKey Record.blank id).mapError fun _ =>
          Record.unknownId Document id,
        { state with store := state.store.begin .find }, step + 2) := by
  have found : (repository.findMatches (.byId id)).runOn clock step state =
      (.ok (state.store.rows.readByKey (Record.blank : Document) id).toOption.toList,
        { state with store := state.store.begin .find }, step + 2) := by
    rw [← faithful.find_byId named id]
    exact runOn_uncached clock step stored reliable.calm reliable.timely _ _ _
  rw [load, Activity.runOn_bind_of found]
  cases state.store.rows.readByKey (Record.blank : Document) id <;> rfl

theorem runOn_stamping (edit : Edit) (document : Document) (clock : Nat → Moment) (step : Nat) :
    (edit.stamping document).runOn clock step state =
      (.ok (edit.stamp document (clock step).time), state, step + 1) := by
  cases edit <;> rfl

theorem runOn_replace (reliable : Reliable repository state) (edit : Edit) (document : Document)
    (clock : Nat → Moment) (step : Nat) :
    ∃ after : State, (edit.replace repository document).runOn clock step state =
        (.ok ⟨document, edit.stamp document (clock step).time,
          (state.store.rows.update (edit.stamp document (clock step).time)).map fun _ => ()⟩,
          after, step + 3) ∧
      after.store.rows =
        (state.store.rows.update (edit.stamp document (clock step).time)).toOption.getD
          state.store.rows ∧
      Reliable repository after := by
  let stamped := edit.stamp document (clock step).time
  have ran := runOn_deadline clock (step + 1) reliable.timely edit.operation .update fun rows =>
    (rows.update stamped).map fun changed => ((), changed)
  have calm : (state.store.begin .update).faults = [] := reliable.calm
  rw [replace, Activity.runOn_bind_of (runOn_stamping edit document clock step)]
  simp only [MemoryStore.updateRecord, MemoryStore.writeCall]
  rw [Activity.runOn_bind_of ran]
  cases updated : state.store.rows.update stamped with
  | error failure =>
      have fails : (state.store.rows.update stamped).map (fun changed => ((), changed)) =
          .error failure := by
        rw [updated]
        rfl
      rw [MemoryStore.perform_error calm fails]
      exact ⟨_, rfl, rfl, reliable.of_store rfl rfl⟩
  | ok changed =>
      have succeeds : (state.store.rows.update stamped).map (fun changed => ((), changed)) =
          .ok ((), changed) := by
        rw [updated]
        rfl
      rw [MemoryStore.perform_ok calm succeeds]
      exact ⟨_, rfl, rfl, reliable.of_store rfl rfl⟩

theorem runOn_finish (repository : Repository) (id : RecordId) (edit : Edit)
    (given : Except Failure EditAttempt) (clock : Nat → Moment) (step : Nat) (state : State) :
    ∃ (after : State) (next : Nat), (edit.finish repository id given).runOn clock step state =
        (edit.answer id given, after, next) ∧ after.store = state.store := by
  rcases given with failure | ⟨loaded, stamped, failure | done⟩
  · exact ⟨state, step, rfl, rfl⟩
  · exact ⟨state, step, rfl, rfl⟩
  · exact ⟨_, _, rfl, Repository.store_invalidateRecord repository _ (clock step) state⟩

/-- Whatever is cached, the rows, the time and the identity tell what an edit does. -/
theorem runOn_call (reliable : Reliable repository state) (stored : repository.hasStore = true)
    (named : state.store.rows.Named) (faithful : state.store.rows.Faithful Document)
    (valid : edit.Valid) (id : RecordId) {clock : Nat → Moment} {time : Timestamp}
    (still : ∀ step, (clock step).time = time) (step : Nat) :
    ∃ (after : State) (next : Nat), ((edit.call id).activity repository).runOn clock step state =
        ((edit.serve id time state.store.rows).1, after, next) ∧
      after.store.rows = (edit.serve id time state.store.rows).2 ∧ Reliable repository after := by
  have loaded := runOn_load reliable stored named faithful id clock step
  rw [← call_eq_attempt stored valid, attempt, Activity.bind_assoc,
    Activity.runOn_bind_of loaded]
  cases read : state.store.rows.readByKey (Record.blank : Document) id with
  | error failure =>
      rw [serve_of_error read]
      exact ⟨_, _, rfl, rfl, reliable.of_store rfl rfl⟩
  | ok document =>
      let begun : State := { state with store := state.store.begin .find }
      have relies : Reliable repository begun := reliable.of_store rfl rfl
      obtain ⟨middle, replaced, rows, stillRows⟩ :=
        runOn_replace relies edit document clock (step + 2)
      rw [still] at replaced rows
      obtain ⟨after, next, finished, store⟩ := runOn_finish repository id edit
        (.ok ⟨document, edit.stamp document time,
          (state.store.rows.update (edit.stamp document time)).map fun _ => ()⟩) clock (step + 5)
        middle
      rw [serve_of_ok edit time read]
      refine ⟨after, next, (Activity.runOn_bind_of replaced _).trans finished,
        (congrArg MemoryStore.rows store).trans rows, stillRows.of_store ?_ ?_⟩
      · rw [store]
      · rw [store]

end Alone

end Edit

end Service

end CachedStore
