import CachedStore.Proofs.Record.NormalForm
import CachedStore.Proofs.Repository.Sequence
import CachedStore.Proofs.Service.Addresses
import CachedStore.Proofs.Service.Edits
import CachedStore.Proofs.Service.Reachable

/-!
What an update of a document changes: the columns that the client names, the time of the change, and
nothing else in the rows. An update that does not go through changes nothing.
-/

namespace CachedStore

namespace Service

open Repository

/-! The changed row -/

/-- A row after an update at a time: what is given, the time, and otherwise the columns before. -/
structure Amended (update : UpdateRequest) (time : Timestamp) (row changed : Row) : Prop where
  name : ∀ name, update.name = some name → changed.get? "name" = some (.string name)
  content : ∀ content, update.content = some content →
    changed.get? "content" = some (.string content)
  updated : changed.get? "updated_at" = some (Metadata.timeJson time)
  kept : ∀ column, column ≠ "updated_at" → (column = "name" → update.name = none) →
    (column = "content" → update.content = none) → changed.get? column = row.get? column

theorem amended_stamp (document : Document) (update : UpdateRequest) (time : Timestamp) :
    Amended update time document.toRow ((Edit.update update).stamp document time).toRow := by
  let stamped := (Edit.update update).stamp document time
  have free := Document.whole.free
  refine ⟨?_, ?_, (Row.get?_times_whole free ..).2.1, ?_⟩
  · intro name given
    have same : stamped.name = name := congrArg (Option.getD · document.name) given
    exact same ▸ Row.get?_name_whole free
  · intro content given
    have same : stamped.content = content := congrArg (Option.getD · document.content) given
    exact same ▸ Row.get?_own_whole free
  · intro column untimed unnamed unwritten
    rw [Document.toRow, Document.toRow, Row.get?_whole free, Row.get?_whole free]
    split_ifs with deleted created identity further named
    · rfl
    · rfl
    · rfl
    · have same : stamped.content = document.content :=
        congrArg (Option.getD · document.content) (unwritten further)
      exact congrArg (some ∘ Json.string) same
    · have same : stamped.name = document.name :=
        congrArg (Option.getD · document.name) (unnamed named)
      exact congrArg (some ∘ Json.string) same
    · rfl

/-! The update of the rows -/

structure Replaces (id : RecordId) (update : UpdateRequest) (time : Timestamp)
    (rows changed : Rows) : Prop where
  row : ∃ before after, rows[id]? = some before ∧ changed[id]? = some after ∧
    Amended update time before after
  others : ∀ other, other ≠ id → changed[other]? = rows[other]?

def RenameTaken (id : RecordId) (update : UpdateRequest) (rows : Rows) : Prop :=
  ∃ name other row, update.name = some name ∧ other ≠ id ∧ rows[other]? = some row ∧
    row.get "name" = .string name

structure Possible (id : RecordId) (update : UpdateRequest) (rows : Rows) : Prop where
  valid : update.fault? = none
  live : ∃ row, rows[id]? = some row ∧ Rows.isLive Document row = .ok true
  free : ¬ RenameTaken id update rows

section Rows

variable {rows : Rows} {id : RecordId} {document : Document} {update : UpdateRequest}
  {time : Timestamp}

theorem live_iff (faithful : rows.Faithful Document) :
    (∃ row, rows[id]? = some row ∧ Rows.isLive Document row = .ok true) ↔
      ∃ document : Document, rows.readByKey Record.blank id = .ok document := by
  constructor
  · rintro ⟨row, stored, alive⟩
    obtain ⟨document, holds⟩ := faithful id row stored
    obtain ⟨other, present, shown⟩ := holds.stored
    obtain rfl := Option.some.inj (stored.symm.trans present)
    rw [Rows.isLive_of_toRow holds.valid shown] at alive
    exact ⟨document, holds.readByKey (by simpa using Except.ok.inj alive)⟩
  · rintro ⟨document, read⟩
    obtain ⟨holds, live⟩ := faithful.of_readByKey read
    obtain ⟨row, stored, shown⟩ := holds.stored
    refine ⟨row, stored, ?_⟩
    rw [Rows.isLive_of_toRow holds.valid shown, live]
    rfl

theorem keyIsTaken_stamp_iff (named : rows.Named) (holds : rows.Holds id document) :
    rows.keyIsTaken id (Record.naturalKey ((Edit.update update).stamp document time)) = true ↔
      RenameTaken id update rows := by
  have accepts : ∀ {other row}, rows[other]? = some row →
      ((Record.naturalKey ((Edit.update update).stamp document time)).accepts row = true ↔
        row.get "name" = .string (update.name.getD document.name)) :=
    fun stored => named.accepts_name_iff stored
  rw [Rows.keyIsTaken_iff]
  constructor
  · rintro ⟨_, other, row, different, stored, accepted⟩
    have shows := (accepts stored).mp accepted
    cases given : update.name with
    | some name =>
        rw [given] at shows
        exact ⟨name, other, row, given, different, stored, shows⟩
    | none =>
        rw [given] at shows
        obtain ⟨own, present, shown⟩ := holds.stored
        have same := named.unique stored present shows (NamedRecord.toRow_name shown)
        exact absurd same different
  · rintro ⟨name, other, row, given, different, stored, shows⟩
    refine ⟨rfl, other, row, different, stored, (accepts stored).mpr ?_⟩
    rw [given]
    exact shows

theorem RenameTaken.not_own (taken : RenameTaken id update rows) (named : rows.Named) {row : Row}
    {name : String} (held : rows[id]? = some row) (shows : row.get "name" = .string name) :
    update.name ≠ some name := by
  intro given
  obtain ⟨wanted, holder, its, wants, different, stored, shown⟩ := taken
  obtain rfl : name = wanted := Option.some.inj (given.symm.trans wants)
  exact different (named.unique stored held shown shows)

theorem update_stamp (named : rows.Named) (holds : rows.Holds id document)
    (written : id.isEmpty = false) :
    (RenameTaken id update rows ∧ ∃ key, rows.update ((Edit.update update).stamp document time) =
      .error (Record.keyTaken Document key)) ∨
    (¬ RenameTaken id update rows ∧ rows.update ((Edit.update update).stamp document time) =
      .ok (rows.insert id ((Edit.update update).stamp document time).toRow)) := by
  have own : Record.givenId? ((Edit.update update).stamp document time) = some id := by
    rw [Record.givenId?, Edit.id?_stamp, holds.own]
    simp [written]
  obtain ⟨row, stored, _⟩ := holds.stored
  have present : rows.contains id = true := by
    rw [Std.TreeMap.contains_eq_isSome_getElem?, stored]
    rfl
  rw [Rows.update_eq (Rows.requireId_eq_ok.mpr own) rfl, if_pos present,
    ← keyIsTaken_stamp_iff named holds]
  split_ifs with taken
  · exact Or.inl ⟨taken, _, rfl⟩
  · exact Or.inr ⟨taken, rfl⟩

theorem replaces_insert (holds : rows.Holds id document) :
    Replaces id update time rows
      (rows.insert id ((Edit.update update).stamp document time).toRow) := by
  obtain ⟨row, stored, shown⟩ := holds.stored
  obtain rfl := Except.ok.inj shown
  refine ⟨⟨_, _, stored, Std.TreeMap.getElem?_insert_self, amended_stamp document update time⟩, ?_⟩
  exact fun other different => getElem?_insert_of_ne rows _ different

theorem serve_update (named : rows.Named) (faithful : rows.Faithful Document)
    (written : id.isEmpty = false) (valid : update.fault? = none) (time : Timestamp) :
    (Possible id update rows ∧ ((Edit.update update).serve id time rows).1.status = 200 ∧
      Replaces id update time rows ((Edit.update update).serve id time rows).2) ∨
    (¬ Possible id update rows ∧ ((Edit.update update).serve id time rows).1.status ≠ 200 ∧
      ((Edit.update update).serve id time rows).2 = rows ∧
      (((Edit.update update).serve id time rows).1.status = 409 → RenameTaken id update rows)) := by
  cases read : rows.readByKey (Record.blank : Document) id with
  | error failure =>
      rw [Edit.serve_of_error read]
      refine Or.inr ⟨fun possible => ?_, ?_, rfl, ?_⟩
      · obtain ⟨document, found⟩ := (live_iff faithful).mp possible.live
        rw [read] at found
        cases found
      · simp [ofFailure, Record.unknownId, HttpResponse.json]
      · simp [ofFailure, Record.unknownId, HttpResponse.json]
  | ok document =>
      obtain ⟨holds, _⟩ := faithful.of_readByKey read
      rw [Edit.serve_of_ok _ time read]
      rcases update_stamp named holds written with ⟨taken, key, refused⟩ | ⟨free, done⟩
      · rw [refused]
        refine Or.inr ⟨fun possible => possible.free taken, ?_, rfl, fun _ => taken⟩
        simp [Edit.answer, Except.map, ofOutcome, ofFailure, Record.keyTaken, HttpResponse.json]
      · rw [done]
        refine Or.inl ⟨⟨valid, (live_iff faithful).mpr ⟨document, read⟩, free⟩, rfl, ?_⟩
        exact replaces_insert holds

end Rows

/-! Requests that run alone -/

structure AsksUpdate (request : HttpRequest) (segment : List Char) (id : RecordId)
    (update : UpdateRequest) : Prop where
  addressed : readId segment = .ok id
  readable : readBody request UpdateRequest.fields UpdateRequest.ofJson? = .ok update

section Requests

variable {request : HttpRequest} {segment : List Char}

theorem status_of_readId {response : HttpResponse} (failed : readId segment = .error response) :
    response.status = 400 := by
  unfold readId at failed
  cases decoded : Percent.decodeSegment? segment with
  | none =>
      simp only [decoded, Option.map_none, Option.elim_none, Except.error.injEq] at failed
      rw [← failed]
      rfl
  | some text => simp [decoded] at failed

theorem status_of_readBody {β : Type} {fields : List (String × Json.FieldType)}
    {ofJson? : Json → Option β} {response : HttpResponse}
    (failed : readBody request fields ofJson? = .error response) : response.status ≠ 200 := by
  have unread : ∀ fault : ReadError, (ofReadError fault).status ≠ 200 := by
    intro fault
    cases fault <;> decide
  unfold readBody at failed
  split at failed
  · obtain rfl := Except.error.inj failed
    decide
  · split at failed
    · obtain rfl := Except.error.inj failed
      decide
    · split at failed
      · obtain rfl := Except.error.inj failed
        exact unread _
      · rename_i body _
        cases read : ofJson? body with
        | none =>
            simp only [read, Option.elim_none, Except.error.injEq] at failed
            exact failed ▸ unread .unsuitable
        | some value => simp [read] at failed

theorem dispatch_put (put : request.method = "PUT")
    (place : Endpoint.ofPath? request.target.path = some (.document segment)) :
    (∃ id update, AsksUpdate request segment id update ∧
      dispatch request = .ok (.updateDocument id update)) ∨
    ∃ response, dispatch request = .error response ∧ response.status ≠ 200 ∧
      ∀ id update, ¬ AsksUpdate request segment id update := by
  have dispatched : dispatch request = (readId segment).bind fun id =>
      (readBody request UpdateRequest.fields UpdateRequest.ofJson?).map (.updateDocument id) := by
    rw [dispatch_of_place place (by simp [put, Endpoint.methods]) (by simp [put]), callAt_put put]
  rw [dispatched]
  cases addressed : readId segment with
  | error response =>
      have status := status_of_readId addressed
      refine Or.inr ⟨response, rfl, by omega, fun id update asks => ?_⟩
      rw [asks.addressed] at addressed
      cases addressed
  | ok id =>
      cases readable : readBody request UpdateRequest.fields UpdateRequest.ofJson? with
      | error response =>
          have refused := status_of_readBody readable
          refine Or.inr ⟨response, rfl, refused, fun id update asks => ?_⟩
          rw [asks.readable] at readable
          cases readable
      | ok update => exact Or.inl ⟨id, update, ⟨addressed, readable⟩, rfl⟩

theorem AsksUpdate.unique {id other : RecordId} {update another : UpdateRequest}
    (asks : AsksUpdate request segment id update)
    (again : AsksUpdate request segment other another) : other = id ∧ another = update :=
  ⟨Except.ok.inj (again.addressed.symm.trans asks.addressed),
    Except.ok.inj (again.readable.symm.trans asks.readable)⟩

end Requests

section Alone

variable {repository : Repository} {instants : Nat → Instant} {step : Nat} {state : State}
  {time : Timestamp} {id : RecordId} {update : UpdateRequest}

/-- How an update that ran alone has ended. -/
def Fulfils (timely : Prop) (id : RecordId) (update : UpdateRequest) (time : Timestamp)
    (rows : Rows) (status : Nat) (changed : Rows) : Prop :=
  (timely ∧ Possible id update rows ∧ status = 200 ∧ Replaces id update time rows changed) ∨
  (¬ (timely ∧ Possible id update rows) ∧ status ≠ 200 ∧ changed = rows ∧
    (status = 409 → RenameTaken id update rows))

theorem fulfils_refused {timely : Prop} {fault : RequestFault} {rows : Rows}
    (refused : update.fault? = some fault) :
    Fulfils timely id update time rows (ofFault fault).status rows := by
  refine Or.inr ⟨fun ⟨_, possible⟩ => ?_, by simp [ofFault, HttpResponse.json], rfl,
    by simp [ofFault, HttpResponse.json]⟩
  have valid := possible.valid
  rw [refused] at valid
  cases valid

theorem runOn_update_late (stored : repository.hasStore = true)
    (late : Late repository.queryTimeout state.store) (valid : update.fault? = none)
    (clock : Nat → Moment) :
    ∃ (after : State) (next : Nat),
      (updateDocument repository id update).runOn clock step state =
        (ofFailure (deadlineExceeded Document "find_matches" repository.queryTimeout), after,
          next) ∧ after.store.rows = state.store.rows := by
  let found := (findMatches (ρ := Document) repository (.byId id)).runOn clock step state
  have fails : found.1 =
      .error (deadlineExceeded Document "find_matches" repository.queryTimeout) :=
    runOn_uncached_late stored late "find_matches" .find _
  have kept : found.2.1.store.rows = state.store.rows :=
    (keeps_uncached (MemoryStore.keeps_readCall .find _ state.store.rows)).runOn clock step rfl
  refine ⟨found.2.1, found.2.2, ?_, kept⟩
  have ran : (findMatches repository (.byId id)).runOn clock step state =
      (.error (deadlineExceeded Document "find_matches" repository.queryTimeout), found.2) :=
    Prod.ext fails rfl
  rw [updateDocument, valid, orRefuse, Activity.runOn_bind, load, Activity.runOn_bind_of ran]
  rfl

theorem fulfils_update (stored : repository.hasStore = true) (orderly : WellKept state)
    (written : id.isEmpty = false) {clock : Nat → Moment}
    (still : ∀ step, (clock step).time = time) (step : Nat) :
    ∃ (response : HttpResponse) (after : State) (next : Nat),
      (updateDocument repository id update).runOn clock step state = (response, after, next) ∧
      Fulfils (¬ Late repository.queryTimeout state.store) id update time state.store.rows
        response.status after.store.rows := by
  cases valid : update.fault? with
  | some fault =>
      refine ⟨ofFault fault, state, step, ?_, fulfils_refused valid⟩
      rw [updateDocument, valid]
      rfl
  | none =>
      by_cases late : Late repository.queryTimeout state.store
      · obtain ⟨after, next, ran, kept⟩ := runOn_update_late stored late valid clock
        refine ⟨_, after, next, ran, Or.inr ⟨fun both => both.1 late, ?_, kept, ?_⟩⟩
        · simp [ofFailure, deadlineExceeded, HttpResponse.json]
        · simp [ofFailure, deadlineExceeded, HttpResponse.json]
      · have reliable : Edit.Reliable repository state := ⟨orderly.calm, soon_of_not_late late⟩
        have accepted : (Edit.update update).Valid := valid
        obtain ⟨after, next, ran, rows, _⟩ := Edit.runOn_call reliable stored orderly.named
          orderly.faithful accepted id still step
        refine ⟨_, after, next, ran, ?_⟩
        rw [rows]
        rcases serve_update orderly.named orderly.faithful written valid time with
          ⟨possible, done⟩ | ⟨impossible, refused⟩
        · exact Or.inl ⟨late, possible, done⟩
        · exact Or.inr ⟨fun both => impossible both.2, refused⟩

theorem fulfils_put {settings : Settings} (orderly : WellKept state) {visit : Visit}
    {segment : List Char} (put : visit.request.method = "PUT")
    (place : Endpoint.ofPath? visit.request.target.path = some (.document segment))
    {next : Nat} {response : HttpResponse} {after : State}
    (ran : visit.run settings.repository instants step state = (response, after, next)) :
    (∃ id update, AsksUpdate visit.request segment id update ∧
      Fulfils (¬ Late settings.queryLimit state.store) id update visit.time state.store.rows
        response.status after.store.rows) ∨
    ((∀ id update, ¬ AsksUpdate visit.request segment id update) ∧ response.status ≠ 200 ∧
      after.store.rows = state.store.rows) := by
  rcases dispatch_put put place with ⟨id, update, asks, calls⟩ | ⟨_, refuses, refused, unasked⟩
  · have written := written_of_readId place asks.addressed
    have stored : settings.repository.hasStore = true := rfl
    have still : ∀ step,
        ((visit.errand (.updateDocument id update)).clock instants step).time = visit.time :=
      fun _ => rfl
    obtain ⟨given, last, final, runs, concludes⟩ :=
      fulfils_update stored orderly written still step
    have runs : (visit.errand (.updateDocument id update)).run settings.repository instants step
      state = (given, last, final) := runs
    rw [Visit.run_of_call calls, runs] at ran
    cases ran
    rw [status_dress]
    exact .inl ⟨id, update, asks, concludes⟩
  · rw [Visit.run_of_refusal refuses] at ran
    cases ran
    rw [status_dress]
    exact .inr ⟨unasked, refused, rfl⟩

end Alone

/--
A `PUT` to the place of a document, alone in any state that the service comes to: a success changes
what is named and the time of the change, in that row only; anything else changes no row. It
succeeds as long as the store answers in time and the update is one of a live document, with a name,
if any, that no other row has, so that the name which the document has already is never refused as
taken.
-/
theorem put_changes_named {settings : Settings} {store : MemoryStore Document}
    {start state : State} {active : List (Activity State HttpResponse)}
    (started : settings.start store = .ok start) (calm : store.faults = [])
    (named : store.rows.Named) (faithful : store.rows.Faithful Document)
    (reached : Reached settings.repository start state active) {visit : Visit}
    {segment : List Char} (put : visit.request.method = "PUT")
    (place : Endpoint.ofPath? visit.request.target.path = some (.document segment))
    {instants : Nat → Instant} {step next : Nat} {response : HttpResponse} {after : State}
    (ran : visit.run settings.repository instants step state = (response, after, next)) :
    (response.status = 200 → ∃ id update, AsksUpdate visit.request segment id update ∧
      Replaces id update visit.time state.store.rows after.store.rows) ∧
    (response.status ≠ 200 → after.store.rows = state.store.rows) ∧
    (response.status = 200 ↔ ¬ Late settings.queryLimit state.store ∧
      ∃ id update, AsksUpdate visit.request segment id update ∧
        Possible id update state.store.rows) ∧
    ∀ id update row name, AsksUpdate visit.request segment id update →
      state.store.rows[id]? = some row → row.get "name" = .string name →
      update.name = some name → response.status ≠ 409 := by
  have kept := store_of_start started
  have first : WellKept start := ⟨kept ▸ calm, kept ▸ named, kept ▸ faithful⟩
  have orderly := (reached.conducts first).1
  rcases fulfils_put orderly put place ran with ⟨id, update, asks, concludes⟩ | refused
  · rcases concludes with ⟨timely, possible, done, replaces⟩ | ⟨impossible, failed, same, taken⟩
    · refine ⟨fun _ => ⟨id, update, asks, replaces⟩, fun other => absurd done other, ?_, ?_⟩
      · exact ⟨fun _ => ⟨timely, id, update, asks, possible⟩, fun _ => done⟩
      · intro _ _ _ _ _ _ _ _
        rw [done]
        decide
    · refine ⟨fun done => absurd done failed, fun _ => same, ?_, ?_⟩
      · refine ⟨fun done => absurd done failed, fun ⟨timely, other, another, again, possible⟩ => ?_⟩
        obtain ⟨rfl, rfl⟩ := asks.unique again
        exact absurd ⟨timely, possible⟩ impossible
      · intro other another row name again held shows given conflict
        obtain ⟨rfl, rfl⟩ := asks.unique again
        exact (taken conflict).not_own orderly.named held shows given
  · obtain ⟨unasked, failed, same⟩ := refused
    refine ⟨fun done => absurd done failed, fun _ => same, ?_, ?_⟩
    · exact ⟨fun done => absurd done failed, fun ⟨_, id, update, asks, _⟩ =>
        absurd asks (unasked id update)⟩
    · exact fun _ _ _ _ asks => absurd asks (unasked _ _)

def turns (moment : Moment) : Nat → Activity State HttpResponse × State →
    Activity State HttpResponse × State
  | 0, under => under
  | count + 1, (activity, state) => turns moment count (activity.advance moment 0 state)

theorem Reached.turns {repository : Repository} {start state : State}
    {activity : Activity State HttpResponse} {moment : Moment} (timed : moment.time.IsValid)
    (count : Nat) (reached : Reached repository start state [activity]) :
    Reached repository start (Service.turns moment count (activity, state)).2
      [(Service.turns moment count (activity, state)).1] := by
  induction count generalizing activity state with
  | zero => exact reached
  | succ count ih =>
      have here : Reached repository start state ([] ++ activity :: []) := reached
      exact ih (here.step moment timed 0)

def afterCreate : Activity State HttpResponse × State :=
  turns ⟨⟨0⟩, ⟨2024, 1, 1, 0, 0, 0, 0⟩, ⟨"a"⟩⟩ 4
    (answer Settings.standard.repository
      (dayVisit "POST" "/documents" "" "\x7b\"name\": \"x\"\x7d").request, firstState)

/-- A day later it gets the name that it has, and another content. -/
def renameAlike : Visit :=
  { dayVisit "PUT" "/documents/a" "" "\x7b\"name\": \"x\", \"content\": \"2\"\x7d" with
    time := ⟨2024, 1, 2, 0, 0, 0, 0⟩ }

def afterRename : HttpResponse × State × Nat :=
  renameAlike.run Settings.standard.repository Instant.mk 0 afterCreate.2

theorem put_changes_named_alike :
    Reached Settings.standard.repository firstState afterCreate.2 [afterCreate.1] ∧
      afterRename.1.status = 200 ∧ afterCreate.2.store.rows.keys = [⟨"a"⟩] ∧
      ∃ id update, AsksUpdate renameAlike.request "a".toList id update ∧
        update.name = some "x" ∧
        Replaces id update renameAlike.time afterCreate.2.store.rows
          afterRename.2.1.store.rows := by
  have started : Settings.standard.start (.create none) = .ok firstState := rfl
  have reached : Reached Settings.standard.repository firstState afterCreate.2
      [afterCreate.1] := by
    unfold afterCreate
    exact Reached.turns (by decide) 4 (.arrive .start _)
  have put : renameAlike.request.method = "PUT" := rfl
  have place : Endpoint.ofPath? renameAlike.request.target.path =
      some (.document "a".toList) := by decide +kernel
  have readable : (readBody renameAlike.request UpdateRequest.fields
      UpdateRequest.ofJson?).toOption = some ⟨some "x", some "2"⟩ := by decide +kernel
  have success : afterRename.1.status = 200 := by decide +kernel
  have stored : afterCreate.2.store.rows.keys = [⟨"a"⟩] := by decide +kernel
  have ran : renameAlike.run Settings.standard.repository Instant.mk 0 afterCreate.2 =
      afterRename := by rw [afterRename]
  generalize afterRename = renamed at ran success ⊢
  obtain ⟨response, after, next⟩ := renamed
  obtain ⟨changes, -⟩ := put_changes_named started rfl Rows.named_empty Rows.faithful_empty
    reached put place ran
  obtain ⟨id, update, asks, replaces⟩ := changes success
  have given : update = ⟨some "x", some "2"⟩ := by
    rw [asks.readable] at readable
    exact Option.some.inj readable
  have named : update.name = some "x" := by rw [given]
  exact ⟨reached, success, stored, id, update, asks, named, replaces⟩

end Service

end CachedStore
