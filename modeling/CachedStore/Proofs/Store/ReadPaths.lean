import CachedStore.Proofs.Store.Requests
import CachedStore.Service.Answer

/-!
The ways to read a record past the cache: under its identity, as the first match of a filter, as the
first of a listing, and as a request loads it. They find the same record or all find none.
-/

namespace CachedStore

def Repository.loadById {ρ : Type} [Record ρ] (repository : Repository) (id : RecordId) :
    Activity (RepositoryState ρ) (Except Failure ρ) :=
  (repository.findMatches (.byId id)).bind fun
    | .error failure => .done (.error failure)
    | .ok [] => .done (.error (Record.unknownId ρ id))
    | .ok (record :: _) => .done (.ok record)

theorem Service.load_eq_loadById : load = Repository.loadById := by
  funext repository id
  refine congrArg (repository.findMatches (.byId id)).bind (funext fun outcome => ?_)
  rcases outcome with failure | _ | ⟨document, rest⟩ <;> rfl

namespace Rows

variable {ρ : Type} [Record ρ] {rows : Rows}

/-! The first match and the first of all matches -/

theorem firstLive_of_liveRows {listed live : List Row} (given : liveRows ρ listed = .ok live) :
    firstLive ρ listed = .ok live.head? := by
  induction listed generalizing live with
  | nil =>
      obtain rfl := Except.ok.inj given
      rfl
  | cons row rest ih =>
      obtain ⟨alive, decoded, given⟩ := bind_eq_ok.mp given
      obtain ⟨others, listed, given⟩ := bind_eq_ok.mp given
      obtain rfl := Except.ok.inj given
      rw [firstLive, decoded]
      cases alive with
      | true => rfl
      | false => exact ih listed

theorem mapM_eq_ok_head? {α β : Type} {read : α → Except Failure β} {listed : List α}
    {values : List β} (given : listed.mapM read = .ok values) :
    (∀ first, listed.head? = some first → ∃ value, read first = .ok value ∧
      values.head? = some value) ∧ (listed.head? = none → values.head? = none) := by
  cases listed with
  | nil =>
      obtain rfl := Except.ok.inj given
      exact ⟨fun _ impossible => by simp at impossible, fun _ => rfl⟩
  | cons first rest =>
      rw [List.mapM_cons] at given
      obtain ⟨value, reads, given⟩ := bind_eq_ok.mp given
      obtain ⟨others, _, given⟩ := bind_eq_ok.mp given
      obtain rfl := Except.ok.inj given
      refine ⟨fun other same => ?_, fun impossible => by simp at impossible⟩
      obtain rfl := Option.some.inj same
      exact ⟨value, reads, rfl⟩

theorem findOne_of_find {filter : Filter} {records : List ρ}
    (listed : rows.find [] { Query.all with filter := filter } = .ok records) :
    rows.findOne Record.blank filter =
      records.head?.elim (.error (Record.noMatch ρ filter)) .ok := by
  obtain ⟨selected, chosen, listed⟩ := bind_eq_ok.mp listed
  obtain ⟨found, populated, listed⟩ := bind_eq_ok.mp listed
  obtain rfl : found = records := Except.ok.inj listed
  obtain ⟨live, alive, chosen⟩ := bind_eq_ok.mp chosen
  obtain rfl : live = selected := Except.ok.inj chosen
  rw [findOne, firstLive_of_liveRows alive]
  obtain ⟨someHead, noHead⟩ := mapM_eq_ok_head? populated
  cases first : live.head? with
  | none =>
      rw [noHead first]
      rfl
  | some row =>
      obtain ⟨record, reads, same⟩ := someHead row first
      rw [same]
      exact reads

/-! The record of an identity -/

variable [ReadableRecord ρ] {id : RecordId}

def held (ρ : Type) [Record ρ] (rows : Rows) (id : RecordId) : Option ρ :=
  (rows.readByKey Record.blank id).toOption

theorem WellFormed.held_eq_some (kept : rows.WellFormed ρ) {record : ρ} :
    held ρ rows id = some record ↔ rows.Holds id record ∧ Record.isDeleted record = false := by
  rw [held]
  constructor
  · intro found
    refine kept.faithful.of_readByKey ?_
    cases read : rows.readByKey (Record.blank : ρ) id with
    | error failure => simp [read, Except.toOption] at found
    | ok other =>
        obtain rfl : other = record := by simpa [read, Except.toOption] using found
        rfl
  · rintro ⟨holds, live⟩
    rw [holds.readByKey live]
    rfl

theorem WellFormed.readByKey_eq (kept : rows.WellFormed ρ) (id : RecordId) :
    rows.readByKey (Record.blank : ρ) id =
      (held ρ rows id).elim (.error (Record.unknownId ρ id)) .ok := by
  rw [held]
  rcases kept.readByKey ReadableRecord.blank_valid id with ⟨record, read⟩ | missing
  · rw [read]
    rfl
  · rw [missing]
    rfl

theorem WellFormed.find_byId (kept : rows.WellFormed ρ) (id : RecordId) :
    rows.find ([] : List ρ) { Query.all with filter := .byId id } =
      .ok (held ρ rows id).toList :=
  kept.faithful.find_byId kept.named id

theorem WellFormed.findOne_byId (kept : rows.WellFormed ρ) (id : RecordId) :
    rows.findOne (Record.blank : ρ) (.byId id) =
      (held ρ rows id).elim (.error (Record.noMatch ρ (.byId id))) .ok := by
  rw [findOne_of_find (kept.find_byId id)]
  cases held ρ rows id <;> rfl

theorem WellFormed.held_of_isEmpty (kept : rows.WellFormed ρ) (empty : id.isEmpty = true) :
    held ρ rows id = none := by
  by_contra found
  obtain ⟨record, found⟩ := Option.ne_none_iff_exists'.mp found
  obtain ⟨row, stored, _⟩ := (kept.held_eq_some.mp found).1.stored
  have given := kept.given stored
  simp [empty] at given

end Rows

namespace Repository

variable {ρ : Type} [Record ρ] {repository : Repository} {clock : Nat → Moment} {step : Nat}
  {state : RepositoryState ρ}

theorem runOn_loadById_late (stored : repository.hasStore = true)
    (late : Late repository.queryTimeout state.store) (id : RecordId) :
    ((repository.loadById id).runOn clock step state).1 =
      .error (deadlineExceeded ρ "find_matches" repository.queryTimeout) := by
  rw [loadById, findMatches, Activity.runOn_bind, MemoryStore.find, MemoryStore.readCall,
    runOn_uncached_late stored late]
  rfl

theorem runOn_loadById (stored : repository.hasStore = true) (calm : state.store.faults = [])
    (timely : ¬ Late repository.queryTimeout state.store) {id : RecordId} {found : Option ρ}
    (listed : state.store.rows.find [] { Query.all with filter := .byId id } = .ok found.toList) :
    ((repository.loadById id).runOn clock step state).1 =
      found.elim (.error (Record.unknownId ρ id)) .ok := by
  have ran := runOn_uncached clock step stored calm (soon_of_not_late timely) "find_matches" .find
    fun rows => rows.find ([] : List ρ) { Query.all with filter := .byId id }
  rw [listed] at ran
  rw [loadById, findMatches, MemoryStore.find, Activity.runOn_bind_of ran]
  cases found <;> rfl

end Repository

namespace MemoryStore

open Repository (Late deadlineExceeded)

variable {ρ : Type} [Record ρ] {clock : Nat → Moment} {step : Nat} {store : MemoryStore ρ}

/-- Every read for an identity finds the record, or every one none. -/
structure FindsOf (clock : Nat → Moment) (step : Nat) (store : MemoryStore ρ) (id : RecordId)
    (found : Option ρ) : Prop where
  byKey : ((readByKey (Record.blank : ρ) id).runOn clock step store).1 =
    found.elim (.error (Record.unknownId ρ id)) .ok
  byFilter : ((findOne (Record.blank : ρ) (.byId id)).runOn clock step store).1 =
    found.elim (.error (Record.noMatch ρ (.byId id))) .ok
  listed : ((find ([] : List ρ) { Query.all with filter := .byId id }).runOn clock step store).1 =
    .ok found.toList
  loaded : ∀ (repository : Repository) (state : RepositoryState ρ), repository.hasStore = true →
    state.store = store → ¬ Late repository.queryTimeout store →
    ((repository.loadById id).runOn clock step state).1 =
      found.elim (.error (Record.unknownId ρ id)) .ok
  late : ∀ (repository : Repository) (state : RepositoryState ρ), repository.hasStore = true →
    state.store = store → Late repository.queryTimeout store →
    ((repository.loadById id).runOn clock step state).1 =
      .error (deadlineExceeded ρ "find_matches" repository.queryTimeout)

variable [ReadableRecord ρ]

theorem findsOf_held (kept : store.rows.WellFormed ρ) (calm : store.faults = []) (id : RecordId) :
    FindsOf clock step store id (Rows.held ρ store.rows id) where
  byKey := (runOn_readCall calm _ _).trans (kept.readByKey_eq id)
  byFilter := (runOn_readCall calm _ _).trans (kept.findOne_byId id)
  listed := (runOn_readCall calm _ _).trans (kept.find_byId id)
  loaded repository state stored same timely := by
    subst same
    exact Repository.runOn_loadById stored calm timely (kept.find_byId id)
  late repository state stored same late := by
    subst same
    exact Repository.runOn_loadById_late stored late id

/--
After any requests on an empty store, all reads for an identity find its record if there is one that
is not deleted, and none otherwise. For any filter, the read of one record gives the first of those
that the filter lists, and fails for want of a match exactly if there are none.
-/
theorem reads_agree {latency : Option Duration} {requests : List (StoreRequest ρ)}
    (valid : ∀ request ∈ requests, request.IsValid)
    (served : serve clock requests 0 (create latency) = (store, step))
    (calm : store.faults = []) :
    Service.load = Repository.loadById ∧
      (∀ id : RecordId, ∃ found : Option ρ, FindsOf clock step store id found ∧
        (∀ record, found = some record ↔
          store.rows.Holds id record ∧ Record.isDeleted record = false) ∧
        (id.isEmpty = true → found = none)) ∧
      ∀ filter : Filter, ∃ records : List ρ,
        ((find [] { Query.all with filter := filter }).runOn clock step store).1 = .ok records ∧
        ((findOne (Record.blank : ρ) filter).runOn clock step store).1 =
          records.head?.elim (.error (Record.noMatch ρ filter)) .ok := by
  have kept := StoreRequest.wellFormed_served valid served
  refine ⟨Service.load_eq_loadById, ?_, ?_⟩
  · intro id
    exact ⟨_, findsOf_held kept calm id, fun record => kept.held_eq_some, kept.held_of_isEmpty⟩
  · intro filter
    obtain ⟨records, listed⟩ := kept.find [] { Query.all with filter := filter }
    refine ⟨records, (runOn_readCall calm _ _).trans listed, ?_⟩
    exact (runOn_readCall calm _ _).trans (Rows.findOne_of_find listed)

theorem reads_agree_renames :
    ∃ (store : MemoryStore Account) (step : Nat),
      serve ticks renames 0 (create none) = (store, step) ∧ store.faults = [] ∧
      FindsOf ticks step store ⟨"c"⟩ (some (accountOf "c" "ada" none)) ∧
      store.rows[(⟨"a"⟩ : RecordId)]?.isSome = true ∧
      FindsOf ticks step store ⟨"a"⟩ none ∧
      ((findOne (Record.blank : Account) (.equals "balance" (.ofInt 10))).runOn ticks step
        store).1 = .ok (accountOf "c" "ada" none) := by
  let served := serve ticks renames 0 (create none)
  have ran : serve ticks renames 0 (create none) = (served.1, served.2) := Prod.mk.eta.symm
  have calm : served.1.faults = [] := by decide +kernel
  obtain ⟨_, byId, byFilter⟩ := reads_agree valid_renames ran calm
  obtain ⟨live, findsLive, _⟩ := byId ⟨"c"⟩
  obtain ⟨dead, findsDead, _⟩ := byId ⟨"a"⟩
  obtain ⟨records, listed, first⟩ := byFilter (.equals "balance" (.ofInt 10))
  have liveRead : ((readByKey (Record.blank : Account) ⟨"c"⟩).runOn ticks served.2
      served.1).1 = .ok (accountOf "c" "ada" none) := by decide +kernel
  have deadRead : ((readByKey (Record.blank : Account) ⟨"a"⟩).runOn ticks served.2
      served.1).1 = .error (Record.unknownId Account ⟨"a"⟩) := by decide +kernel
  have tens : ((find ([] : List Account) { Query.all with
      filter := .equals "balance" (.ofInt 10) }).runOn ticks served.2 served.1).1 =
      .ok [accountOf "c" "ada" none] := by decide +kernel
  obtain rfl : live = some (accountOf "c" "ada" none) := by
    rw [findsLive.byKey] at liveRead
    cases live with
    | none => cases liveRead
    | some record => exact congrArg some (Except.ok.inj liveRead)
  obtain rfl : dead = none := by
    rw [findsDead.byKey] at deadRead
    cases dead with
    | none => rfl
    | some record => cases deadRead
  obtain rfl := Except.ok.inj (listed.symm.trans tens)
  exact ⟨served.1, served.2, ran, calm, findsLive, by decide +kernel, findsDead, first⟩

end MemoryStore

end CachedStore
