import CachedStore.Proofs.Repository.Alone
import CachedStore.Proofs.Repository.Sequence
import CachedStore.Proofs.Store.Representation

/-!
Requests to a store, one after the other, with failures injected between them. From an empty store
on, its rows always represent records, and a read without an injected failure never fails for the
sake of a row.
-/

namespace CachedStore

inductive StoreRequest (ρ : Type) where
  | create (record : ρ)
  | update (record : ρ)
  | delete (record : ρ)
  | truncate
  | readByKey (target : ρ) (id : RecordId)
  | findOne (target : ρ) (filter : Filter)
  | find (target : List ρ) (query : Query)
  | failNext (failure : Failure)

inductive StoreReply (ρ : Type) where
  | wrote (result : Except Failure Unit)
  | truncated (result : Except Failure Nat)
  | one (result : Except Failure ρ)
  | many (result : Except Failure (List ρ))
  | awaited

def Failure.of? {α : Type} : Except Failure α → Option Failure
  | .ok _ => none
  | .error failure => some failure

def StoreReply.failure? {ρ : Type} : StoreReply ρ → Option Failure
  | wrote result => Failure.of? result
  | truncated result => Failure.of? result
  | one result => Failure.of? result
  | many result => Failure.of? result
  | awaited => none

namespace StoreRequest

variable {ρ : Type}

def isRead : StoreRequest ρ → Bool
  | readByKey _ _ => true
  | findOne _ _ => true
  | find _ _ => true
  | _ => false

def IsValid [Record ρ] [FaithfulRecord ρ] : StoreRequest ρ → Prop
  | create record => (FaithfulRecord.metadata record).IsValid
  | update record => (FaithfulRecord.metadata record).IsValid
  | readByKey target _ => (FaithfulRecord.metadata target).IsValid
  | findOne target _ => (FaithfulRecord.metadata target).IsValid
  | _ => True

def activity [Record ρ] : StoreRequest ρ → Activity (MemoryStore ρ) (StoreReply ρ)
  | create record => (MemoryStore.createRecord record).bind fun result => .done (.wrote result)
  | update record => (MemoryStore.updateRecord record).bind fun result => .done (.wrote result)
  | delete record => (MemoryStore.deleteRecord record).bind fun result => .done (.wrote result)
  | truncate => MemoryStore.truncate.bind fun result => .done (.truncated result)
  | readByKey target id =>
    (MemoryStore.readByKey target id).bind fun result => .done (.one result)
  | findOne target filter =>
    (MemoryStore.findOne target filter).bind fun result => .done (.one result)
  | find target query => (MemoryStore.find target query).bind fun result => .done (.many result)
  | failNext failure => .step fun _ store => (.awaited, store.failNext failure)

end StoreRequest

namespace MemoryStore

variable {ρ α β : Type} {clock : Nat → Moment} {step : Nat} {store : MemoryStore ρ}

theorem keeps_writeCall_rows {kept : Rows → Prop} (call : StoreCall)
    {write : Rows → Except Failure Rows}
    (keeps : ∀ rows changed, kept rows → write rows = .ok changed → kept changed) :
    (writeCall call write).Keeps fun store : MemoryStore ρ => kept store.rows := by
  refine keeps_call_rows call fun rows answer changed holds given => ?_
  cases made : write rows with
  | error failure => simp [made, Except.map] at given
  | ok value =>
      obtain rfl : value = changed := by simpa [made, Except.map] using given
      exact keeps rows value holds made

theorem runOn_readCall (calm : store.faults = []) (call : StoreCall)
    (read : Rows → Except Failure α) :
    ((readCall call read).runOn clock step store).1 = read store.rows := by
  have begun : (store.begin call).faults = [] := calm
  have performed := perform_read begun read
  cases latency : store.latency with
  | none =>
      simp only [readCall, MemoryStore.call, Activity.runOn, Activity.step, latency]
      exact congrArg Prod.fst performed
  | some latency =>
      simp only [readCall, MemoryStore.call, Activity.runOn, Activity.step, latency]
      exact congrArg Prod.fst performed

variable [Record ρ]

def serve (clock : Nat → Moment) : List (StoreRequest ρ) → Nat → MemoryStore ρ → MemoryStore ρ × Nat
  | [], step, store => (store, step)
  | request :: rest, step, store =>
    let (_, store, step) := request.activity.runOn clock step store
    serve clock rest step store

end MemoryStore

namespace StoreRequest

open MemoryStore

variable {ρ : Type} [Record ρ] {clock : Nat → Moment}

theorem keeps_wellFormed [FaithfulRecord ρ] {request : StoreRequest ρ} (valid : request.IsValid) :
    request.activity.Keeps fun store => store.rows.WellFormed ρ := by
  cases request with
  | create record =>
      refine Activity.Keeps.bind (keeps_writeCall_rows .create ?_) fun _ => trivial
      exact fun rows changed kept created => kept.create valid created
  | update record =>
      refine Activity.Keeps.bind (keeps_writeCall_rows .update ?_) fun _ => trivial
      exact fun rows changed kept updated => kept.update valid updated
  | delete record =>
      refine Activity.Keeps.bind (keeps_writeCall_rows .delete ?_) fun _ => trivial
      exact fun rows changed kept deleted => kept.delete deleted
  | truncate =>
      refine Activity.Keeps.bind (keeps_call_rows .truncate ?_) fun _ => trivial
      intro rows removed changed _ given
      obtain ⟨_, rfl⟩ := Prod.mk.inj (Except.ok.inj given)
      exact Rows.wellFormed_empty
  | readByKey target id => exact (keeps_readCall_rows _ _).bind fun _ => trivial
  | findOne target filter => exact (keeps_readCall_rows _ _).bind fun _ => trivial
  | find target query => exact (keeps_readCall_rows _ _).bind fun _ => trivial
  | failNext failure => exact ⟨fun _ _ kept => kept, fun _ => trivial⟩

theorem wellFormed_serve [FaithfulRecord ρ] {requests : List (StoreRequest ρ)}
    (valid : ∀ request ∈ requests, request.IsValid) {step : Nat} {store : MemoryStore ρ}
    (kept : store.rows.WellFormed ρ) : (serve clock requests step store).1.rows.WellFormed ρ := by
  induction requests generalizing step store with
  | nil => exact kept
  | cons request rest ih =>
      have keeps := keeps_wellFormed (valid request List.mem_cons_self)
      exact ih (fun other member => valid other (List.mem_cons_of_mem _ member))
        (keeps.runOn clock step kept)

theorem wellFormed_served [FaithfulRecord ρ] {latency : Option Duration}
    {requests : List (StoreRequest ρ)} {store : MemoryStore ρ} {step : Nat}
    (valid : ∀ request ∈ requests, request.IsValid)
    (served : serve clock requests 0 (.create latency) = (store, step)) :
    store.rows.WellFormed ρ := by
  have reached : (serve clock requests 0 (.create latency)).1.rows.WellFormed ρ :=
    wellFormed_serve valid Rows.wellFormed_empty
  rwa [served] at reached

theorem isNotFound_of_read [ReadableRecord ρ] {request : StoreRequest ρ} {step : Nat}
    {store : MemoryStore ρ} {failure : Failure} (kept : store.rows.WellFormed ρ)
    (calm : store.faults = []) (reads : request.isRead = true) (valid : request.IsValid)
    (failed : (request.activity.runOn clock step store).1.failure? = some failure) :
    failure.kind = .notFound := by
  cases request with
  | readByKey target id =>
      rw [activity, MemoryStore.readByKey, Activity.runOn_bind, runOn_readCall calm] at failed
      rcases kept.readByKey valid id with ⟨record, found⟩ | missing
      · rw [found] at failed
        cases failed
      · rw [missing] at failed
        exact Option.some.inj failed ▸ rfl
  | findOne target filter =>
      rw [activity, MemoryStore.findOne, Activity.runOn_bind, runOn_readCall calm] at failed
      rcases kept.findOne valid filter with ⟨record, found⟩ | missing
      · rw [found] at failed
        cases failed
      · rw [missing] at failed
        exact Option.some.inj failed ▸ rfl
  | find target query =>
      rw [activity, MemoryStore.find, Activity.runOn_bind, runOn_readCall calm] at failed
      obtain ⟨records, found⟩ := kept.find target query
      rw [found] at failed
      cases failed
  | create _ | update _ | delete _ | truncate | failNext _ => cases reads

end StoreRequest

namespace MemoryStore

variable {ρ : Type} [Record ρ] [ReadableRecord ρ] {clock : Nat → Moment}

/--
After any requests on an empty store, its rows stand for records under their own identities and
apart by their natural keys, all of them can be listed, and reads find a record or none.
-/
theorem serve_represents {latency : Option Duration} {requests : List (StoreRequest ρ)}
    {store : MemoryStore ρ} {step : Nat} (valid : ∀ request ∈ requests, request.IsValid)
    (served : serve clock requests 0 (create latency) = (store, step)) :
    store.rows.Represents ρ ∧ (∃ records, Rows.records ρ store.rows = .ok records) ∧
      ∀ read : StoreRequest ρ, read.isRead = true → read.IsValid → store.faults = [] →
        ∀ failure, (read.activity.runOn clock step store).1.failure? = some failure →
          failure.kind ≠ .queryFailed := by
  have kept := StoreRequest.wellFormed_served valid served
  refine ⟨kept.represents, kept.records, ?_⟩
  intro read reads given calm failure failed
  have missing := StoreRequest.isNotFound_of_read kept calm reads given failed
  simp [missing]

def ticks (step : Nat) : Moment := ⟨⟨step⟩, ⟨2024, 1, 1, 0, 0, 0, 0⟩, ⟨"x"⟩⟩

def lookup (name : String) : StoreRequest Account :=
  .findOne (.named "") (.equals "name" (.string name))

def accountOf (id name : String) (deletedAt : Option Timestamp) : Account :=
  ⟨some ⟨id⟩, name, 10, ⟨none, none, deletedAt⟩⟩

/-- A rename to a new name, which a deleted account keeps from others, and one that is refused. -/
def renames : List (StoreRequest Account) :=
  [.create (accountOf "a" "ada" none), .create (accountOf "b" "bob" none),
    .failNext .unreadableRow, lookup "ada",
    .update (accountOf "a" "eve" (some ⟨2024, 1, 1, 0, 0, 0, 0⟩)),
    .create (accountOf "c" "ada" none), .update (accountOf "c" "eve" none),
    .delete (accountOf "b" "bob" none)]

theorem valid_renames : ∀ request ∈ renames, request.IsValid := by
  have never : Metadata.none.IsValid := Metadata.isValid_none
  have deleted : Metadata.IsValid ⟨none, none, some ⟨2024, 1, 1, 0, 0, 0, 0⟩⟩ :=
    never.deleted (by decide)
  intro request member
  simp only [renames, List.mem_cons, List.not_mem_nil, or_false] at member
  rcases member with rfl | rfl | rfl | rfl | rfl | rfl | rfl | rfl
  · exact never
  · exact never
  · trivial
  · exact never
  · exact deleted
  · exact never
  · exact never
  · trivial

theorem serve_represents_renames :
    ∃ (store : MemoryStore Account) (step : Nat) (failure : Failure),
      serve ticks renames 0 (create none) = (store, step) ∧
      Rows.records Account store.rows =
        .ok [accountOf "a" "eve" (some ⟨2024, 1, 1, 0, 0, 0, 0⟩), accountOf "c" "ada" none] ∧
      store.rows.Represents Account ∧
      ((lookup "eve").activity.runOn ticks step store).1.failure? = some failure ∧
      failure.kind ≠ .queryFailed := by
  let served := serve ticks renames 0 (create none)
  have listed : Rows.records Account served.1.rows =
      .ok [accountOf "a" "eve" (some ⟨2024, 1, 1, 0, 0, 0, 0⟩), accountOf "c" "ada" none] := by
    decide +kernel
  have ran : serve ticks renames 0 (create none) = (served.1, served.2) := Prod.mk.eta.symm
  have calm : served.1.faults = [] := by decide +kernel
  have missed : ((lookup "eve").activity.runOn ticks served.2 served.1).1.failure? =
      some (Record.noMatch Account (.equals "name" (.string "eve"))) := by decide +kernel
  obtain ⟨represents, _, reads⟩ := serve_represents valid_renames ran
  exact ⟨served.1, served.2, _, ran, listed, represents, missed,
    reads (lookup "eve") rfl Metadata.isValid_none calm _ missed⟩

end MemoryStore

end CachedStore
