import CachedStore.Proofs.Repository.FailedOperations

/-!
What an operation asks of its store, run alone, and what it makes of the replies. It asks once, and
an operation that creates what it did not find asks once more. No failure of the store is lost on
the way to the caller, and none is changed.
-/

namespace CachedStore

/-! Requests and their replies -/

namespace MemoryStore

variable {ρ α : Type}

theorem runOn_call (clock : Nat → Moment) (step : Nat) (store : MemoryStore ρ) (call : StoreCall)
    (effect : Rows → Except Failure (α × Rows)) :
    (MemoryStore.call call effect).runOn clock step store =
      (((store.begin call).perform effect).1, ((store.begin call).perform effect).2, step + 2) := by
  cases latency : store.latency with
  | none => simp only [MemoryStore.call, Activity.runOn, Activity.step, latency]
  | some span => simp only [MemoryStore.call, Activity.runOn, Activity.step, latency]

structure Counted (before : MemoryStore ρ) (call : StoreCall) (failed : Option Failure)
    (after : MemoryStore ρ) : Prop where
  calls : after.calls = before.calls.add call
  faults : after.faults = before.faults.drop 1
  latency : after.latency = before.latency
  injected : ∀ failure, before.faults.head? = some failure → failed = some failure

theorem counted_perform (store : MemoryStore ρ) (call : StoreCall)
    (effect : Rows → Except Failure (α × Rows)) :
    store.Counted call (Failure.of? ((store.begin call).perform effect).1)
      ((store.begin call).perform effect).2 := by
  unfold perform
  cases pending : (store.begin call).faults with
  | cons failure faults =>
      have waiting : store.faults = failure :: faults := pending
      refine ⟨rfl, by rw [waiting]; rfl, rfl, fun _ first => ?_⟩
      rw [waiting] at first
      exact first
  | nil =>
      have calm : store.faults = [] := pending
      have never : ∀ (failed : Option Failure) failure, store.faults.head? = some failure →
          failed = some failure := fun _ _ impossible => by simp [calm] at impossible
      cases (effect (store.begin call).rows) with
      | error failure => exact ⟨rfl, by rw [calm]; exact pending, rfl, never _⟩
      | ok result => exact ⟨rfl, by rw [calm]; rfl, rfl, never _⟩

end MemoryStore

namespace StoreRequest

variable {ρ : Type}

def call? : StoreRequest ρ → Option StoreCall
  | create _ => some .create
  | update _ => some .update
  | delete _ => some .delete
  | truncate => some .truncate
  | readByKey _ _ => some .readByKey
  | findOne _ _ => some .findOne
  | find _ _ => some .find
  | failNext _ => none

variable [Record ρ]

theorem activity_eq {request : StoreRequest ρ} {call : StoreCall}
    (calls : request.call? = some call) :
    ∃ (α : Type) (effect : Rows → Except Failure (α × Rows))
      (wrap : Except Failure α → StoreReply ρ),
      request.activity = (MemoryStore.call call effect).bind (fun result => .done (wrap result)) ∧
        ∀ result, (wrap result).failure? = Failure.of? result := by
  cases request with
  | failNext failure => cases calls
  | _ =>
      obtain rfl := Option.some.inj calls
      exact ⟨_, _, _, rfl, fun _ => rfl⟩

theorem counted {request : StoreRequest ρ} {call : StoreCall} (calls : request.call? = some call)
    {clock : Nat → Moment} {step next : Nat} {before after : MemoryStore ρ} {reply : StoreReply ρ}
    (ran : request.activity.runOn clock step before = (reply, after, next)) :
    before.Counted call reply.failure? after := by
  obtain ⟨α, effect, wrap, same, fails⟩ := activity_eq calls
  rw [same, Activity.runOn_bind, MemoryStore.runOn_call] at ran
  obtain ⟨rfl, rest⟩ := Prod.mk.inj ran
  obtain rfl := (Prod.mk.inj rest).1
  rw [fails]
  exact before.counted_perform call effect

end StoreRequest

structure Exchange (ρ : Type) where
  request : StoreRequest ρ
  reply : StoreReply ρ

inductive Exchanges {ρ : Type} [Record ρ] (clock : Nat → Moment) :
    MemoryStore ρ → List (Exchange ρ) → MemoryStore ρ → Prop where
  | none {store : MemoryStore ρ} : Exchanges clock store [] store
  | ask {store middle after : MemoryStore ρ} {request : StoreRequest ρ} {reply : StoreReply ρ}
      {call : StoreCall} {step next : Nat} {rest : List (Exchange ρ)}
      (calls : request.call? = some call)
      (ran : request.activity.runOn clock step store = (reply, middle, next))
      (others : Exchanges clock middle rest after) :
      Exchanges clock store (⟨request, reply⟩ :: rest) after

namespace Exchanges

variable {ρ : Type} [Record ρ] {clock : Nat → Moment} {before after : MemoryStore ρ}
  {exchanges : List (Exchange ρ)}

theorem append {middle : MemoryStore ρ} {others : List (Exchange ρ)}
    (exchanged : Exchanges clock before exchanges middle)
    (later : Exchanges clock middle others after) :
    Exchanges clock before (exchanges ++ others) after := by
  induction exchanged with
  | none => exact later
  | ask calls ran _ ih => exact .ask calls ran (ih later)

theorem latency (exchanged : Exchanges clock before exchanges after) :
    after.latency = before.latency := by
  induction exchanged with
  | none => rfl
  | ask calls ran _ ih => exact ih.trans (StoreRequest.counted calls ran).latency

theorem calls (exchanged : Exchanges clock before exchanges after) :
    after.calls = (exchanges.filterMap (·.request.call?)).foldl .add before.calls := by
  induction exchanged with
  | none => rfl
  | ask calls ran _ ih =>
      rw [ih, (StoreRequest.counted calls ran).calls, List.filterMap_cons, calls]
      rfl

theorem faults (exchanged : Exchanges clock before exchanges after) :
    after.faults = before.faults.drop exchanges.length := by
  induction exchanged with
  | none => rfl
  | ask calls ran _ ih =>
      rw [ih, (StoreRequest.counted calls ran).faults, List.drop_drop, List.length_cons,
        Nat.add_comm]

theorem injected (exchanged : Exchanges clock before exchanges after) {place : Nat}
    {exchange : Exchange ρ} {failure : Failure} (asked : exchanges[place]? = some exchange)
    (pending : before.faults[place]? = some failure) :
    exchange.reply.failure? = some failure := by
  induction exchanged generalizing place with
  | none => cases asked
  | @ask store middle _ _ _ _ _ _ _ calls ran _ ih =>
      have counted := StoreRequest.counted calls ran
      cases place with
      | zero =>
          obtain rfl := Option.some.inj asked
          exact counted.injected failure (List.head?_eq_getElem? ▸ pending)
      | succ place =>
          refine ih asked ?_
          rw [counted.faults, List.getElem?_drop, Nat.add_comm]
          exact pending

end Exchanges

/-! What operations ask -/

namespace Attempt

open Repository

variable {ρ : Type} [Record ρ]

/--
What an attempt asks of the store first, unless the record refuses its identity or its stamp. A read
with a load of its own, or dropping a key, has nothing to ask by itself.
-/
def request? (moment : Moment) : Attempt ρ → Option (Except Failure (StoreRequest ρ))
  | operate (.fetchOne _ _ _) => none
  | operate (.fetchMany _ _ _) => none
  | operate (.invalidate _) => none
  | operate (.readByKey _ id) => some (.ok (.readByKey Record.blank id))
  | operate (.findOne _ filter) => some (.ok (.findOne Record.blank filter))
  | operate (.find _ query) => some (.ok (.find [] query))
  | operate (.create _ record) =>
    some ((stampNew record moment).map fun (_, stamped) => .create stamped)
  | operate (.createIfAbsent record) =>
    some (.ok (.findOne Record.blank (Record.naturalKey record)))
  | operate (.update record) => some (.ok (.update (Record.touchUpdated record moment.time)))
  | operate (.softDelete record) => some ((stampDeleted record moment).map .update)
  | operate (.delete record) => some (.ok (.delete record))
  | operate .truncate => some (.ok .truncate)
  | findMatches filter => some (.ok (.find [] { Query.all with filter := filter }))
  | findByKeyWithFields id columns =>
    some (.ok (.find [] ⟨.byId id, none, some 1, some columns⟩))
  | existsLike record => some (.ok (.findOne Record.blank (Record.naturalKey record)))

def isCached (moment : Moment) (state : RepositoryState ρ) : Attempt ρ → Bool
  | operate (.readByKey key _) => (lookup .one key moment state).1.1.isSome
  | operate (.findOne key _) => (lookup .one key moment state).1.1.isSome
  | operate (.find key _) => (lookup .many key moment state).1.1.isSome
  | _ => false

def goesOn : Attempt ρ → StoreReply ρ → Bool
  | operate (.createIfAbsent _), reply => reply.failure?.any Failure.isNotFound
  | _, _ => false

/--
The failure that an attempt reports for a reply: that of the reply. Only a question of existence is
answered by a record that is not found, and a permissive create is content with a duplicate; a
single record that is picked from an empty listing is a failure of its own.
-/
def verdict : Attempt ρ → StoreReply ρ → Option Failure
  | existsLike _, reply => reply.failure?.filter fun failure => !failure.isNotFound
  | operate (.create .ignore _), reply =>
    reply.failure?.filter fun failure => !failure.isDuplicate
  | findByKeyWithFields id _, .many (.ok []) => some (Record.unknownId ρ id)
  | _, reply => reply.failure?

/-- The exchanges that an attempt is over with, and the failure that it reports then. -/
inductive EndsWith (clock : Nat → Moment) :
    RepositoryState ρ → Attempt ρ → Nat → List (Exchange ρ) → Option Failure → Prop where
  | cached {state : RepositoryState ρ} {attempt : Attempt ρ} {step : Nat}
      (found : attempt.isCached (clock step) state = true) :
      EndsWith clock state attempt step [] none
  | refused {state : RepositoryState ρ} {attempt : Attempt ρ} {step : Nat} {failure : Failure}
      (refuses : attempt.request? (clock step) = some (.error failure)) :
      EndsWith clock state attempt step [] (some failure)
  | asked {state : RepositoryState ρ} {attempt : Attempt ρ} {step : Nat}
      {request : StoreRequest ρ} {reply : StoreReply ρ}
      (missed : attempt.isCached (clock step) state = false)
      (asks : attempt.request? (clock step) = some (.ok request))
      (settled : attempt.goesOn reply = false) :
      EndsWith clock state attempt step [⟨request, reply⟩] (attempt.verdict reply)
  | absent {state middle : RepositoryState ρ} {record : ρ} {step later : Nat}
      {reply : StoreReply ρ} {rest : List (Exchange ρ)} {failure : Option Failure}
      (goes : (operate (.createIfAbsent record)).goesOn reply = true)
      (creates : EndsWith clock middle (operate (.create .strict record)) later rest failure) :
      EndsWith clock state (operate (.createIfAbsent record)) step
        (⟨.findOne Record.blank (Record.naturalKey record), reply⟩ :: rest) failure

end Attempt

namespace Repository

variable {ρ : Type} [Record ρ] {repository : Repository} {α β δ : Type} {request : StoreRequest ρ}
  {call : StoreCall}

def Timely (repository : Repository) (store : MemoryStore ρ) : Prop :=
  ∀ latency, store.latency = some latency → latency.pauseTicks ≤ repository.queryTimeout.ticks

/--
Run alone before a store that answers in time, the activity comes to an end, and the exchanges that
it made and its result are as told.
-/
def Asks (repository : Repository) (activity : Activity (RepositoryState ρ) α)
    (told : (Nat → Moment) → RepositoryState ρ → Nat → List (Exchange ρ) → α → Prop) : Prop :=
  ∀ (clock : Nat → Moment) (step : Nat) (state : RepositoryState ρ),
    repository.Timely state.store → ∃ exchanges result after next,
      activity.runOn clock step state = (result, after, next) ∧
      Exchanges clock state.store exchanges after.store ∧ told clock state step exchanges result

namespace Asks

variable {activity : Activity (RepositoryState ρ) α}
  {told : (Nat → Moment) → RepositoryState ρ → Nat → List (Exchange ρ) → α → Prop}

theorem map {report : α → β}
    {tells : (Nat → Moment) → RepositoryState ρ → Nat → List (Exchange ρ) → β → Prop}
    (asks : Asks repository activity told)
    (reports : ∀ {clock state step exchanges result}, told clock state step exchanges result →
      tells clock state step exchanges (report result)) :
    Asks repository (activity.bind fun result => .done (report result)) tells := by
  intro clock step state timely
  obtain ⟨exchanges, result, after, next, ran, exchanged, so⟩ := asks clock step state timely
  exact ⟨exchanges, _, after, next, Activity.runOn_bind_of ran _, exchanged, reports so⟩

end Asks

def Relays (repository : Repository) (activity : Activity (RepositoryState ρ) α)
    (request : StoreRequest ρ) (reply : α → StoreReply ρ) : Prop :=
  Asks repository activity fun _ _ _ exchanges result => exchanges = [⟨request, reply result⟩]

theorem relays_deadline {effect : Rows → Except Failure (α × Rows)}
    {reply : Except Failure α → StoreReply ρ} (calls : request.call? = some call)
    (same : request.activity = (MemoryStore.call call effect).bind fun result =>
      .done (reply result)) (operation : String) :
    Relays repository (repository.deadline operation (onStore (MemoryStore.call call effect)))
      request reply := by
  intro clock step state timely
  have ran : request.activity.runOn clock step state.store =
      (reply ((state.store.begin call).perform effect).1,
        ((state.store.begin call).perform effect).2, step + 2) := by
    rw [same, Activity.runOn_bind, MemoryStore.runOn_call]
    rfl
  exact ⟨_, _, _, _, runOn_deadline clock step timely operation call effect,
    .ask calls ran .none, rfl⟩

theorem relays_uncached (stored : repository.hasStore = true)
    {effect : Rows → Except Failure (α × Rows)} {reply : Except Failure α → StoreReply ρ}
    (calls : request.call? = some call)
    (same : request.activity = (MemoryStore.call call effect).bind fun result =>
      .done (reply result)) (operation : String) :
    Relays repository (repository.uncached operation (MemoryStore.call call effect)) request
      reply := by
  rw [uncached, if_pos stored]
  exact relays_deadline calls same operation

/-- The request is asked, and the write reports what its policy makes of the reply. -/
def Posts (repository : Repository) (activity : Activity (RepositoryState ρ) (Written ρ))
    (request : StoreRequest ρ) (policy : DuplicatePolicy) : Prop :=
  Asks repository activity fun _ _ _ exchanges written =>
    ∃ reply, exchanges = [⟨request, .wrote reply⟩] ∧ written.outcome = settle policy reply

theorem posts_write {change : Rows → Except Failure Rows} (calls : request.call? = some call)
    (same : request.activity = (MemoryStore.writeCall call change).bind fun result =>
      .done (.wrote result)) (operation : String) (policy : DuplicatePolicy) (id : Option RecordId)
    (record : ρ) :
    Posts repository
      (repository.write operation policy id record (MemoryStore.writeCall call change)) request
      policy := by
  intro clock step state timely
  have relays : Relays repository
      (repository.deadline operation (onStore (MemoryStore.writeCall call change))) request
      .wrote := relays_deadline calls same operation
  obtain ⟨_, reply, after, next, ran, exchanged, rfl⟩ := relays clock step state timely
  rw [write, Activity.runOn_bind_of ran, finishWrite]
  cases settled : settle policy reply with
  | error failure => exact ⟨_, _, after, next, rfl, exchanged, reply, rfl, settled.symm⟩
  | ok _ =>
      refine ⟨_, _, _, _, rfl, ?_, reply, rfl, settled.symm⟩
      have kept := store_invalidateRecord repository id (clock next) after
      exact kept.symm ▸ exchanged

theorem asks_cachedRead (stored : repository.hasStore = true) (shape : Shape ρ δ) (key : Key)
    {read : Rows → Except Failure δ} {reply : Except Failure δ → StoreReply ρ}
    (calls : request.call? = some call)
    (same : request.activity = (MemoryStore.readCall call read).bind fun result =>
      .done (reply result)) :
    Asks repository (repository.cachedRead shape key (MemoryStore.readCall call read))
      fun clock state step exchanges result =>
        (lookup shape key (clock step) state).1.1.isSome = true ∧ exchanges = [] ∧
            Failure.of? result = none ∨
          (lookup shape key (clock step) state).1.1.isSome = false ∧
            exchanges = [⟨request, reply result⟩] := by
  intro clock step state timely
  have relays : Relays repository
      (repository.deadline "load" (onStore (MemoryStore.readCall call read))) request reply :=
    relays_deadline calls same "load"
  obtain ⟨_, result, middle, later, ran, exchanged, rfl⟩ :=
    relays clock (step + 1) (lookup shape key (clock step) state).2 timely
  have ends := fetch_ends repository clock shape key repository.readTtl
    (onStore (MemoryStore.readCall call read)) step state
  rw [cachedRead, if_pos stored, Activity.runOn_bind]
  generalize (repository.fetch shape key repository.readTtl
    (onStore (MemoryStore.readCall call read))).runOn clock step state = ended at ends ⊢
  cases ends with
  | hit found => exact ⟨[], _, _, _, rfl, .none, Or.inl ⟨by rw [found]; rfl, rfl, rfl⟩⟩
  | failed missed loaded =>
      obtain ⟨rfl, rest⟩ := Prod.mk.inj (ran.symm.trans loaded)
      obtain ⟨rfl, rfl⟩ := Prod.mk.inj rest
      exact ⟨_, _, _, _, rfl, exchanged, Or.inr ⟨by rw [missed]; rfl, rfl⟩⟩
  | kept missed loaded =>
      obtain ⟨rfl, rest⟩ := Prod.mk.inj (ran.symm.trans loaded)
      obtain ⟨rfl, rfl⟩ := Prod.mk.inj rest
      refine ⟨_, _, _, _, rfl, ?_, Or.inr ⟨by rw [missed]; rfl, rfl⟩⟩
      rw [store_keep]
      exact exchanged

end Repository

/-! How each attempt concludes -/

namespace Attempt

open Repository

variable {ρ : Type} [Record ρ] {repository : Repository}

theorem verdict_create (policy : DuplicatePolicy) (record : ρ) (reply : Except Failure Unit) :
    (operate (.create policy record)).verdict (.wrote reply) =
      Failure.of? (settle policy reply) := by
  cases reply with
  | ok _ => cases policy <;> rfl
  | error failure =>
      cases policy with
      | strict => rfl
      | ignore =>
          cases duplicate : failure.isDuplicate <;>
            simp [verdict, StoreReply.failure?, settle, Failure.of?, Option.filter, duplicate]

theorem of?_settle_strict (reply : Except Failure Unit) :
    Failure.of? (settle .strict reply) = Failure.of? reply := by
  cases reply <;> rfl

/-- A result, seen as the failure that it is, concludes the attempt. -/
def ConcludedBy {α : Type} (attempt : Attempt ρ) (failure? : α → Option Failure)
    (clock : Nat → Moment) (state : RepositoryState ρ) (step : Nat)
    (exchanges : List (Exchange ρ)) (result : α) : Prop :=
  attempt.EndsWith clock state step exchanges (failure? result)

theorem EndsWith.of_verdict {clock : Nat → Moment} {step : Nat} {state : RepositoryState ρ}
    {attempt : Attempt ρ} {request : StoreRequest ρ} {reply : StoreReply ρ}
    {failure : Option Failure} (missed : attempt.isCached (clock step) state = false)
    (asks : attempt.request? (clock step) = some (.ok request))
    (settled : attempt.goesOn reply = false) (same : failure = attempt.verdict reply) :
    attempt.EndsWith clock state step [⟨request, reply⟩] failure :=
  same ▸ .asked missed asks settled

/-! Writes -/

def writtenFailure? (written : Written ρ) : Option Failure := Failure.of? written.outcome

theorem endsWith_of_posts {activity : Activity (RepositoryState ρ) (Written ρ)}
    {request : StoreRequest ρ} {policy : DuplicatePolicy} {attempt : Attempt ρ}
    {clock : Nat → Moment} {step : Nat} {state : RepositoryState ρ}
    (posts : Posts repository activity request policy) (timely : repository.Timely state.store)
    (missed : attempt.isCached (clock step) state = false)
    (asks : attempt.request? (clock step) = some (.ok request))
    (settled : ∀ reply, attempt.goesOn (.wrote reply) = false)
    (tells : ∀ reply, attempt.verdict (.wrote reply) = Failure.of? (settle policy reply))
    (sent : Nat) :
    ∃ exchanges written after next, activity.runOn clock sent state = (written, after, next) ∧
      Exchanges clock state.store exchanges after.store ∧
      attempt.ConcludedBy writtenFailure? clock state step exchanges written := by
  obtain ⟨_, written, after, next, ran, exchanged, reply, rfl, outcome⟩ :=
    posts clock sent state timely
  refine ⟨_, written, after, next, ran, exchanged, .of_verdict missed asks (settled _) ?_⟩
  rw [tells, writtenFailure?, outcome]

theorem asks_createWith (stored : repository.hasStore = true) (policy : DuplicatePolicy)
    (record : ρ) :
    Asks repository (repository.createWith policy record)
      ((operate (.create policy record)).ConcludedBy writtenFailure?) := by
  intro clock step state timely
  rw [createWith, needingStore, if_pos stored, Activity.runOn]
  cases stamped : stampNew record (clock step) with
  | error failure =>
      refine ⟨[], _, state, step + 1, rfl, .none, .refused ?_⟩
      rw [request?, stamped]
      rfl
  | ok made =>
      have posts : Posts repository (repository.write "create" policy (some made.1) made.2
          (MemoryStore.createRecord made.2)) (.create made.2) policy := posts_write rfl rfl _ _ _ _
      refine endsWith_of_posts posts timely rfl ?_ (fun _ => rfl) (verdict_create policy record)
        (step + 1)
      rw [request?, stamped]
      rfl

theorem asks_update (stored : repository.hasStore = true) (record : ρ) :
    Asks repository (repository.update record)
      ((operate (.update record)).ConcludedBy writtenFailure?) := by
  intro clock step state timely
  rw [Repository.update, needingStore, if_pos stored, Activity.runOn]
  let stamped := Record.touchUpdated record (clock step).time
  have posts : Posts repository (repository.write "update" .strict (Record.id? stamped) stamped
      (MemoryStore.updateRecord stamped)) (.update stamped) .strict := posts_write rfl rfl _ _ _ _
  refine endsWith_of_posts posts timely rfl rfl (fun _ => rfl) ?_ (step + 1)
  exact fun reply => (of?_settle_strict reply).symm

theorem asks_softDelete (stored : repository.hasStore = true) (record : ρ) :
    Asks repository (repository.softDelete record)
      ((operate (.softDelete record)).ConcludedBy writtenFailure?) := by
  intro clock step state timely
  rw [Repository.softDelete, needingStore, if_pos stored, Activity.runOn]
  cases stamped : stampDeleted record (clock step) with
  | error failure =>
      refine ⟨[], _, state, step + 1, rfl, .none, .refused ?_⟩
      rw [request?, stamped]
      rfl
  | ok made =>
      have posts : Posts repository (repository.write "soft_delete" .strict (Record.id? made) made
          (MemoryStore.updateRecord made)) (.update made) .strict := posts_write rfl rfl _ _ _ _
      refine endsWith_of_posts posts timely rfl ?_ (fun _ => rfl) ?_ (step + 1)
      · rw [request?, stamped]
        rfl
      · exact fun reply => (of?_settle_strict reply).symm

theorem asks_delete (stored : repository.hasStore = true) (record : ρ) :
    Asks repository (repository.delete record)
      ((operate (.delete record)).ConcludedBy writtenFailure?) := by
  intro clock step state timely
  rw [Repository.delete, needingStore, if_pos stored]
  have posts : Posts repository (repository.write "delete" .strict (Record.id? record) record
      (MemoryStore.deleteRecord record)) (.delete record) .strict := posts_write rfl rfl _ _ _ _
  refine endsWith_of_posts posts timely rfl rfl (fun _ => rfl) ?_ step
  exact fun reply => (of?_settle_strict reply).symm

theorem asks_createIfAbsent (stored : repository.hasStore = true) (record : ρ) :
    Asks repository (repository.createIfAbsent record)
      ((operate (.createIfAbsent record)).ConcludedBy writtenFailure?) := by
  intro clock step state timely
  rw [Repository.createIfAbsent, needingStore, if_pos stored]
  have relays : Relays repository (repository.uncached "create_if_not"
      (MemoryStore.findOne (Record.blank : ρ) (Record.naturalKey record)))
      (.findOne Record.blank (Record.naturalKey record)) .one :=
    relays_uncached stored rfl rfl "create_if_not"
  obtain ⟨_, found, middle, between, ran, looked, rfl⟩ := relays clock step state timely
  rw [Activity.runOn_bind_of ran]
  cases found with
  | ok existing => exact ⟨_, _, _, _, rfl, looked, .of_verdict rfl rfl rfl rfl⟩
  | error failure =>
      cases missing : failure.isNotFound with
      | false =>
          refine ⟨_, ⟨.error failure, record⟩, middle, between, ?_, looked,
            .of_verdict rfl rfl missing rfl⟩
          simp only [missing, Bool.false_eq_true, ↓reduceIte, Activity.runOn]
      | true =>
          obtain ⟨created, written, after, next, goes, exchanged, concludes⟩ :=
            asks_createWith stored .strict record clock between middle
              fun latency same => timely latency (looked.latency ▸ same)
          refine ⟨_, written, after, next, ?_, looked.append exchanged, ?_⟩
          · simp only [missing, ↓reduceIte]
            exact goes
          · exact .absent missing concludes

theorem asks_truncate (stored : repository.hasStore = true) :
    Asks repository (repository.truncate : Activity (RepositoryState ρ) (Except Failure Nat))
      ((operate .truncate).ConcludedBy Failure.of?) := by
  intro clock step state timely
  have relays : Relays repository (repository.uncached "truncate" MemoryStore.truncate)
      (.truncate : StoreRequest ρ) .truncated := relays_uncached stored rfl rfl "truncate"
  obtain ⟨_, result, after, next, ran, exchanged, rfl⟩ := relays clock step state timely
  rw [Repository.truncate, Activity.runOn_bind_of ran]
  cases result with
  | error failure => exact ⟨_, _, _, _, rfl, exchanged, .of_verdict rfl rfl rfl rfl⟩
  | ok removed => exact ⟨_, _, _, _, rfl, exchanged, .of_verdict rfl rfl rfl rfl⟩

/-! Reads -/

theorem asks_findByKeyWithFields (stored : repository.hasStore = true) (id : RecordId)
    (columns : List String) :
    Asks repository
      (repository.findByKeyWithFields id columns : Activity (RepositoryState ρ) _)
      ((findByKeyWithFields id columns).ConcludedBy Failure.of?) := by
  intro clock step state timely
  have relays : Relays repository (repository.uncached "find_by_key_with_fields"
      (MemoryStore.find [] ⟨.byId id, none, some 1, some columns⟩))
      (.find [] ⟨.byId id, none, some 1, some columns⟩ : StoreRequest ρ) .many :=
    relays_uncached stored rfl rfl "find_by_key_with_fields"
  obtain ⟨_, result, after, next, ran, exchanged, rfl⟩ := relays clock step state timely
  rw [Repository.findByKeyWithFields, Activity.runOn_bind_of ran]
  rcases result with failure | ⟨_ | ⟨record, rest⟩⟩
  · exact ⟨_, _, _, _, rfl, exchanged, .of_verdict rfl rfl rfl rfl⟩
  · exact ⟨_, _, _, _, rfl, exchanged, .of_verdict rfl rfl rfl rfl⟩
  · exact ⟨_, _, _, _, rfl, exchanged, .of_verdict rfl rfl rfl rfl⟩

def presence : Except Failure ρ → Except Failure Bool
  | .ok _ => .ok true
  | .error failure => if failure.isNotFound then .ok false else .error failure

theorem relays_existsLike (stored : repository.hasStore = true) (record : ρ) :
    Asks repository (repository.existsLike record) fun _ _ _ exchanges result =>
      ∃ reply, exchanges = [⟨.findOne Record.blank (Record.naturalKey record), .one reply⟩] ∧
        result = presence reply := by
  intro clock step state timely
  have relays : Relays repository (repository.uncached "exists"
      (MemoryStore.findOne (Record.blank : ρ) (Record.naturalKey record)))
      (.findOne Record.blank (Record.naturalKey record)) .one :=
    relays_uncached stored rfl rfl "exists"
  obtain ⟨_, reply, after, next, ran, exchanged, rfl⟩ := relays clock step state timely
  rw [Repository.existsLike, Activity.runOn_bind_of ran]
  cases reply with
  | ok existing => exact ⟨_, _, _, _, rfl, exchanged, _, rfl, rfl⟩
  | error failure => exact ⟨_, _, _, _, rfl, exchanged, _, rfl, rfl⟩

theorem of?_presence (record : ρ) (reply : Except Failure ρ) :
    Failure.of? (presence reply) = (existsLike record).verdict (.one reply) := by
  cases reply with
  | ok _ => rfl
  | error failure =>
      cases missing : failure.isNotFound <;>
        simp [verdict, presence, StoreReply.failure?, Failure.of?, Option.filter, missing]

section CachedReads

variable {δ : Type} {shape : Shape ρ δ} {key : Key} {request : StoreRequest ρ} {call : StoreCall}
  {read : Rows → Except Failure δ} {reply : Except Failure δ → StoreReply ρ}

theorem asks_read (stored : repository.hasStore = true) (attempt : Attempt ρ)
    (cached : ∀ moment state,
      attempt.isCached moment state = (lookup shape key moment state).1.1.isSome)
    (asks : ∀ moment, attempt.request? moment = some (.ok request))
    (settled : ∀ result, attempt.goesOn (reply result) = false)
    (tells : ∀ result, attempt.verdict (reply result) = Failure.of? result)
    (calls : request.call? = some call)
    (same : request.activity = (MemoryStore.readCall call read).bind fun result =>
      .done (reply result)) (wrap : δ → Cached ρ) :
    Asks repository
      ((repository.cachedRead shape key (MemoryStore.readCall call read)).bind fun result =>
        .done (Outcome.read (result.map wrap)))
      (attempt.ConcludedBy fun outcome => outcome.report.failure) := by
  refine (asks_cachedRead stored shape key calls same).map ?_
  intro clock state step exchanges result so
  have report : (Outcome.read (result.map wrap)).report.failure = Failure.of? result := by
    cases result <;> rfl
  rw [ConcludedBy, report]
  rcases so with ⟨hit, rfl, fine⟩ | ⟨missed, rfl⟩
  · rw [fine]
    exact .cached ((cached _ _).trans hit)
  · exact .of_verdict ((cached _ _).trans missed) (asks _) (settled _) (tells _).symm

end CachedReads

theorem asks_operation (stored : repository.hasStore = true) {operation : Operation ρ}
    (needs : (operate operation).needsStore = true) :
    Asks repository (operation.activity repository)
      ((operate operation).ConcludedBy fun outcome => outcome.report.failure) := by
  cases operation with
  | fetchOne _ _ _ | fetchMany _ _ _ | invalidate _ => cases needs
  | readByKey key id =>
      exact asks_read stored _ (fun _ _ => rfl) (fun _ => rfl) (fun _ => rfl) (fun _ => rfl)
        rfl rfl .one
  | findOne key filter =>
      exact asks_read stored _ (fun _ _ => rfl) (fun _ => rfl) (fun _ => rfl) (fun _ => rfl)
        rfl rfl .one
  | find key query =>
      exact asks_read stored _ (fun _ _ => rfl) (fun _ => rfl) (fun _ => rfl) (fun _ => rfl)
        rfl rfl .many
  | create policy record => exact (asks_createWith stored policy record).map fun so => so
  | createIfAbsent record => exact (asks_createIfAbsent stored record).map fun so => so
  | update record => exact (asks_update stored record).map fun so => so
  | softDelete record => exact (asks_softDelete stored record).map fun so => so
  | delete record => exact (asks_delete stored record).map fun so => so
  | truncate => exact (asks_truncate stored).map fun so => so

theorem asks (stored : repository.hasStore = true) {attempt : Attempt ρ}
    (needs : attempt.needsStore = true) (other : ∀ record, attempt ≠ .existsLike record) :
    Asks repository (attempt.activity repository) (attempt.ConcludedBy Report.failure) := by
  cases attempt with
  | operate operation => exact (asks_operation stored needs).map fun so => so
  | findMatches filter =>
      have relays : Relays repository (repository.findMatches filter)
          (.find [] { Query.all with filter := filter } : StoreRequest ρ) .many :=
        relays_uncached stored rfl rfl "find_matches"
      refine relays.map ?_
      rintro clock state step exchanges result rfl
      exact .of_verdict rfl rfl rfl rfl
  | findByKeyWithFields id columns =>
      exact (asks_findByKeyWithFields stored id columns).map fun so => so
  | existsLike record => exact absurd rfl (other record)

/-- The answer to whether a record exists, by the reply to the one request that it needs. -/
def AnswersBy (repository : Repository) (attempt : Attempt ρ) (clock : Nat → Moment)
    (state : RepositoryState ρ) (step : Nat) (exchanges : List (Exchange ρ)) : Prop :=
  ∀ record, attempt = .existsLike record →
    ∃ reply, exchanges = [⟨.findOne Record.blank (Record.naturalKey record), .one reply⟩] ∧
      ((repository.existsLike record).runOn clock step state).1 = presence reply

theorem asks_and_answers (stored : repository.hasStore = true) (attempt : Attempt ρ)
    (needs : attempt.needsStore = true) :
    Asks repository (attempt.activity repository) fun clock state step exchanges report =>
      attempt.EndsWith clock state step exchanges report.failure ∧
        attempt.AnswersBy repository clock state step exchanges := by
  intro clock step state timely
  by_cases question : ∃ record, attempt = .existsLike record
  · obtain ⟨record, rfl⟩ := question
    obtain ⟨_, _, after, next, ran, exchanged, reply, rfl, rfl⟩ :=
      relays_existsLike stored record clock step state timely
    refine ⟨_, _, after, next, Activity.runOn_bind_of ran _, exchanged,
      .of_verdict rfl rfl rfl (of?_presence record reply), ?_⟩
    rintro _ same
    obtain rfl := Attempt.existsLike.inj same
    exact ⟨reply, rfl, by rw [ran]⟩
  · have other : ∀ record, attempt ≠ .existsLike record := fun record same =>
      question ⟨record, same⟩
    obtain ⟨exchanges, report, after, next, ran, exchanged, concludes⟩ :=
      asks stored needs other clock step state timely
    exact ⟨exchanges, report, after, next, ran, exchanged, concludes,
      fun record same => absurd same (other record)⟩

end Attempt

namespace Repository

/--
An operation asks its store once, and twice only to create what it did not find. Each request is
counted and takes the next pending failure for its own, and what the last one fails with is reported
as it is, unless it is the answer to whether a record exists, or a duplicate that is ignored.
-/
theorem attempt_surfaces_failures {ρ : Type} [Record ρ] {repository : Repository}
    {before : RepositoryState ρ} {attempt : Attempt ρ} (stored : repository.hasStore = true)
    (needs : attempt.needsStore = true) (timely : repository.Timely before.store)
    (clock : Nat → Moment) (step : Nat) :
    ∃ (exchanges : List (Exchange ρ)) (report : Report ρ) (after : RepositoryState ρ) (next : Nat),
      (attempt.activity repository).runOn clock step before = (report, after, next) ∧
      Exchanges clock before.store exchanges after.store ∧
      attempt.EndsWith clock before step exchanges report.failure ∧
      after.store.calls = (exchanges.filterMap (·.request.call?)).foldl .add before.store.calls ∧
      after.store.faults = before.store.faults.drop exchanges.length ∧
      (∀ (place : Nat) (exchange : Exchange ρ) (failure : Failure),
        exchanges[place]? = some exchange →
        before.store.faults[place]? = some failure → exchange.reply.failure? = some failure) ∧
      attempt.AnswersBy repository clock before step exchanges := by
  obtain ⟨exchanges, report, after, next, ran, exchanged, concludes, answers⟩ :=
    attempt.asks_and_answers stored needs clock step before timely
  exact ⟨exchanges, report, after, next, ran, exchanged, concludes, exchanged.calls,
    exchanged.faults, fun _ _ _ asked pending => exchanged.injected asked pending, answers⟩

def failingStore : MemoryStore Account :=
  ⟨.empty, .zero, [⟨.notFound, "gone"⟩, ⟨.duplicate, "taken"⟩, ⟨.queryFailed, "down"⟩],
    some (.ofMilliseconds 20)⟩

def failing : RepositoryState Account := ⟨staleCache, .empty, failingStore⟩

def createIfAbsentNamed : Attempt Account := .operate (.createIfAbsent (.named "x"))

/-- The look-up and the create both fail, and the failure of the create is told. -/
theorem attempt_surfaces_failures_of_both_calls :
    ∃ (exchanges : List (Exchange Account)) (report : Report Account)
      (after : RepositoryState Account) (next : Nat),
      standard.hasStore = true ∧ createIfAbsentNamed.needsStore = true ∧
      standard.Timely failing.store ∧
      (createIfAbsentNamed.activity standard).runOn afternoon 3 failing = (report, after, next) ∧
      createIfAbsentNamed.EndsWith afternoon failing 3 exchanges report.failure ∧
      report.failure = some ⟨.duplicate, "taken"⟩ ∧
      after.store.calls = ⟨1, 0, 1, 0, 0, 0, 0⟩ ∧
      after.store.faults = [⟨.queryFailed, "down"⟩] := by
  have timely : standard.Timely failing.store := by
    intro latency same
    obtain rfl : Duration.ofMilliseconds 20 = latency := Option.some.inj same
    decide
  have needs : createIfAbsentNamed.needsStore = true := rfl
  obtain ⟨exchanges, report, after, next, ran, _, concludes, _⟩ :=
    attempt_surfaces_failures rfl needs timely afternoon 3
  refine ⟨exchanges, report, after, next, rfl, needs, timely, ran, concludes, ?_⟩
  have reported : report = ((createIfAbsentNamed.activity standard).runOn afternoon 3
      failing).1 := by rw [ran]
  have left : after = ((createIfAbsentNamed.activity standard).runOn afternoon 3
      failing).2.1 := by rw [ran]
  rw [reported, left]
  decide +kernel

end Repository

end CachedStore
