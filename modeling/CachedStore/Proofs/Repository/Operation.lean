import CachedStore.Proofs.Record.Lawful
import CachedStore.Proofs.Repository.Conduct

/-!
The operations of a repository that concern its cache, as activities with one kind of outcome, and
what each of them ends with.
-/

namespace CachedStore

/-- What clients may ask of a repository. The loads of the first two are any calls on the store. -/
inductive Operation (ρ : Type) : Type 1 where
  | fetchOne (key : Key) (lifetime : Duration)
      (load : Activity (MemoryStore ρ) (Except Failure ρ))
  | fetchMany (key : Key) (lifetime : Duration)
      (load : Activity (MemoryStore ρ) (Except Failure (List ρ)))
  | readByKey (key : Key) (id : RecordId)
  | findOne (key : Key) (filter : Filter)
  | find (key : Key) (query : Query)
  | invalidate (key : Key)
  | create (policy : DuplicatePolicy) (record : ρ)
  | createIfAbsent (record : ρ)
  | update (record : ρ)
  | softDelete (record : ρ)
  | delete (record : ρ)
  | truncate

inductive Outcome (ρ : Type) where
  | read (result : Except Failure (Cached ρ))
  | wrote (written : Written ρ)
  | truncated (result : Except Failure Nat)
  | invalidated

namespace Operation

variable {ρ : Type}

def readKey? : Operation ρ → Option Key
  | fetchOne key _ _ => some key
  | fetchMany key _ _ => some key
  | readByKey key _ => some key
  | findOne key _ => some key
  | find key _ => some key
  | _ => none

def isWrite : Operation ρ → Bool
  | create _ _ => true
  | update _ => true
  | softDelete _ => true
  | delete _ => true
  | _ => false

variable [Record ρ]

def activity (repository : Repository) :
    Operation ρ → Activity (RepositoryState ρ) (Outcome ρ)
  | fetchOne key lifetime load =>
    (repository.fetch .one key lifetime (Repository.onStore load)).bind fun fetched =>
      .done (.read (fetched.outcome.map .one))
  | fetchMany key lifetime load =>
    (repository.fetch .many key lifetime (Repository.onStore load)).bind fun fetched =>
      .done (.read (fetched.outcome.map .many))
  | readByKey key id =>
    (repository.readByKey key id).bind fun result => .done (.read (result.map .one))
  | findOne key filter =>
    (repository.findOne key filter).bind fun result => .done (.read (result.map .one))
  | find key query =>
    (repository.find key query).bind fun result => .done (.read (result.map .many))
  | invalidate key =>
    (Activity.step fun _ state => ((), Repository.invalidateKey key state)).bind fun _ =>
      .done .invalidated
  | create policy record =>
    (repository.createWith policy record).bind fun written => .done (.wrote written)
  | createIfAbsent record =>
    (repository.createIfAbsent record).bind fun written => .done (.wrote written)
  | update record => (repository.update record).bind fun written => .done (.wrote written)
  | softDelete record =>
    (repository.softDelete record).bind fun written => .done (.wrote written)
  | delete record => (repository.delete record).bind fun written => .done (.wrote written)
  | truncate => (repository.truncate).bind fun result => .done (.truncated result)

/-- A read is over before as many invalidations as the epoch can tell apart. -/
def Admits (operation : Operation ρ) (since count : Nat) : Prop :=
  operation.readKey?.isSome = true → count < since + 2 ^ 64

def Allowed (meaning : Meaning ρ) : Operation ρ → Prop
  | fetchOne key _ load => Repository.Loads meaning key .one (Repository.onStore load)
  | fetchMany key _ load => Repository.Loads meaning key .many (Repository.onStore load)
  | readByKey key id =>
    Repository.Loads meaning key .one
      (Repository.onStore (MemoryStore.readByKey (Record.blank : ρ) id))
  | findOne key filter =>
    Repository.Loads meaning key .one
      (Repository.onStore (MemoryStore.findOne (Record.blank : ρ) filter))
  | find key query =>
    Repository.Loads meaning key .many (Repository.onStore (MemoryStore.find ([] : List ρ) query))
  | _ => True

structure Ends {meaning : Meaning ρ} (operation : Operation ρ) (since : Nat) (outcome : Outcome ρ)
    (after : World meaning) : Prop where
  free : after.1.own = none
  read : ∀ key value, operation.readKey? = some key → outcome = .read (.ok value) →
    since < after.1.count → after.1.state.cache.stored? key = none
  wrote : ∀ written, operation.isWrite = true → outcome = .wrote written →
    written.outcome = .ok () → Repository.Clears (Record.id? written.record) after
  truncated : ∀ removed, outcome = .truncated (.ok removed) →
    after.1.previous < after.1.count ∧ Repository.Emptied after.1.state

section Ends

variable {meaning : Meaning ρ} {operation : Operation ρ} {since : Nat} {after : World meaning}

theorem Ends.of_read {δ : Type} {key : Key} {wrap : δ → Cached ρ} {result : Except Failure δ}
    (reads : operation.readKey? = some key) (writes : operation.isWrite = false)
    (leaves : Repository.LeavesNothing key since result after) :
    operation.Ends since (.read (result.map wrap)) after where
  free := leaves.1
  read := fun other value same answered overlapped => by
    obtain rfl : key = other := Option.some.inj (reads.symm.trans same)
    cases result with
    | error failure => simp [Except.map] at answered
    | ok value => exact leaves.2 value rfl overlapped
  wrote := fun _ write _ _ => by simp [writes] at write
  truncated := fun _ impossible => by simp at impossible

theorem Ends.of_write {written : Written ρ} (writes : operation.readKey? = none)
    (free : after.1.own = none)
    (clears : operation.isWrite = true → written.outcome = .ok () →
      Repository.Clears (Record.id? written.record) after) :
    operation.Ends since (.wrote written) after where
  free := free
  read := fun _ _ reads _ _ => by simp [writes] at reads
  wrote := fun other write same succeeded => by
    obtain rfl := Outcome.wrote.inj same
    exact clears write succeeded
  truncated := fun _ impossible => by simp at impossible

end Ends

section Starts

open Repository

variable {meaning : Meaning ρ} {repository : Repository}

theorem safe_bind {operation : Operation ρ} {α : Type}
    {activity : Activity (RepositoryState ρ) α} {next : α → Outcome ρ}
    {post : α → World meaning → Prop} {world : World meaning}
    (safe : Activity.Safe (World.rules meaning fun _ => True) (fun _ => True) activity post world)
    (ends : ∀ result after, post result after → operation.Ends world.1.count (next result) after) :
    Activity.Safe (World.rules meaning fun _ => True) (fun _ => True)
      (activity.bind fun result => .done (next result)) (operation.Ends world.1.count) world :=
  Activity.Safe.bind (safe.mono (fun _ holds => holds) ends)

theorem safe [LawfulRecord ρ] (lawful : meaning.Lawful)
    (tracking : repository.invalidation = .byIdentity) {operation : Operation ρ}
    (reads : operation.readKey? = none) {world : World meaning} (free : world.1.own = none) :
    Activity.Safe (World.rules meaning fun _ => True) (fun _ => True)
      (operation.activity repository) (operation.Ends world.1.count) world := by
  cases operation with
  | fetchOne key lifetime load => cases reads
  | fetchMany key lifetime load => cases reads
  | readByKey key id => cases reads
  | findOne key filter => cases reads
  | find key query => cases reads
  | invalidate key =>
      refine safe_bind (invalidateKey_safe key free) fun _ after free => ?_
      exact ⟨free, fun _ _ reads => by simp [readKey?] at reads,
        fun _ writes => by simp [isWrite] at writes, fun _ impossible => by simp at impossible⟩
  | create policy record =>
      refine safe_bind (createWith_safe lawful tracking policy record free) ?_
      intro written after creates
      refine Ends.of_write rfl creates.1 fun _ succeeded => ?_
      obtain ⟨moment, id, stamped, clears⟩ := creates.2 succeeded
      exact (id?_of_stampNew stamped).symm ▸ clears
  | createIfAbsent record =>
      refine safe_bind (createIfAbsent_safe lawful tracking record free) ?_
      exact fun written after free =>
        Ends.of_write rfl free fun writes => by simp [isWrite] at writes
  | update record =>
      refine safe_bind (update_safe lawful tracking record free) ?_
      exact fun written after changes => Ends.of_write rfl changes.1 fun _ => changes.2
  | softDelete record =>
      refine safe_bind (softDelete_safe lawful tracking record free) ?_
      exact fun written after changes => Ends.of_write rfl changes.1 fun _ => changes.2
  | delete record =>
      refine safe_bind (delete_safe lawful tracking record free) ?_
      exact fun written after changes => Ends.of_write rfl changes.1 fun _ => changes.2
  | truncate =>
      refine safe_bind (truncate_safe lawful free) fun result after empties => ?_
      refine ⟨empties.1, fun _ _ reads => by simp [readKey?] at reads,
        fun _ writes => by simp [isWrite] at writes, fun removed same => ?_⟩
      exact empties.2 removed (Outcome.truncated.inj same)

theorem starts_of_safe [LawfulRecord ρ] (lawful : meaning.Lawful)
    (tracking : repository.invalidation = .byIdentity) {operation : Operation ρ}
    (reads : operation.readKey? = none)
    (underway : (operation.activity repository).isDone = false) :
    Starts meaning operation.Admits (operation.activity repository) operation.Ends := by
  have admits : ∀ since, operation.Admits since = fun _ => True := by
    intro since
    funext count
    simp [Admits, reads]
  intro world moment late free order
  rw [admits]
  have whole := safe lawful tracking reads free
  exact whole.advance underway (Snapshot.Later.refl world.1) ⟨order, trivial⟩ late fun _ => trivial

theorem fetch_starts {δ : Type} {operation : Operation ρ} {key : Key}
    (reads : operation.readKey? = some key) (writes : operation.isWrite = false)
    (tracking : repository.invalidation = .byIdentity) (shape : Shape ρ δ) (lifetime : Duration)
    {load : Activity (RepositoryState ρ) (Except Failure δ)}
    (loads : Loads meaning key shape.wrap load) :
    Starts meaning operation.Admits
      ((repository.fetch shape key lifetime load).bind fun fetched =>
        .done (.read (fetched.outcome.map shape.wrap))) operation.Ends := by
  have admits : operation.Admits = fun since count => count < since + 2 ^ 64 := by
    funext since count
    simp [Admits, reads]
  rw [admits]
  refine (Repository.fetch_starts tracking shape key lifetime loads).bind rfl ?_
  exact fun since result after leaves => Ends.of_read reads writes leaves

theorem cachedRead_starts {δ : Type} {operation : Operation ρ} {key : Key}
    (reads : operation.readKey? = some key) (writes : operation.isWrite = false)
    (tracking : repository.invalidation = .byIdentity) (shape : Shape ρ δ)
    {load : Activity (MemoryStore ρ) (Except Failure δ)}
    (loads : Loads meaning key shape.wrap (onStore load))
    (underway : (repository.cachedRead shape key load).isDone = false) :
    Starts meaning operation.Admits
      ((repository.cachedRead shape key load).bind fun result =>
        .done (.read (result.map shape.wrap))) operation.Ends := by
  unfold cachedRead at underway ⊢
  split at underway
  · rename_i stored
    rw [if_pos stored, Activity.bind_assoc]
    exact fetch_starts reads writes tracking shape repository.readTtl loads
  · simp [Activity.isDone] at underway

theorem starts [LawfulRecord ρ] (lawful : meaning.Lawful)
    (tracking : repository.invalidation = .byIdentity) (operation : Operation ρ)
    (allowed : operation.Allowed meaning)
    (underway : (operation.activity repository).isDone = false) :
    Starts meaning operation.Admits (operation.activity repository) operation.Ends := by
  have goes : ∀ {α : Type} {first : Activity (RepositoryState ρ) α} {next : α → Outcome ρ},
      (first.bind fun result => .done (next result)).isDone = false → first.isDone = false := by
    intro α first next still
    cases first with
    | done result => exact still
    | _ => rfl
  cases operation with
  | fetchOne key lifetime load => exact fetch_starts rfl rfl tracking .one lifetime allowed
  | fetchMany key lifetime load => exact fetch_starts rfl rfl tracking .many lifetime allowed
  | readByKey key id => exact cachedRead_starts rfl rfl tracking .one allowed (goes underway)
  | findOne key filter => exact cachedRead_starts rfl rfl tracking .one allowed (goes underway)
  | find key query => exact cachedRead_starts rfl rfl tracking .many allowed (goes underway)
  | _ => exact starts_of_safe lawful tracking rfl underway

end Starts

end Operation

end CachedStore
