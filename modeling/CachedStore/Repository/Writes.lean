import CachedStore.Repository.Reads

/-!
The writes of a repository. Each stamps the record, calls the store, and after a success drops the
cached reads of the record and of all lists.
-/

namespace CachedStore

/-- The outcome of a write, and the record as the write left it with its caller. -/
structure Written (ρ : Type) where
  outcome : Except Failure Unit
  record : ρ

namespace Repository

variable {ρ : Type} [Record ρ]

def settle (policy : DuplicatePolicy) (outcome : Except Failure Unit) : Except Failure Unit :=
  match outcome with
  | .ok () => .ok ()
  | .error failure =>
    if policy = .ignore ∧ failure.isDuplicate then .ok () else .error failure

def finishWrite (repository : Repository) (policy : DuplicatePolicy) (id : Option RecordId)
    (record : ρ) (outcome : Except Failure Unit) : Activity (RepositoryState ρ) (Written ρ) :=
  match settle policy outcome with
  | .error failure => .done ⟨.error failure, record⟩
  | .ok () => .act (repository.invalidateRecord id) fun _ => .done ⟨.ok (), record⟩

def write (repository : Repository) (operation : String) (policy : DuplicatePolicy)
    (id : Option RecordId) (record : ρ)
    (call : Activity (MemoryStore ρ) (Except Failure Unit)) :
    Activity (RepositoryState ρ) (Written ρ) :=
  (repository.deadline operation (onStore call)).bind
    (repository.finishWrite policy id record)

def needingStore (repository : Repository) (record : ρ)
    (activity : Activity (RepositoryState ρ) (Written ρ)) :
    Activity (RepositoryState ρ) (Written ρ) :=
  if repository.hasStore then activity else .done ⟨.error (noStore ρ), record⟩

def stampNew (record : ρ) (moment : Moment) : Except Failure (RecordId × ρ) :=
  (Record.ensureId record moment.freshId).map fun (id, record) =>
    (id, Record.touchCreated record moment.time)

def stampDeleted (record : ρ) (moment : Moment) : Except Failure ρ :=
  (Record.markDeleted record moment.time).map fun record =>
    Record.touchUpdated record moment.time

def createWith (repository : Repository) (policy : DuplicatePolicy) (record : ρ) :
    Activity (RepositoryState ρ) (Written ρ) :=
  repository.needingStore record <|
    .act (fun moment state => (stampNew record moment, state)) fun
      | .error failure => .done ⟨.error failure, record⟩
      | .ok (id, stamped) =>
        repository.write "create" policy (some id) stamped (MemoryStore.createRecord stamped)

def create (repository : Repository) (record : ρ) : Activity (RepositoryState ρ) (Written ρ) :=
  repository.createWith .strict record

def createIgnoringDuplicate (repository : Repository) (record : ρ) :
    Activity (RepositoryState ρ) (Written ρ) :=
  repository.createWith .ignore record

/-- Stores the record unless a live one has its natural key, which then takes its place. -/
def createIfAbsent (repository : Repository) (record : ρ) :
    Activity (RepositoryState ρ) (Written ρ) :=
  repository.needingStore record <|
    (repository.uncached "create_if_not"
      (MemoryStore.findOne (Record.blank : ρ) (Record.naturalKey record))).bind fun
      | .ok existing => .done ⟨.ok (), existing⟩
      | .error failure =>
        if failure.isNotFound then repository.create record
        else .done ⟨.error failure, record⟩

def update (repository : Repository) (record : ρ) : Activity (RepositoryState ρ) (Written ρ) :=
  repository.needingStore record <|
    .act (fun moment state => (Record.touchUpdated record moment.time, state)) fun stamped =>
      repository.write "update" .strict (Record.id? stamped) stamped
        (MemoryStore.updateRecord stamped)

def softDelete (repository : Repository) (record : ρ) :
    Activity (RepositoryState ρ) (Written ρ) :=
  repository.needingStore record <|
    .act (fun moment state => (stampDeleted record moment, state)) fun
      | .error failure => .done ⟨.error failure, record⟩
      | .ok stamped =>
        repository.write "soft_delete" .strict (Record.id? stamped) stamped
          (MemoryStore.updateRecord stamped)

def delete (repository : Repository) (record : ρ) : Activity (RepositoryState ρ) (Written ρ) :=
  repository.needingStore record <|
    repository.write "delete" .strict (Record.id? record) record (MemoryStore.deleteRecord record)

def truncate (repository : Repository) : Activity (RepositoryState ρ) (Except Failure Nat) :=
  (repository.uncached "truncate" MemoryStore.truncate).bind fun
    | .error failure => .done (.error failure)
    | .ok removed => .act invalidateAll fun _ => .done (.ok removed)

end Repository

end CachedStore
