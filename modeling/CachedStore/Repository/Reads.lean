import CachedStore.Repository.Basic

/-!
The reads of a repository. A cached read proceeds in three steps: it looks into the cache, calls the
store on a miss, and keeps what it loaded.
-/

namespace CachedStore

structure Fetched (δ : Type) where
  outcome : Except Failure δ
  loaded : Bool

namespace Repository

variable {ρ : Type} [Record ρ] {δ : Type}

def finishLoad (repository : Repository) (shape : Shape ρ δ) (key : Key) (lifetime : Duration)
    (epoch : UInt64) (loaded : Except Failure δ) : Activity (RepositoryState ρ) (Fetched δ) :=
  match loaded with
  | .error failure => .done ⟨.error failure, true⟩
  | .ok value =>
    .act (repository.keep key (shape.wrap value) lifetime epoch) fun _ => .done ⟨.ok value, true⟩

/-- The value cached under a key, or what `load` gives, which is cached then. -/
def fetch (repository : Repository) (shape : Shape ρ δ) (key : Key) (lifetime : Duration)
    (load : Activity (RepositoryState ρ) (Except Failure δ)) :
    Activity (RepositoryState ρ) (Fetched δ) :=
  .act (lookup shape key) fun
    | (some value, _) => .done ⟨.ok value, false⟩
    | (none, epoch) =>
      (repository.deadline "load" load).bind (repository.finishLoad shape key lifetime epoch)

def cachedRead (repository : Repository) (shape : Shape ρ δ) (key : Key)
    (load : Activity (MemoryStore ρ) (Except Failure δ)) :
    Activity (RepositoryState ρ) (Except Failure δ) :=
  if repository.hasStore then
    (repository.fetch shape key repository.readTtl (onStore load)).bind fun fetched =>
      .done fetched.outcome
  else .done (.error (noStore ρ))

def readByKey (repository : Repository) (key : Key) (id : RecordId) :
    Activity (RepositoryState ρ) (Except Failure ρ) :=
  repository.cachedRead .one key (MemoryStore.readByKey Record.blank id)

def findOne (repository : Repository) (key : Key) (filter : Filter) :
    Activity (RepositoryState ρ) (Except Failure ρ) :=
  repository.cachedRead .one key (MemoryStore.findOne Record.blank filter)

def find (repository : Repository) (key : Key) (query : Query) :
    Activity (RepositoryState ρ) (Except Failure (List ρ)) :=
  repository.cachedRead .many key (MemoryStore.find [] query)

def readAll (repository : Repository) (key : Key) :
    Activity (RepositoryState ρ) (Except Failure (List ρ)) :=
  repository.find key .all

def readAllWithFields (repository : Repository) (key : Key) (columns : List String) :
    Activity (RepositoryState ρ) (Except Failure (List ρ)) :=
  repository.find key { Query.all with columns := some columns }

def listItems (repository : Repository) (key : Key) (order : Option SortOrder)
    (limit : Option Nat) : Activity (RepositoryState ρ) (Except Failure (List ρ)) :=
  repository.find key { Query.all with order := order, limit := limit }

def uncached {α : Type} (repository : Repository) (operation : String)
    (call : Activity (MemoryStore ρ) (Except Failure α)) :
    Activity (RepositoryState ρ) (Except Failure α) :=
  if repository.hasStore then repository.deadline operation (onStore call)
  else .done (.error (noStore ρ))

def findMatches (repository : Repository) (filter : Filter) :
    Activity (RepositoryState ρ) (Except Failure (List ρ)) :=
  repository.uncached "find_matches" (MemoryStore.find [] { Query.all with filter := filter })

def findByKeyWithFields (repository : Repository) (id : RecordId) (columns : List String) :
    Activity (RepositoryState ρ) (Except Failure ρ) :=
  (repository.uncached "find_by_key_with_fields"
    (MemoryStore.find [] ⟨.byId id, none, some 1, some columns⟩)).bind fun
    | .error failure => .done (.error failure)
    | .ok [] => .done (.error (Record.unknownId ρ id))
    | .ok (record :: _) => .done (.ok record)

def existsLike (repository : Repository) (record : ρ) :
    Activity (RepositoryState ρ) (Except Failure Bool) :=
  (repository.uncached "exists"
    (MemoryStore.findOne (Record.blank : ρ) (Record.naturalKey record))).bind fun
    | .ok _ => .done (.ok true)
    | .error failure =>
      .done (if failure.isNotFound then .ok false else .error failure)

end Repository

end CachedStore
