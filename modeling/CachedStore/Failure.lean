/-!
Failures of stores, caches and repositories. The kind says what a caller may do about one; the
detail says what happened.
-/

namespace CachedStore

inductive FailureKind where
  | duplicate
  | notFound
  | queryFailed
  | configuration
deriving DecidableEq, Repr

namespace FailureKind

def heading : FailureKind → String
  | duplicate => "Duplicate record"
  | notFound => "Record not found"
  | queryFailed => "Query failed"
  | configuration => "Configuration error"

def word : FailureKind → String
  | duplicate => "duplicate"
  | notFound => "not_found"
  | queryFailed => "query_failed"
  | configuration => "configuration"

end FailureKind

structure Failure where
  kind : FailureKind
  detail : String
deriving DecidableEq, Repr

namespace Failure

def text (failure : Failure) : String := failure.kind.heading ++ ": " ++ failure.detail

def isDuplicate (failure : Failure) : Bool := failure.kind == .duplicate

def isNotFound (failure : Failure) : Bool := failure.kind == .notFound

def noCapacity : Failure := ⟨.configuration, "cache capacity must be greater than zero"⟩

def noShards : Failure := ⟨.configuration, "cache shard count must be greater than zero"⟩

def zeroTimeout : Failure := ⟨.configuration, "query timeout must be greater than zero"⟩

def unreadableRow : Failure := ⟨.queryFailed, "row materialization failed"⟩

end Failure

/-- Why something cannot be made. A failure is answered; a sum beyond a word ends the program. -/
inductive Obstacle where
  | failure (failure : Failure)
  | overflow
deriving DecidableEq, Repr

end CachedStore
