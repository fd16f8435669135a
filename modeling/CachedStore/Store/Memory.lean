import CachedStore.Store.Rows
import CachedStore.Time.Duration

/-!
A store in memory. It counts its calls, may take time for each, and may be told to fail the next
ones.
-/

namespace CachedStore

inductive StoreCall where
  | create
  | readByKey
  | findOne
  | find
  | update
  | delete
  | truncate
deriving DecidableEq, Repr

structure CallCounts where
  create : Nat
  readByKey : Nat
  findOne : Nat
  find : Nat
  update : Nat
  delete : Nat
  truncate : Nat
deriving DecidableEq, Repr, Inhabited

namespace CallCounts

def zero : CallCounts := ⟨0, 0, 0, 0, 0, 0, 0⟩

def add (counts : CallCounts) : StoreCall → CallCounts
  | .create => { counts with create := counts.create + 1 }
  | .readByKey => { counts with readByKey := counts.readByKey + 1 }
  | .findOne => { counts with findOne := counts.findOne + 1 }
  | .find => { counts with find := counts.find + 1 }
  | .update => { counts with update := counts.update + 1 }
  | .delete => { counts with delete := counts.delete + 1 }
  | .truncate => { counts with truncate := counts.truncate + 1 }

def counts (calls : CallCounts) : List (String × Nat) :=
  [("create", calls.create), ("read_by_key", calls.readByKey), ("find_one", calls.findOne),
    ("find", calls.find), ("update", calls.update), ("delete", calls.delete),
    ("truncate", calls.truncate)]

def reads (counts : CallCounts) : Nat := counts.readByKey + counts.findOne + counts.find

def writes (counts : CallCounts) : Nat :=
  counts.create + counts.update + counts.delete + counts.truncate

end CallCounts

structure MemoryStore (ρ : Type) where
  rows : Rows
  calls : CallCounts
  /-- Failures of the next calls, in order. -/
  faults : List Failure
  latency : Option Duration

namespace MemoryStore

variable {ρ : Type}

def create (latency : Option Duration) : MemoryStore ρ := ⟨.empty, .zero, [], latency⟩

def failNext (store : MemoryStore ρ) (failure : Failure) : MemoryStore ρ :=
  { store with faults := store.faults ++ [failure] }

/-- A call is counted when it starts, before its latency. -/
def begin (store : MemoryStore ρ) (call : StoreCall) : MemoryStore ρ :=
  { store with calls := store.calls.add call }

/-- Runs an operation on the rows, unless a failure is pending, which takes its place. -/
def perform {α : Type} (store : MemoryStore ρ)
    (operation : Rows → Except Failure (α × Rows)) : Except Failure α × MemoryStore ρ :=
  match store.faults with
  | failure :: faults => (.error failure, { store with faults := faults })
  | [] =>
    match operation store.rows with
    | .ok (answer, rows) => (.ok answer, { store with rows := rows })
    | .error failure => (.error failure, store)

end MemoryStore

end CachedStore
