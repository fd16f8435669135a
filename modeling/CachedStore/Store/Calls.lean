import CachedStore.Activity
import CachedStore.Store.Memory

/-!
Calls on a store as activities: each is counted, waits for the store's latency, and then acts on the
rows in one step.
-/

namespace CachedStore

namespace MemoryStore

variable {ρ : Type} {α : Type}

def call (call : StoreCall) (operation : Rows → Except Failure (α × Rows)) :
    Activity (MemoryStore ρ) (Except Failure α) :=
  .act (fun _ store => (store.latency, store.begin call)) fun
    | none => .step fun _ store => store.perform operation
    | some latency => .pause latency.pauseTicks (.step fun _ store => store.perform operation)

def readCall (call : StoreCall) (read : Rows → Except Failure α) :
    Activity (MemoryStore ρ) (Except Failure α) :=
  MemoryStore.call call fun rows => (read rows).map fun answer => (answer, rows)

def writeCall (call : StoreCall) (write : Rows → Except Failure Rows) :
    Activity (MemoryStore ρ) (Except Failure Unit) :=
  MemoryStore.call call fun rows => (write rows).map fun rows => ((), rows)

variable [Record ρ]

def createRecord (record : ρ) : Activity (MemoryStore ρ) (Except Failure Unit) :=
  writeCall .create fun rows => rows.create record

def updateRecord (record : ρ) : Activity (MemoryStore ρ) (Except Failure Unit) :=
  writeCall .update fun rows => rows.update record

def deleteRecord (record : ρ) : Activity (MemoryStore ρ) (Except Failure Unit) :=
  writeCall .delete fun rows => rows.delete record

def readByKey (target : ρ) (id : RecordId) : Activity (MemoryStore ρ) (Except Failure ρ) :=
  readCall .readByKey fun rows => rows.readByKey target id

def findOne (target : ρ) (filter : Filter) : Activity (MemoryStore ρ) (Except Failure ρ) :=
  readCall .findOne fun rows => rows.findOne target filter

def find (target : List ρ) (query : Query) : Activity (MemoryStore ρ) (Except Failure (List ρ)) :=
  readCall .find fun rows => rows.find target query

omit [Record ρ] in
def truncate : Activity (MemoryStore ρ) (Except Failure Nat) :=
  MemoryStore.call .truncate fun rows => .ok (rows.size, .empty)

end MemoryStore

end CachedStore
