import Std.Data.TreeMap
import CachedStore.Record.Basic

/-!
The rows of one collection, in the order of their identities. Identities and natural keys are
unique, also against deleted rows; reads pass over deleted rows.
-/

namespace CachedStore

abbrev Rows := Std.TreeMap RecordId Row

namespace Rows

variable {ρ : Type} [Record ρ]

def contents (rows : Rows) : List Row := rows.toList.map (·.2)

def isLive (ρ : Type) [Record ρ] (row : Row) : Except Failure Bool :=
  (Record.ofRow row).map fun (record : ρ) => !Record.isDeleted record

/-- The record of the columns of `target` under those of the row. -/
def populate (target : ρ) (row : Row) : Except Failure ρ := do
  let columns ← Record.toRow target
  Record.ofRow (columns.overlay row)

def requireId (record : ρ) : Except Failure RecordId :=
  match Record.givenId? record with
  | some id => .ok id
  | none => .error (Record.noId ρ)

/-- Whether a row other than that of `id` has the key. A key without conditions is no key. -/
def keyIsTaken (rows : Rows) (id : RecordId) (key : Filter) : Bool :=
  !key.isEmpty && rows.toList.any fun (other, row) => other != id && key.accepts row

def checkKey (rows : Rows) (id : RecordId) (record : ρ) : Except Failure Unit :=
  if keyIsTaken rows id (Record.naturalKey record) then
    .error (Record.keyTaken ρ (Record.naturalKey record))
  else .ok ()

def create (rows : Rows) (record : ρ) : Except Failure Rows := do
  let id ← requireId record
  let row ← Record.toRow record
  if rows.contains id then throw (Record.idTaken ρ id)
  checkKey rows id record
  return rows.insert id row

def update (rows : Rows) (record : ρ) : Except Failure Rows := do
  let id ← requireId record
  let row ← Record.toRow record
  if !rows.contains id then throw (Record.unknownId ρ id)
  checkKey rows id record
  return rows.insert id row

def delete (rows : Rows) (record : ρ) : Except Failure Rows := do
  let id ← requireId record
  if !rows.contains id then throw (Record.unknownId ρ id)
  return rows.erase id

def readByKey (rows : Rows) (target : ρ) (id : RecordId) : Except Failure ρ := do
  match rows[id]? with
  | none => throw (Record.unknownId ρ id)
  | some row => if ← isLive ρ row then populate target row else throw (Record.unknownId ρ id)

def matching (rows : Rows) (filter : Filter) : List Row := (contents rows).filter filter.accepts

def firstLive (ρ : Type) [Record ρ] : List Row → Except Failure (Option Row)
  | [] => .ok none
  | row :: rest => do if ← isLive ρ row then return some row else firstLive ρ rest

def findOne (rows : Rows) (target : ρ) (filter : Filter) : Except Failure ρ := do
  match ← firstLive ρ (matching rows filter) with
  | some row => populate target row
  | none => throw (Record.noMatch ρ filter)

def liveRows (ρ : Type) [Record ρ] : List Row → Except Failure (List Row)
  | [] => .ok []
  | row :: rest => do
    let live ← isLive ρ row
    let others ← liveRows ρ rest
    return if live then row :: others else others

def select (ρ : Type) [Record ρ] (rows : Rows) (query : Query) : Except Failure (List Row) := do
  let live ← liveRows ρ (matching rows query.filter)
  let sorted := query.order.elim live fun order => order.sort live
  return query.effectiveLimit.elim sorted fun limit => sorted.take limit

/-- The records of a query behind those of `target`, only the chosen columns filled in. -/
def find (rows : Rows) (target : List ρ) (query : Query) : Except Failure (List ρ) := do
  let selected ← select ρ rows query
  let found ← selected.mapM fun row => populate (Record.blank : ρ) (query.project row)
  return target ++ found

def records (ρ : Type) [Record ρ] (rows : Rows) : Except Failure (List ρ) :=
  (contents rows).mapM Record.ofRow

end Rows

end CachedStore
