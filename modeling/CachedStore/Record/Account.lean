import CachedStore.Record.Basic

/-!
Accounts: named balances of signed 64-bit integers. No two share a name, deleted ones included.
-/

namespace CachedStore

structure Account where
  id : Option RecordId
  name : String
  balance : Int64
  metadata : Metadata
deriving DecidableEq, Repr, Inhabited

namespace Account

def named (name : String) : Account := ⟨none, name, 0, .none⟩

def readBalance (value : Json) : Option Int64 :=
  value.integer?.bind fun value =>
    if -2 ^ 63 ≤ value ∧ value < 2 ^ 63 then some (Int64.ofInt value) else none

def ofRow? (row : Row) : Option Account := row.readWhole "balance" readBalance 0 mk

def toRow (account : Account) : Row :=
  .whole "balance" account.id account.name (.ofInt account.balance.toInt) account.metadata

instance : Record Account where
  kindName := "account"
  blank := named ""
  id? := Account.id
  withId account id := .ok { account with id := some id }
  deletedAt? account := account.metadata.deletedAt
  markDeleted account time :=
    .ok { account with metadata := { account.metadata with deletedAt := some time } }
  naturalKey account := .equals "name" (.string account.name)
  touchCreated account time :=
    { account with metadata := { account.metadata with createdAt := some time } }
  touchUpdated account time :=
    { account with metadata := { account.metadata with updatedAt := some time } }
  ofRow row := (ofRow? row).elim (.error .unreadableRow) .ok
  toJson account := account.toRow.toJson

end Account

end CachedStore
