import CachedStore.Json.Printer
import CachedStore.Record.Identity

/-!
What a read asks for: conditions on columns, an order, a limit and a choice of columns.
-/

namespace CachedStore

structure Filter where
  conditions : List (String × Json)
deriving Inhabited

namespace Filter

def all : Filter := ⟨[]⟩

def equals (column : String) (value : Json) : Filter := ⟨[(column, value)]⟩

def and (filter : Filter) (column : String) (value : Json) : Filter :=
  ⟨filter.conditions ++ [(column, value)]⟩

def byId (id : RecordId) : Filter := equals "id" (.string id.text)

def isEmpty (filter : Filter) : Bool := filter.conditions.isEmpty

/-- A missing column meets the condition `null`. -/
def accepts (filter : Filter) (row : Row) : Bool :=
  filter.conditions.all fun (column, value) => (row.get column).same value

def conditionText (condition : String × Json) : String :=
  condition.1 ++ " = " ++ condition.2.text

def text (filter : Filter) : String :=
  if filter.isEmpty then "<all>"
  else " AND ".intercalate (filter.conditions.map conditionText)

def toJson (filter : Filter) : Json :=
  .ofMembers [("conditions",
    .array (filter.conditions.map fun (column, value) => .array [.string column, value]))]

end Filter

/-- The order of two values. Values of different types compare by their text. -/
def compareValues : Json → Json → Ordering
  | .null, .null => .eq
  | .null, _ => .lt
  | _, .null => .gt
  | .number a, .number b => compare a.toDouble.position b.toDouble.position
  | .string a, .string b => compare a b
  | .bool a, .bool b => compare a b
  | a, b => compare a.text b.text

structure SortOrder where
  column : String
  descending : Bool
deriving DecidableEq, Inhabited

namespace SortOrder

/-- The order of two rows by the column. A missing value stands with `null`, before all others. -/
def compareRows (order : SortOrder) (a b : Row) : Ordering :=
  let ordering := compareValues (a.get order.column) (b.get order.column)
  if order.descending then ordering.swap else ordering

def sort (order : SortOrder) (rows : List Row) : List Row :=
  rows.mergeSort fun a b => order.compareRows a b != .gt

def toJson (order : SortOrder) : Json :=
  .ofMembers [("column", .string order.column), ("descending", .bool order.descending)]

end SortOrder

structure Query where
  filter : Filter
  order : Option SortOrder
  limit : Option Nat
  columns : Option (List String)
deriving Inhabited

namespace Query

def all : Query := ⟨.all, none, none, none⟩

def effectiveLimit (query : Query) : Option Nat := query.limit.filter (0 < ·)

def project (query : Query) (row : Row) : Row :=
  match query.columns with
  | none => row
  | some columns =>
    .ofMembers (columns.filterMap fun column => (row.get? column).map fun value => (column, value))

def toJson (query : Query) : Json :=
  .ofMembers [
    ("filter", query.filter.toJson),
    ("order", (query.order.map SortOrder.toJson).getD .null),
    ("limit", (query.limit.map Json.ofNat).getD .null),
    ("columns", (query.columns.map fun columns => .array (columns.map .string)).getD .null)]

end Query

end CachedStore
