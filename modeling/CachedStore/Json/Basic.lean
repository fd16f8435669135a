import CachedStore.Number.Double

/-!
JSON values, and rows: objects whose members stand in the order of their names, each name once.
-/

namespace CachedStore

/--
An integer that fits 64 bits, signed or unsigned, or a double. The two kinds never compare equal.
-/
inductive Number where
  | integer (value : Int)
  | double (value : Double)
deriving DecidableEq

namespace Number

def same : Number → Number → Bool
  | integer a, integer b => a == b
  | double a, double b => a.same b
  | _, _ => false

def toDouble : Number → Double
  | integer value => Double.ofInt value
  | double value => value

end Number

inductive Json where
  | null
  | bool (value : Bool)
  | number (value : Number)
  | string (text : String)
  | array (items : List Json)
  | object (members : List (String × Json))
deriving Inhabited

namespace Json

mutual

/-- Equality of values: as `=`, but for the two zeros among the doubles. -/
def same : Json → Json → Bool
  | null, null => true
  | bool a, bool b => a == b
  | number a, number b => a.same b
  | string a, string b => a == b
  | array a, array b => sameItems a b
  | object a, object b => sameMembers a b
  | _, _ => false

def sameItems : List Json → List Json → Bool
  | [], [] => true
  | a :: as, b :: bs => same a b && sameItems as bs
  | _, _ => false

def sameMembers : List (String × Json) → List (String × Json) → Bool
  | [], [] => true
  | (name, a) :: as, (name', b) :: bs => name == name' && same a b && sameMembers as bs
  | _, _ => false

end

def ofNat (value : Nat) : Json := number (.integer value)

def ofInt (value : Int) : Json := number (.integer value)

def text? : Json → Option String
  | string text => some text
  | _ => none

def integer? : Json → Option Int
  | number (.integer value) => some value
  | _ => none

def bool? : Json → Option Bool
  | bool value => some value
  | _ => none

def array? : Json → Option (List Json)
  | array items => some items
  | _ => none

end Json

/-- A row: column names with their values, in the order of the names. -/
structure Row where
  columns : List (String × Json)
deriving Inhabited

namespace Row

def empty : Row := ⟨[]⟩

def place (name : String) (value : Json) : List (String × Json) → List (String × Json)
  | [] => [(name, value)]
  | (other, kept) :: rest =>
    if name < other then (name, value) :: (other, kept) :: rest
    else if name = other then (name, value) :: rest
    else (other, kept) :: place name value rest

def insert (row : Row) (name : String) (value : Json) : Row := ⟨place name value row.columns⟩

def get? (row : Row) (name : String) : Option Json := row.columns.lookup name

def contains (row : Row) (name : String) : Bool := (row.get? name).isSome

def get (row : Row) (name : String) : Json := (row.get? name).getD .null

/-- Adds members one by one, so that the last of a name stays. -/
def ofMembers (members : List (String × Json)) : Row :=
  members.foldl (fun row member => row.insert member.1 member.2) empty

def overlay (base overlay : Row) : Row :=
  overlay.columns.foldl (fun row column => row.insert column.1 column.2) base

def erase (row : Row) (name : String) : Row := ⟨row.columns.filter (·.1 != name)⟩

def toJson (row : Row) : Json := .object row.columns

end Row

namespace Json

def ofMembers (members : List (String × Json)) : Json := (Row.ofMembers members).toJson

def row? : Json → Option Row
  | object members => some ⟨members⟩
  | _ => none

end Json

end CachedStore
